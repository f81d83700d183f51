import Mathlib.Logic.Basic

/-!
# Runs of a state machine

A machine is a partial step function: `step s a` is the state after action `a`, `none` where the action cannot happen. A run is
any sequence of actions from a start state. `Reach` collects the states of the runs whose every step meets a condition `ok` on
the state before it and the action; with no condition it is plain reachability. The rules of the library are `Reach.invariant`,
`exec_iff_meets` for what a run loses for good, and `always_iff_meets` for what is to hold in each of its states.
-/

namespace Machine

variable {σ α : Type*}

/-- The states of the runs from `s₀` whose every step is possible and meets `ok`. -/
inductive Reach (step : σ → α → Option σ) (ok : σ → α → Prop) (s₀ : σ) : σ → Prop where
  | start : Reach step ok s₀ s₀
  | next {s s' : σ} (a : α) : Reach step ok s₀ s → ok s a → step s a = some s' → Reach step ok s₀ s'

/-- No condition on the steps. -/
def anyStep : σ → α → Prop := fun _ _ => True

variable {step : σ → α → Option σ} {ok : σ → α → Prop} {s₀ s : σ}

/-- What holds at the start and is kept by every step that meets the condition holds in every state reached. -/
theorem Reach.invariant {P : σ → Prop} (h : Reach step ok s₀ s) (start : P s₀)
    (next : ∀ s a s', P s → ok s a → step s a = some s' → P s') : P s := by
  induction h with
  | start => exact start
  | next a _ hok hstep ih => exact next _ a _ ih hok hstep

theorem Reach.mono {ok' : σ → α → Prop} (h : Reach step ok s₀ s) (himp : ∀ s a, ok s a → ok' s a) :
    Reach step ok' s₀ s := by
  induction h with
  | start => exact .start
  | next a _ hok hstep ih => exact .next a ih (himp _ a hok) hstep

/-- The state after a list of actions. -/
def exec (step : σ → α → Option σ) (s : σ) : List α → Option σ
  | [] => some s
  | a :: as => (step s a).bind (fun s' => exec step s' as)

/-- A list of actions that runs reaches its end. -/
theorem Reach.exec {as : List α} {s' : σ} (h : Reach step anyStep s₀ s) (hrun : Machine.exec step s as = some s') :
    Reach step anyStep s₀ s' := by
  induction as generalizing s with
  | nil =>
    cases hrun
    exact h
  | cons a as ih =>
    obtain ⟨s₁, hstep, hrest⟩ := Option.bind_eq_some_iff.mp hrun
    exact ih (.next a h trivial hstep) hrest

/-- The state after a list of actions whose every step meets the condition. -/
def execIf (step : σ → α → Option σ) (ok : σ → α → Prop) [∀ s a, Decidable (ok s a)] (s : σ) : List α → Option σ
  | [] => some s
  | a :: as => if ok s a then (step s a).bind (fun s' => execIf step ok s' as) else none

/-- A list of actions that runs and meets the condition reaches its end. -/
theorem Reach.execIf [∀ s a, Decidable (ok s a)] {as : List α} {s' : σ} (h : Reach step ok s₀ s)
    (hrun : Machine.execIf step ok s as = some s') : Reach step ok s₀ s' := by
  induction as generalizing s with
  | nil =>
    cases hrun
    exact h
  | cons a as ih =>
    unfold Machine.execIf at hrun
    split at hrun
    · rename_i hok
      obtain ⟨s₁, hstep, hrest⟩ := Option.bind_eq_some_iff.mp hrun
      exact ih (.next a h hok hstep) hrest
    · cases hrun

/-- Every step of a run meets the condition. -/
def Meets (step : σ → α → Option σ) (ok : σ → α → Prop) (s : σ) : List α → Prop
  | [] => True
  | a :: as =>
    ok s a ∧
      match step s a with
      | none => True
      | some s' => Meets step ok s' as

/-- A run that was made step by step under a condition is a run whose every step meets it. -/
theorem meets_of_execIf [∀ s a, Decidable (ok s a)] {as : List α} {s' : σ} (hrun : Machine.execIf step ok s as = some s') :
    Machine.exec step s as = some s' ∧ Meets step ok s as := by
  induction as generalizing s with
  | nil => exact ⟨hrun, trivial⟩
  | cons a as ih =>
    unfold Machine.execIf at hrun
    split at hrun
    · rename_i hok
      obtain ⟨s₁, hstep, hrest⟩ := Option.bind_eq_some_iff.mp hrun
      obtain ⟨hexec, hmeets⟩ := ih hrest
      simp only [Machine.exec, Meets, hstep]
      exact ⟨hexec, hok, hmeets⟩
    · cases hrun

/-- What no step brings back was there before a run that ends with it. -/
theorem exec_lost {P : σ → Prop} (lost : ∀ s a s', step s a = some s' → P s' → P s) {as : List α} {s' : σ}
    (hrun : Machine.exec step s as = some s') (h : P s') : P s := by
  induction as generalizing s with
  | nil =>
    cases hrun
    exact h
  | cons a as ih =>
    obtain ⟨s₁, hstep, hrest⟩ := Option.bind_eq_some_iff.mp hrun
    exact lost s a s₁ hstep (ih hrest)

/-- Where no step brings `P` back, and after steps that met the condition the next one keeps `P` exactly if it meets it, a run ends with
`P` exactly if every step of it meets the condition. -/
theorem exec_iff_meets {P : σ → Prop} (start : P s₀) (lost : ∀ s a s', step s a = some s' → P s' → P s)
    (keeps : ∀ s a s', Reach step ok s₀ s → P s → step s a = some s' → (P s' ↔ ok s a)) {as : List α}
    (hrun : Machine.exec step s₀ as = some s) : P s ↔ Meets step ok s₀ as := by
  have hall : ∀ as s₁, Reach step ok s₀ s₁ → P s₁ → Machine.exec step s₁ as = some s → (P s ↔ Meets step ok s₁ as) := by
    intro as
    induction as with
    | nil =>
      intro s₁ _ hs₁ hrun
      cases hrun
      exact iff_of_true hs₁ trivial
    | cons a as ih =>
      intro s₁ hreach hs₁ hrun
      obtain ⟨s₂, hstep, hrest⟩ := Option.bind_eq_some_iff.mp hrun
      have hkeeps := keeps s₁ a s₂ hreach hs₁ hstep
      simp only [Meets, hstep]
      constructor
      · intro h
        have hok := hkeeps.mp (exec_lost lost hrest h)
        exact ⟨hok, (ih s₂ (hreach.next a hok hstep) (hkeeps.mpr hok) hrest).mp h⟩
      · intro ⟨hok, hmeets⟩
        exact (ih s₂ (hreach.next a hok hstep) (hkeeps.mpr hok) hrest).mpr hmeets
  exact hall as s₀ .start start hrun

/-- Every state of a run satisfies `P`. -/
def Always (step : σ → α → Option σ) (P : σ → Prop) (s : σ) : List α → Prop
  | [] => P s
  | a :: as =>
    P s ∧
      match step s a with
      | none => True
      | some s' => Always step P s' as

theorem Always.final {P : σ → Prop} {as : List α} {s' : σ} (h : Always step P s as) (hrun : Machine.exec step s as = some s') : P s' := by
  induction as generalizing s with
  | nil =>
    cases hrun
    exact h
  | cons a as ih =>
    obtain ⟨s₁, hstep, hrest⟩ := Option.bind_eq_some_iff.mp hrun
    simp only [Always, hstep] at h
    exact ih h.2 hrest

/-- Where an invariant that gives `P` is kept by the steps that meet the condition, and a step gives `P` only if it meets it, every state
of a run satisfies `P` exactly if every step meets the condition. -/
theorem always_iff_meets {I P : σ → Prop} (holds : ∀ s, I s → P s)
    (keeps : ∀ s a s', I s → step s a = some s' → ok s a → I s') (gives : ∀ s a s', I s → step s a = some s' → P s' → ok s a)
    {as : List α} {s' : σ} (start : I s) (hrun : Machine.exec step s as = some s') : Always step P s as ↔ Meets step ok s as := by
  induction as generalizing s with
  | nil => exact iff_of_true (holds s start) trivial
  | cons a as ih =>
    obtain ⟨s₁, hstep, hrest⟩ := Option.bind_eq_some_iff.mp hrun
    simp only [Always, Meets, hstep, and_iff_right (holds s start)]
    constructor
    · intro h
      have hfirst : P s₁ := by
        cases as with
        | nil => exact h
        | cons b as => exact h.1
      have hok := gives s a s₁ start hstep hfirst
      exact ⟨hok, (ih (keeps s a s₁ start hstep hok) hrest).mp h⟩
    · rintro ⟨hok, h⟩
      exact (ih (keeps s a s₁ start hstep hok) hrest).mpr h

end Machine
