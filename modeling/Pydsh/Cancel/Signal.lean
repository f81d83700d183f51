import Mathlib.Data.List.Basic
import Mathlib.Logic.Function.Basic
import Pydsh.Python.Value

/-!
# Cancel signals

`cancel.py`: signals that are aborted once, their listeners, and signals fused from others. The listeners of an aborted signal are run
one by one, off a copy of the list, and what they do comes in between: so `abort` here marks the signal and hands out the copy, and who
runs it is the business of the machine that uses the signals.
-/

namespace Pydsh

/-- What a listener calls: some code, or the abort of a fused signal. -/
inductive Callback where
  | code (code : Nat)
  | fused (signal : Nat)
  deriving DecidableEq

/-- A listener, with the number it was added under. -/
structure Listener where
  index : Nat
  callback : Callback
  deriving DecidableEq

/-- Whether a listener aborts a signal. -/
def Listener.Targets (l : Listener) (signal : Nat) : Prop := l.callback = .fused signal

instance (l : Listener) (signal : Nat) : Decidable (l.Targets signal) := inferInstanceAs (Decidable (_ = _))

/-- A signal. `causes` and `ran` are no fields of the class: the reasons that came to it, from itself or from a source it was attached
to when the source was aborted, in their order; and the listeners that were run. -/
structure CancelSignal where
  aborted : Bool := false
  reason : PyValue := .none
  listeners : List Listener := []
  detachers : List (Nat × Listener) := []
  added : Nat := 0
  causes : List PyValue := []
  ran : List Nat := []

/-- The signals there are, by number. -/
structure Signals where
  at_ : Nat → CancelSignal := fun _ => {}
  fresh : Nat := 0

/-- `self._aborted = True` and `self._reason = reason`, unless it is aborted. -/
def CancelSignal.mark (signal : CancelSignal) (reason : PyValue) : CancelSignal :=
  if signal.aborted then signal else { signal with aborted := true, reason }

/-- A reason comes to the signal. -/
def CancelSignal.reached (signal : CancelSignal) (reasons : List PyValue) : CancelSignal :=
  { signal with causes := signal.causes ++ reasons }

/-- `self._listeners.append(callback)`. -/
def CancelSignal.listen (signal : CancelSignal) (callback : Callback) : CancelSignal :=
  { signal with
    listeners := signal.listeners ++ [⟨signal.added, callback⟩]
    added := signal.added + 1 }

/-- The listener is run. -/
def CancelSignal.run (signal : CancelSignal) (listener : Listener) : CancelSignal := { signal with ran := signal.ran ++ [listener.index] }

/-- How often a list of listeners aborts a signal. -/
def aborts (listeners : List Listener) (signal : Nat) : Nat := listeners.countP (fun l => decide (l.Targets signal))

namespace Signals

/-- One signal changed. -/
def modify (g : Signals) (s : Nat) (f : CancelSignal → CancelSignal) : Signals :=
  { g with at_ := Function.update g.at_ s (f (g.at_ s)) }

/-- `CancelSignal()`. -/
def create (g : Signals) : Signals := { g with fresh := g.fresh + 1 }

/-- The reason comes to every signal attached to a source, once for each listener. -/
def reach (g : Signals) (source : Nat) (reason : PyValue) : Signals :=
  { g with at_ := fun s => (g.at_ s).reached (List.replicate (aborts (g.at_ source).listeners s) reason) }

/-- `abort` of a signal that is not aborted, up to its loop. -/
def fire (g : Signals) (s : Nat) (reason : PyValue) : Signals := (g.reach s reason).modify s (fun signal => signal.mark reason)

/-- `detach()` of a listener that code added: the first one that calls the same. -/
def detach (g : Signals) (s code : Nat) : Signals :=
  g.modify s (fun signal => { signal with listeners := signal.listeners.eraseP (fun l => decide (l.callback = .code code)) })

/-- One source of `any`. -/
def attach (fused : Nat) (g : Signals) : Option Nat → Signals
  | none => g
  | some source =>
    if (g.at_ source).aborted then
      g.modify fused (fun signal => (signal.reached [(g.at_ source).reason]).mark (g.at_ source).reason)
    else
      let listener : Listener := ⟨(g.at_ source).added, .fused fused⟩
      (g.modify source (fun signal => signal.listen (.fused fused))).modify fused
        (fun signal => { signal with detachers := signal.detachers ++ [(source, listener)] })

/-- `CancelSignal.any`; the fused signal is the one that was fresh. -/
def any (g : Signals) (sources : List (Option Nat)) : Signals := sources.foldl (attach g.fresh) g.create

/-- `dispose`. -/
def dispose (g : Signals) (s : Nat) : Signals :=
  ((g.at_ s).detachers.foldl
    (fun g entry => g.modify entry.1 (fun signal => { signal with listeners := signal.listeners.erase entry.2 })) g).modify s
    (fun signal => { signal with detachers := [] })

variable (g : Signals) (s s' : Nat)

@[simp] theorem modify_fresh (f : CancelSignal → CancelSignal) : (g.modify s f).fresh = g.fresh := rfl

@[simp] theorem modify_self (f : CancelSignal → CancelSignal) : (g.modify s f).at_ s = f (g.at_ s) := by simp [modify]

theorem modify_of_ne (f : CancelSignal → CancelSignal) (h : s' ≠ s) : (g.modify s f).at_ s' = g.at_ s' := by
  simp [modify, Function.update_of_ne h]

/-! ## Numbers -/

/-- The signals are in order: there are none from `fresh` on, listeners are numbered as they were added, what a listener aborts was made
after the signal it is on, and listeners run in their order, once the signal is aborted. -/
structure Ordered (g : Signals) : Prop where
  born : ∀ s, g.fresh ≤ s → g.at_ s = {}
  numbered : ∀ s, (g.at_ s).listeners.Pairwise (fun l m => l.index < m.index)
  bounded : ∀ s, ∀ l ∈ (g.at_ s).listeners, l.index < (g.at_ s).added
  targets : ∀ s, ∀ l ∈ (g.at_ s).listeners, ∀ fused, l.Targets fused → s < fused ∧ fused < g.fresh
  ran : ∀ s, (g.at_ s).ran.Pairwise (· < ·)
  unran : ∀ s, (g.at_ s).aborted = false → (g.at_ s).ran = []

theorem Ordered.start : Ordered { fresh := 1 } where
  born _ _ := rfl
  numbered _ := .nil
  bounded _ l h := by cases h
  targets _ l h := by cases h
  ran _ := .nil
  unran _ _ := rfl

variable {g s}

theorem Ordered.modify (h : g.Ordered) {f : CancelSignal → CancelSignal} (hborn : g.fresh ≤ s → f (g.at_ s) = {})
    (hnumbered : (f (g.at_ s)).listeners.Pairwise (fun l m => l.index < m.index))
    (hbounded : ∀ l ∈ (f (g.at_ s)).listeners, l.index < (f (g.at_ s)).added)
    (htargets : ∀ l ∈ (f (g.at_ s)).listeners, ∀ fused, l.Targets fused → s < fused ∧ fused < g.fresh)
    (hran : (f (g.at_ s)).ran.Pairwise (· < ·))
    (hunran : (f (g.at_ s)).aborted = false → (f (g.at_ s)).ran = []) : (g.modify s f).Ordered where
  born s' hs' := by
    by_cases heq : s' = s
    · rw [heq, modify_self]
      exact hborn (heq ▸ hs')
    · rw [modify_of_ne _ _ _ _ heq]
      exact h.born s' hs'
  numbered s' := by
    by_cases hs' : s' = s
    · rwa [hs', modify_self]
    · rw [modify_of_ne _ _ _ _ hs']
      exact h.numbered s'
  bounded s' := by
    by_cases hs' : s' = s
    · rwa [hs', modify_self]
    · rw [modify_of_ne _ _ _ _ hs']
      exact h.bounded s'
  targets s' := by
    by_cases hs' : s' = s
    · rwa [hs', modify_self]
    · rw [modify_of_ne _ _ _ _ hs']
      exact h.targets s'
  ran s' := by
    by_cases hs' : s' = s
    · rwa [hs', modify_self]
    · rw [modify_of_ne _ _ _ _ hs']
      exact h.ran s'
  unran s' := by
    by_cases hs' : s' = s
    · rwa [hs', modify_self]
    · rw [modify_of_ne _ _ _ _ hs']
      exact h.unran s'

theorem Ordered.create (h : g.Ordered) : g.create.Ordered where
  born s hs := h.born s (Nat.le_of_succ_le hs)
  numbered := h.numbered
  bounded := h.bounded
  targets s l hl fused hfused := ⟨(h.targets s l hl fused hfused).1, Nat.lt_succ_of_lt (h.targets s l hl fused hfused).2⟩
  ran := h.ran
  unran := h.unran

theorem Ordered.listen (h : g.Ordered) (hs : s < g.fresh) {callback : Callback}
    (htarget : ∀ fused, callback = .fused fused → s < fused ∧ fused < g.fresh) :
    (g.modify s (fun signal => signal.listen callback)).Ordered := by
  refine h.modify (fun hfresh => absurd hs (Nat.not_lt.mpr hfresh)) ?_ ?_ ?_ (h.ran s) (h.unran s)
  · rw [CancelSignal.listen, List.pairwise_append]
    refine ⟨h.numbered s, List.pairwise_singleton _ _, fun l hl m hm => ?_⟩
    rw [List.mem_singleton.mp hm]
    exact h.bounded s l hl
  · intro l hl
    rcases List.mem_append.mp hl with hl | hl
    · exact Nat.lt_succ_of_lt (h.bounded s l hl)
    · rw [List.mem_singleton.mp hl]
      exact Nat.lt_succ_self _
  · intro l hl fused hfused
    rcases List.mem_append.mp hl with hl | hl
    · exact h.targets s l hl fused hfused
    · rw [List.mem_singleton.mp hl] at hfused
      exact htarget fused hfused

theorem Ordered.shrink (h : g.Ordered) {f : CancelSignal → CancelSignal} (hborn : f {} = {})
    (hsub : (f (g.at_ s)).listeners.Sublist (g.at_ s).listeners) (hadded : (f (g.at_ s)).added = (g.at_ s).added)
    (hran : (f (g.at_ s)).ran = (g.at_ s).ran) (haborted : (f (g.at_ s)).aborted = (g.at_ s).aborted) :
    (g.modify s f).Ordered := by
  refine h.modify (fun hfresh => by rw [h.born s hfresh, hborn]) ((h.numbered s).sublist hsub) ?_ ?_ (hran ▸ h.ran s) ?_
  · intro l hl
    rw [hadded]
    exact h.bounded s l (hsub.subset hl)
  · exact fun l hl => h.targets s l (hsub.subset hl)
  · rw [hran, haborted]
    exact h.unran s

theorem aborts_eq_zero {listeners : List Listener} {fused : Nat} (h : ∀ l ∈ listeners, ¬l.Targets fused) : aborts listeners fused = 0 := by
  rw [aborts, List.countP_eq_zero]
  simpa using h

theorem Ordered.reach (h : g.Ordered) (source : Nat) (reason : PyValue) : (g.reach source reason).Ordered where
  born s' hs' := by
    have hnone : aborts (g.at_ source).listeners s' = 0 :=
      aborts_eq_zero (fun l hl htarget => absurd (h.targets source l hl s' htarget).2 (Nat.not_lt.mpr hs'))
    simp [Signals.reach, CancelSignal.reached, hnone, h.born s' hs']
  numbered := h.numbered
  bounded := h.bounded
  targets := h.targets
  ran := h.ran
  unran := h.unran

theorem Ordered.mark (h : g.Ordered) (hs : s < g.fresh) (reason : PyValue) (reasons : List PyValue) :
    (g.modify s (fun signal => (signal.reached reasons).mark reason)).Ordered := by
  have hkept : ∀ signal : CancelSignal, (signal.mark reason).listeners = signal.listeners ∧ (signal.mark reason).added = signal.added ∧
      (signal.mark reason).ran = signal.ran ∧ (signal.mark reason).aborted = true := by
    intro signal
    unfold CancelSignal.mark
    split <;> simp [*]
  obtain ⟨hlisteners, hadded, hran, haborted⟩ := hkept ((g.at_ s).reached reasons)
  refine h.modify (fun hfresh => absurd hs (Nat.not_lt.mpr hfresh)) ?_ ?_ ?_ ?_ ?_
  · rw [hlisteners]
    exact h.numbered s
  · rw [hlisteners, hadded]
    exact h.bounded s
  · rw [hlisteners]
    exact h.targets s
  · rw [hran]
    exact h.ran s
  · rw [haborted]
    exact fun hlive => by cases hlive

theorem reached_kept (reasons : List PyValue) (s' : Nat) :
    ((g.modify s (fun signal => signal.reached reasons)).at_ s').aborted = (g.at_ s').aborted ∧
      ((g.modify s (fun signal => signal.reached reasons)).at_ s').reason = (g.at_ s').reason ∧
      ((g.modify s (fun signal => signal.reached reasons)).at_ s').listeners = (g.at_ s').listeners ∧
      ((g.modify s (fun signal => signal.reached reasons)).at_ s').ran = (g.at_ s').ran := by
  by_cases hs : s' = s
  · rw [hs, modify_self]
    exact ⟨rfl, rfl, rfl, rfl⟩
  · rw [modify_of_ne _ _ _ _ hs]
    exact ⟨rfl, rfl, rfl, rfl⟩

theorem run_kept (listener : Listener) (s' : Nat) :
    ((g.modify s (fun signal => signal.run listener)).at_ s').aborted = (g.at_ s').aborted ∧
      ((g.modify s (fun signal => signal.run listener)).at_ s').reason = (g.at_ s').reason ∧
      ((g.modify s (fun signal => signal.run listener)).at_ s').causes = (g.at_ s').causes ∧
      ((g.modify s (fun signal => signal.run listener)).at_ s').listeners = (g.at_ s').listeners := by
  by_cases hs : s' = s
  · rw [hs, modify_self]
    exact ⟨rfl, rfl, rfl, rfl⟩
  · rw [modify_of_ne _ _ _ _ hs]
    exact ⟨rfl, rfl, rfl, rfl⟩

/-- A signal that is aborted is marked, and the reason is on its way to each signal it has a listener for. -/
theorem Ordered.fire_self (h : g.Ordered) (hlive : (g.at_ s).aborted = false) (reason : PyValue) :
    (g.fire s reason).at_ s = { g.at_ s with aborted := true, reason } := by
  have hnone : aborts (g.at_ s).listeners s = 0 :=
    aborts_eq_zero (fun l hl htarget => absurd (h.targets s l hl s htarget).1 (Nat.lt_irrefl s))
  simp [fire, Signals.reach, CancelSignal.reached, hnone, CancelSignal.mark, hlive]

theorem fire_other (reason : PyValue) (h : s' ≠ s) :
    (g.fire s reason).at_ s' = (g.at_ s').reached (List.replicate (aborts (g.at_ s).listeners s') reason) := by
  rw [fire, modify_of_ne _ _ _ _ h]
  rfl

theorem Ordered.fire (h : g.Ordered) (hs : s < g.fresh) (reason : PyValue) : (g.fire s reason).Ordered := by
  have hmark := (h.reach s reason).mark hs reason []
  simpa [Signals.fire, CancelSignal.reached] using hmark

/-! ## Changes that abort nothing -/

/-- Of the signals there were none was aborted, by no reason came to them, and no listener was added that aborts one of them; a new
signal is as it is to be: aborted for the first reason that came to it, if one did. -/
structure Quiet (g g' : Signals) : Prop where
  fresh : g.fresh ≤ g'.fresh
  kept : ∀ s, s < g.fresh → (g'.at_ s).aborted = (g.at_ s).aborted ∧ (g'.at_ s).reason = (g.at_ s).reason ∧
    (g'.at_ s).causes = (g.at_ s).causes ∧ (g'.at_ s).ran = (g.at_ s).ran
  listeners : ∀ s, ∀ l ∈ (g'.at_ s).listeners, l ∈ (g.at_ s).listeners ∨ ∀ fused, l.Targets fused → g.fresh ≤ fused
  caused : ∀ s, g.fresh ≤ s → (g'.at_ s).aborted = true → (g'.at_ s).causes.head? = some (g'.at_ s).reason
  uncaused : ∀ s, g.fresh ≤ s → (g'.at_ s).aborted = false → (g'.at_ s).causes = []

theorem Quiet.trans {g g' g'' : Signals} (h : g.Quiet g') (h' : g'.Quiet g'') : g.Quiet g'' where
  fresh := Nat.le_trans h.fresh h'.fresh
  kept s hs := by
    obtain ⟨haborted, hreason, hcauses, hran⟩ := h.kept s hs
    obtain ⟨haborted', hreason', hcauses', hran'⟩ := h'.kept s (Nat.lt_of_lt_of_le hs h.fresh)
    exact ⟨haborted'.trans haborted, hreason'.trans hreason, hcauses'.trans hcauses, hran'.trans hran⟩
  listeners s l hl := by
    rcases h'.listeners s l hl with hl | hnew
    · exact h.listeners s l hl
    · exact Or.inr (fun fused hfused => Nat.le_trans h.fresh (hnew fused hfused))
  caused s hs haborted := by
    by_cases hold : s < g'.fresh
    · obtain ⟨haborted', hreason', hcauses', -⟩ := h'.kept s hold
      rw [hcauses', hreason']
      exact h.caused s hs (haborted' ▸ haborted)
    · exact h'.caused s (Nat.le_of_not_lt hold) haborted
  uncaused s hs hlive := by
    by_cases hold : s < g'.fresh
    · obtain ⟨haborted', -, hcauses', -⟩ := h'.kept s hold
      rw [hcauses']
      exact h.uncaused s hs (haborted' ▸ hlive)
    · exact h'.uncaused s (Nat.le_of_not_lt hold) hlive

/-- A change of what is not told of, and of the listeners, to a part of them or by a callback of code. -/
theorem Ordered.quiet_modify (h : g.Ordered) {f : CancelSignal → CancelSignal}
    (hsame : (f (g.at_ s)).aborted = (g.at_ s).aborted ∧ (f (g.at_ s)).reason = (g.at_ s).reason ∧
      (f (g.at_ s)).causes = (g.at_ s).causes ∧ (f (g.at_ s)).ran = (g.at_ s).ran)
    (hlisteners : ∀ l ∈ (f (g.at_ s)).listeners, l ∈ (g.at_ s).listeners ∨ ∀ fused, l.Targets fused → g.fresh ≤ fused) :
    g.Quiet (g.modify s f) := by
  have hkept : ∀ s', ((g.modify s f).at_ s').aborted = (g.at_ s').aborted ∧ ((g.modify s f).at_ s').reason = (g.at_ s').reason ∧
      ((g.modify s f).at_ s').causes = (g.at_ s').causes ∧ ((g.modify s f).at_ s').ran = (g.at_ s').ran := by
    intro s'
    by_cases hs' : s' = s
    · rw [hs', modify_self]
      exact hsame
    · rw [modify_of_ne _ _ _ _ hs']
      exact ⟨rfl, rfl, rfl, rfl⟩
  refine ⟨Nat.le_refl _, fun s' _ => hkept s', fun s' l hl => ?_, fun s' hs' haborted => ?_, fun s' hs' _ => ?_⟩
  · by_cases hs' : s' = s
    · subst hs'
      rw [modify_self] at hl
      exact hlisteners l hl
    · rw [modify_of_ne _ _ _ _ hs'] at hl
      exact Or.inl hl
  · rw [(hkept s').1, h.born s' hs'] at haborted
    cases haborted
  · rw [(hkept s').2.2.1, h.born s' hs']

theorem Ordered.quiet_refl (h : g.Ordered) : g.Quiet g where
  fresh := Nat.le_refl _
  kept _ _ := ⟨rfl, rfl, rfl, rfl⟩
  listeners _ _ hl := Or.inl hl
  caused s hs haborted := by
    rw [h.born s hs] at haborted
    cases haborted
  uncaused s hs _ := by rw [h.born s hs]

theorem Ordered.quiet_create (h : g.Ordered) : g.Quiet g.create where
  fresh := Nat.le_succ _
  kept _ _ := ⟨rfl, rfl, rfl, rfl⟩
  listeners _ _ hl := Or.inl hl
  caused := h.quiet_refl.caused
  uncaused := h.quiet_refl.uncaused

/-- What adds a listener of code, takes listeners away or forgets detachers. -/
structure Tidy (g g' : Signals) : Prop where
  ordered : g'.Ordered
  quiet : g.Quiet g'

theorem Ordered.tidy_listen (h : g.Ordered) (hs : s < g.fresh) (code : Nat) :
    g.Tidy (g.modify s (fun signal => signal.listen (.code code))) where
  ordered := h.listen hs (fun fused hfused => by cases hfused)
  quiet := by
    refine h.quiet_modify ⟨rfl, rfl, rfl, rfl⟩ (fun l hl => ?_)
    rcases List.mem_append.mp hl with hl | hl
    · exact Or.inl hl
    · rw [List.mem_singleton.mp hl]
      exact Or.inr (fun fused hfused => by cases hfused)

theorem Ordered.tidy_shrink (h : g.Ordered) (f : CancelSignal → CancelSignal) (hborn : f {} = {})
    (hsub : (f (g.at_ s)).listeners.Sublist (g.at_ s).listeners)
    (hsame : (f (g.at_ s)).aborted = (g.at_ s).aborted ∧ (f (g.at_ s)).reason = (g.at_ s).reason ∧
      (f (g.at_ s)).causes = (g.at_ s).causes ∧ (f (g.at_ s)).ran = (g.at_ s).ran)
    (hadded : (f (g.at_ s)).added = (g.at_ s).added) : g.Tidy (g.modify s f) where
  ordered := h.shrink hborn hsub hadded hsame.2.2.2 hsame.1
  quiet := h.quiet_modify hsame (fun _ hl => Or.inl (hsub.subset hl))

theorem Ordered.tidy_detach (h : g.Ordered) (s code : Nat) : g.Tidy (g.detach s code) :=
  h.tidy_shrink _ rfl (List.eraseP_sublist) ⟨rfl, rfl, rfl, rfl⟩ rfl

theorem Ordered.tidy_dispose (h : g.Ordered) (s : Nat) : g.Tidy (g.dispose s) := by
  have hloop : ∀ (detachers : List (Nat × Listener)) (g : Signals), g.Ordered → g.Tidy (detachers.foldl
      (fun g entry => g.modify entry.1 (fun signal => { signal with listeners := signal.listeners.erase entry.2 })) g) := by
    intro detachers
    induction detachers with
    | nil => exact fun g hg => ⟨hg, hg.quiet_refl⟩
    | cons entry detachers ih =>
      intro g hg
      have hfirst : g.Tidy (g.modify entry.1 (fun signal => { signal with listeners := signal.listeners.erase entry.2 })) :=
        hg.tidy_shrink _ rfl List.erase_sublist ⟨rfl, rfl, rfl, rfl⟩ rfl
      have hrest := ih _ hfirst.ordered
      exact ⟨hrest.ordered, hfirst.quiet.trans hrest.quiet⟩
  have hdetached := hloop (g.at_ s).detachers g h
  have hlast := hdetached.ordered.tidy_shrink (s := s) (fun signal => { signal with detachers := [] }) rfl (List.Sublist.refl _)
    ⟨rfl, rfl, rfl, rfl⟩ rfl
  exact ⟨hlast.ordered, hdetached.quiet.trans hlast.quiet⟩

/-! ## Fusing -/

/-- A signal being fused: no other signal was changed but by the listeners that abort it. -/
structure Fusing (g₀ g : Signals) : Prop where
  ordered : g.Ordered
  fresh : g.fresh = g₀.fresh + 1
  kept : ∀ s, s < g₀.fresh → (g.at_ s).aborted = (g₀.at_ s).aborted ∧ (g.at_ s).reason = (g₀.at_ s).reason ∧
    (g.at_ s).causes = (g₀.at_ s).causes ∧ (g.at_ s).ran = (g₀.at_ s).ran
  listeners : ∀ s, ∀ l ∈ (g.at_ s).listeners, l ∈ (g₀.at_ s).listeners ∨ l.callback = .fused g₀.fresh
  caused : (g.at_ g₀.fresh).aborted = true → (g.at_ g₀.fresh).causes.head? = some (g.at_ g₀.fresh).reason
  uncaused : (g.at_ g₀.fresh).aborted = false → (g.at_ g₀.fresh).causes = []

theorem Fusing.start {g₀ : Signals} (h : g₀.Ordered) : Fusing g₀ g₀.create where
  ordered := h.create
  fresh := rfl
  kept _ _ := ⟨rfl, rfl, rfl, rfl⟩
  listeners _ _ hl := Or.inl hl
  caused haborted := by
    have hnew : g₀.create.at_ g₀.fresh = {} := h.born _ (Nat.le_refl _)
    rw [hnew] at haborted
    cases haborted
  uncaused _ := by
    have hnew : g₀.create.at_ g₀.fresh = {} := h.born _ (Nat.le_refl _)
    rw [hnew]

theorem Fusing.attach {g₀ g : Signals} (h : Fusing g₀ g) {source : Option Nat} (hsource : ∀ s ∈ source, s < g₀.fresh) :
    Fusing g₀ (attach g₀.fresh g source) := by
  have hfresh : g₀.fresh < g.fresh := by rw [h.fresh]; exact Nat.lt_succ_self _
  cases source with
  | none => exact h
  | some source =>
    have hlt : source < g₀.fresh := hsource source rfl
    have hne : ∀ s, s < g₀.fresh → s ≠ g₀.fresh := fun s hs => Nat.ne_of_lt hs
    unfold Signals.attach
    dsimp only
    by_cases haborted : (g.at_ source).aborted = true
    · rw [if_pos haborted]
      refine ⟨h.ordered.mark hfresh _ _, h.fresh, fun s hs => ?_, fun s l hl => ?_, fun _ => ?_, fun hlive => ?_⟩
      · rw [modify_of_ne _ _ _ _ (hne s hs)]
        exact h.kept s hs
      · by_cases hs : s = g₀.fresh
        · subst hs
          rw [modify_self] at hl
          refine h.listeners _ l ?_
          unfold CancelSignal.mark at hl
          split at hl <;> exact hl
        · rw [modify_of_ne _ _ _ _ hs] at hl
          exact h.listeners s l hl
      · rw [modify_self]
        unfold CancelSignal.mark
        cases hold : (g.at_ g₀.fresh).aborted with
        | true =>
          simp [CancelSignal.reached, hold, List.head?_append, h.caused hold]
        | false => simp [CancelSignal.reached, hold, h.uncaused hold]
      · rw [modify_self] at hlive
        unfold CancelSignal.mark at hlive
        split at hlive
        next hmarked =>
          rw [hmarked] at hlive
          cases hlive
        next => cases hlive
    · rw [if_neg haborted]
      have hlisten : (g.modify source (fun signal => signal.listen (.fused g₀.fresh))).Ordered :=
        h.ordered.listen (Nat.lt_trans hlt hfresh) (fun fused hfused => by cases hfused; exact ⟨hlt, hfresh⟩)
      refine ⟨hlisten.modify (fun hle => absurd hfresh (Nat.not_lt.mpr hle)) (hlisten.numbered _) (hlisten.bounded _)
        (hlisten.targets _) (hlisten.ran _) (hlisten.unran _), h.fresh, fun s hs => ?_, fun s l hl => ?_, ?_, ?_⟩
      · rw [modify_of_ne _ _ _ _ (hne s hs)]
        by_cases heq : s = source
        · rw [heq, modify_self]
          exact h.kept source hlt
        · rw [modify_of_ne _ _ _ _ heq]
          exact h.kept s hs
      · by_cases hs : s = g₀.fresh
        · subst hs
          rw [modify_self, modify_of_ne _ _ _ _ (Ne.symm (hne source hlt))] at hl
          exact h.listeners _ l hl
        · rw [modify_of_ne _ _ _ _ hs] at hl
          by_cases heq : s = source
          · subst heq
            rw [modify_self] at hl
            rcases List.mem_append.mp hl with hl | hl
            · exact h.listeners _ l hl
            · rw [List.mem_singleton.mp hl]
              exact Or.inr rfl
          · rw [modify_of_ne _ _ _ _ heq] at hl
            exact h.listeners s l hl
      · rw [modify_self, modify_of_ne _ _ _ _ (Ne.symm (hne source hlt))]
        exact h.caused
      · rw [modify_self, modify_of_ne _ _ _ _ (Ne.symm (hne source hlt))]
        exact h.uncaused

theorem Ordered.tidy_any (h : g.Ordered) {sources : List (Option Nat)} (hsources : ∀ source ∈ sources, ∀ s ∈ source, s < g.fresh) :
    g.Tidy (g.any sources) ∧ (g.any sources).fresh = g.fresh + 1 := by
  have hloop : ∀ (sources : List (Option Nat)) (g' : Signals), (∀ source ∈ sources, ∀ s ∈ source, s < g.fresh) → Fusing g g' →
      Fusing g (sources.foldl (Signals.attach g.fresh) g') := by
    intro sources
    induction sources with
    | nil => exact fun _ _ hg' => hg'
    | cons source sources ih =>
      exact fun g' hsources hg' => ih _ (fun other hother => hsources other (List.mem_cons_of_mem source hother))
        (hg'.attach (hsources source List.mem_cons_self))
  have hfused := hloop sources g.create hsources (.start h)
  refine ⟨⟨hfused.ordered, ⟨by rw [any, hfused.fresh]; exact Nat.le_succ _, hfused.kept, fun s l hl => ?_, ?_, ?_⟩⟩, hfused.fresh⟩
  · rcases hfused.listeners s l hl with hold | hnew
    · exact Or.inl hold
    · refine Or.inr (fun fused htarget => ?_)
      rw [Listener.Targets, hnew] at htarget
      cases htarget
      exact Nat.le_refl _
  · intro s hs haborted
    rcases Nat.eq_or_lt_of_le hs with rfl | hlt
    · exact hfused.caused haborted
    · have hborn : (g.any sources).at_ s = {} := hfused.ordered.born s (by rw [hfused.fresh]; exact hlt)
      rw [hborn] at haborted
      cases haborted
  · intro s hs hlive
    rcases Nat.eq_or_lt_of_le hs with rfl | hlt
    · exact hfused.uncaused hlive
    · have hborn : (g.any sources).at_ s = {} := hfused.ordered.born s (by rw [hfused.fresh]; exact hlt)
      rw [hborn]

end Signals

end Pydsh
