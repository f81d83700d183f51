import Mathlib.Logic.Basic

/-!
# Code that changes a state and may raise

`Effect σ ε α` is code over a state `σ` that returns an `α` or raises an `ε`; a raise does not undo what was done to the state
before it. `Does R m s r told` says what a run does: from `s` it ends with `r`, in a state that by the relation `R` is `s` with
`told` told. For a relation under which tellings compose (`Telling`), there is one rule for each way of putting code
together, and a run is described by the rules without its states.
-/

/-- Code over a state that returns or raises. -/
def Effect (σ ε α : Type) : Type := σ → Except ε α × σ

namespace Effect

variable {σ ε α β τ : Type}

instance : Monad (Effect σ ε) where
  pure a := fun s => (.ok a, s)
  bind m f := fun s =>
    match m s with
    | (.ok a, s') => f a s'
    | (.error e, s') => (.error e, s')

/-- Code that raises. -/
def raise (e : ε) : Effect σ ε α := fun s => (.error e, s)

/-- Code whose result is known, a value or a raise. -/
def result (r : Except ε α) : Effect σ ε α := fun s => (r, s)

/-- Code that only reads the state. -/
def reads (f : σ → Except ε α) : Effect σ ε α := fun s => (f s, s)

/-- Code that only changes the state. -/
def modifies (f : σ → σ) : Effect σ ε Unit := fun s => (.ok (), f s)

/-- `try`: what the code raises is a value. -/
def attempt (m : Effect σ ε α) : Effect σ ε (Except ε α) := fun s => (.ok (m s).1, (m s).2)

/-- `try ... finally`: the second part runs however the first ends; what it raises wins. -/
def ensure (m : Effect σ ε α) (last : Effect σ ε Unit) : Effect σ ε α := do
  let r ← m.attempt
  last
  result r

theorem bind_assoc {γ : Type} (m : Effect σ ε α) (f : α → Effect σ ε β) (g : β → Effect σ ε γ) :
    ((m >>= f) >>= g) = (m >>= fun a => f a >>= g) := by
  funext s
  simp only [Bind.bind]
  rcases m s with ⟨e | a, s'⟩ <;> rfl

/-! ## What code keeps -/

/-- From a state with the property the code ends in one with it, whether it returns or raises. -/
def Keeps (P : σ → Prop) (m : Effect σ ε α) : Prop := ∀ s, P s → P (m s).2

namespace Keeps

variable {P : σ → Prop}

theorem pure (a : α) : Keeps P (pure a : Effect σ ε α) := fun _ h => h

theorem raise (e : ε) : Keeps P (raise e : Effect σ ε α) := fun _ h => h

theorem bind {m : Effect σ ε β} {f : β → Effect σ ε α} (hm : Keeps P m) (hf : ∀ b, Keeps P (f b)) : Keeps P (m >>= f) := by
  intro s h
  have hleft := hm s h
  simp only [Bind.bind]
  rcases hrun : m s with ⟨e | b, s'⟩
  · rwa [hrun] at hleft
  · rw [hrun] at hleft
    exact hf b s' hleft

theorem result (r : Except ε α) : Keeps P (result r) := fun _ h => h

theorem reads (f : σ → Except ε α) : Keeps P (reads f) := fun _ h => h

theorem modifies {f : σ → σ} (hf : ∀ s, P s → P (f s)) : Keeps P (modifies f : Effect σ ε Unit) := hf

theorem attempt {m : Effect σ ε α} (hm : Keeps P m) : Keeps P m.attempt := hm

theorem ensure {m : Effect σ ε α} {last : Effect σ ε Unit} (hm : Keeps P m) (hlast : Keeps P last) : Keeps P (m.ensure last) :=
  .bind hm.attempt (fun _ => .bind hlast (fun _ => .result _))

end Keeps

/-! ## Tellings -/

/-- A relation between the states before and after and what was told in between, under which tellings compose. -/
structure Telling (R : σ → σ → List τ → Prop) : Prop where
  refl : ∀ s, R s s []
  trans : ∀ {s s₁ s₂ xs ys}, R s s₁ xs → R s₁ s₂ ys → R s s₂ (xs ++ ys)

/-- From the state the code ends with the result, having told the entries. -/
def Does (R : σ → σ → List τ → Prop) (m : Effect σ ε α) (s : σ) (r : Except ε α) (told : List τ) : Prop :=
  ∃ s', m s = (r, s') ∧ R s s' told

namespace Does

variable {R : σ → σ → List τ → Prop} {s : σ} {r : Except ε α} {xs ys : List τ}

/-- What was told is told in the state the code ends in. -/
theorem told {m : Effect σ ε α} (hm : Does R m s r xs) : R s (m s).2 xs := by
  obtain ⟨s', hrun, htold⟩ := hm
  rwa [hrun]

/-- Code that runs from the state as other code does. -/
theorem of_eq {m m' : Effect σ ε α} (heq : m s = m' s) (hm : Does R m' s r xs) : Does R m s r xs := by
  obtain ⟨s', hrun, htold⟩ := hm
  exact ⟨s', heq.trans hrun, htold⟩

theorem pure (h : Telling R) (a : α) : Does R (pure a : Effect σ ε α) s (.ok a) [] := ⟨s, rfl, h.refl s⟩

theorem raise (h : Telling R) (e : ε) : Does R (raise e : Effect σ ε α) s (.error e) [] := ⟨s, rfl, h.refl s⟩

theorem result (h : Telling R) (r : Except ε α) : Does R (result r) s r [] := ⟨s, rfl, h.refl s⟩

theorem reads (h : Telling R) (f : σ → Except ε α) : Does R (reads f) s (f s) [] := ⟨s, rfl, h.refl s⟩

/-- Code after code that returns, from the state that it leaves. -/
theorem bind_at (h : Telling R) {m : Effect σ ε β} {f : β → Effect σ ε α} {b : β} (hm : Does R m s (.ok b) xs)
    (hf : Does R (f b) (m s).2 r ys) : Does R (m >>= f) s r (xs ++ ys) := by
  obtain ⟨s₁, hrun, htold⟩ := hm
  rw [hrun] at hf
  obtain ⟨s₂, hrun', htold'⟩ := hf
  refine ⟨s₂, ?_, h.trans htold htold'⟩
  simp only [Bind.bind, hrun, hrun']

theorem bind (h : Telling R) {m : Effect σ ε β} {f : β → Effect σ ε α} {b : β} (hm : Does R m s (.ok b) xs)
    (hf : ∀ s', R s s' xs → Does R (f b) s' r ys) : Does R (m >>= f) s r (xs ++ ys) :=
  hm.bind_at h (hf (m s).2 hm.told)

/-- Code after code that returns and tells nothing. -/
theorem after (h : Telling R) {m : Effect σ ε β} {f : β → Effect σ ε α} {b : β} (hm : Does R m s (.ok b) [])
    (hf : ∀ s', R s s' [] → Does R (f b) s' r ys) : Does R (m >>= f) s r ys := by
  simpa using hm.bind h hf

/-- What is returned is made of the result. -/
theorem returns (h : Telling R) {m : Effect σ ε β} {f : β → Effect σ ε α} {b : β} {a : α} (hm : Does R m s (.ok b) xs)
    (hf : f b = Pure.pure a) : Does R (m >>= f) s (.ok a) xs := by
  have hreturn : ∀ s', R s s' xs → Does R (f b) s' (.ok a) [] := fun s' _ => hf ▸ Does.pure h a
  simpa using hm.bind h hreturn

theorem raises (h : Telling R) {m : Effect σ ε β} {f : β → Effect σ ε α} {b : β} {e : ε} (hm : Does R m s (.ok b) xs)
    (hf : ∀ s', Does R (f b) s' (.error e) []) : Does R (m >>= f) s (.error e) xs := by
  simpa using hm.bind h (fun s' _ => hf s')

/-- What is told by code after code that returns, however it ends. -/
theorem told_bind (h : Telling R) {m : Effect σ ε β} {f : β → Effect σ ε α} {b : β} (hm : Does R m s (.ok b) xs)
    (hf : ∀ s', R s s' xs → R s' (f b s').2 ys) : R s ((m >>= f) s).2 (xs ++ ys) := by
  obtain ⟨s₁, hrun, htold⟩ := hm
  have hbind : (m >>= f) s = f b s₁ := by simp only [Bind.bind, hrun]
  rw [hbind]
  exact h.trans htold (hf s₁ htold)

/-- Code after code that raises does not run. -/
theorem bind_error {m : Effect σ ε β} {f : β → Effect σ ε α} {e : ε} (hm : Does R m s (.error e) xs) :
    Does R (m >>= f) s (.error e) xs := by
  obtain ⟨s₁, hrun, htold⟩ := hm
  exact ⟨s₁, by simp only [Bind.bind, hrun], htold⟩

/-- Code after a known result that is a value. -/
theorem of_ok {r' : Except ε β} {f : β → Effect σ ε α} {b : β} (hr : r' = .ok b) (hf : Does R (f b) s r ys) :
    Does R (Effect.result r' >>= f) s r ys := by
  subst hr
  exact hf

/-- Code after a change that tells nothing. -/
theorem changed (h : Telling R) {f : σ → σ} {m : Unit → Effect σ ε α} (hf : R s (f s) []) (hm : Does R (m ()) (f s) r ys) :
    Does R (Effect.modifies f >>= m) s r ys := by
  obtain ⟨s₁, hrun, htold⟩ := hm
  exact ⟨s₁, hrun, by simpa using h.trans hf htold⟩

/-- Code after a known result that is a raise does not run. -/
theorem of_error (h : Telling R) {r' : Except ε β} {f : β → Effect σ ε α} {e : ε} (hr : r' = .error e) :
    Does R (Effect.result r' >>= f) s (.error e) [] := by
  subst hr
  exact .bind_error (.result h _)

theorem attempt {m : Effect σ ε α} (hm : Does R m s r xs) : Does R m.attempt s (.ok r) xs := by
  obtain ⟨s₁, hrun, htold⟩ := hm
  exact ⟨s₁, by simp only [Effect.attempt, hrun], htold⟩

/-- The last part runs, returns, and the result is that of the first. -/
theorem ensure (h : Telling R) {m : Effect σ ε α} {last : Effect σ ε Unit} (hm : Does R m s r xs)
    (hlast : ∀ s', R s s' xs → Does R last s' (.ok ()) ys) : Does R (m.ensure last) s r (xs ++ ys) := by
  refine .bind h hm.attempt (fun s' htold => ?_)
  have hagain : Does R (last >>= fun _ => Effect.result r) s' r (ys ++ []) :=
    .bind h (hlast s' htold) (fun s'' _ => .result h r)
  simpa using hagain

end Does

/-- A raise at the end leaves the state as it is. -/
theorem state_raise_after (m : Effect σ ε β) (e : ε) (s : σ) : ((m >>= fun _ => raise e : Effect σ ε α) s).2 = (m s).2 := by
  simp only [Bind.bind, raise]
  split
  · rename_i h
    rw [h]
  · rename_i h
    rw [h]

/-- What is returned at the end leaves the state as it is. -/
theorem state_return_after (m : Effect σ ε β) (f : β → α) (s : σ) : ((m >>= fun b => pure (f b) : Effect σ ε α) s).2 = (m s).2 := by
  simp only [Bind.bind]
  split
  · rename_i h
    rw [h]
    rfl
  · rename_i h
    rw [h]

end Effect
