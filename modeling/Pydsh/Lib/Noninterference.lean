import Pydsh.Lib.Machine

/-!
# What a party sees of a run

`concerns s a` says whether action `a`, in state `s`, is a party's business. A relation hides the rest when it is kept by an action that
is not, taken on its left alone, and by an action that is, taken on both sides. Then the left of the relation follows any run and the
right only what the party sees of it (`Hides.replay`), so two runs that the party sees alike end in states that are related to one
(`Hides.meet`): the party cannot tell them apart.
-/

namespace Machine

variable {σ α : Type*}

/-- The actions of a run that are the party's business. -/
def seen (step : σ → α → Option σ) (concerns : σ → α → Bool) (s : σ) : List α → List α
  | [] => []
  | a :: as =>
    match step s a with
    | none => []
    | some s' => if concerns s a then a :: seen step concerns s' as else seen step concerns s' as

/-- The relation hides what is not the party's business. -/
structure Hides (step : σ → α → Option σ) (concerns : σ → α → Bool) (R : σ → σ → Prop) : Prop where
  hidden : ∀ {s t s' a}, R s t → concerns s a = false → step s a = some s' → R s' t
  follows : ∀ {s t s' a}, R s t → concerns s a = true → step s a = some s' → ∃ t', step t a = some t' ∧ R s' t'

namespace Hides

variable {step : σ → α → Option σ} {concerns : σ → α → Bool} {R : σ → σ → Prop}

/-- The right side takes only the actions that the party sees. -/
theorem replay (h : Hides step concerns R) {s t s' : σ} {as : List α} (hst : R s t) (hrun : exec step s as = some s') :
    ∃ t', exec step t (seen step concerns s as) = some t' ∧ R s' t' := by
  induction as generalizing s t with
  | nil =>
    cases hrun
    exact ⟨t, rfl, hst⟩
  | cons a as ih =>
    obtain ⟨s₁, hstep, hrest⟩ := Option.bind_eq_some_iff.mp hrun
    simp only [seen, hstep]
    by_cases hconcerns : concerns s a = true
    · obtain ⟨t₁, hstep', hst₁⟩ := h.follows hst hconcerns hstep
      obtain ⟨t', hrun', hst'⟩ := ih hst₁ hrest
      refine ⟨t', ?_, hst'⟩
      rw [if_pos hconcerns, exec, hstep']
      exact hrun'
    · rw [if_neg hconcerns]
      exact ih (h.hidden hst (by simpa using hconcerns) hstep) hrest

/-- Two runs from one state that the party sees alike. -/
theorem meet (h : Hides step concerns R) {s₀ s t : σ} {as bs : List α} (hrefl : R s₀ s₀) (has : exec step s₀ as = some s)
    (hbs : exec step s₀ bs = some t) (hseen : seen step concerns s₀ as = seen step concerns s₀ bs) : ∃ u, R s u ∧ R t u := by
  obtain ⟨u, hu, hsu⟩ := h.replay hrefl has
  obtain ⟨u', hu', htu⟩ := h.replay hrefl hbs
  rw [hseen] at hu
  cases hu.symm.trans hu'
  exact ⟨u, hsu, htu⟩

end Hides

end Machine
