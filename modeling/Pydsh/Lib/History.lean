import Mathlib.Data.List.Basic

/-!
# Histories

A history is what was done, in its order. `Lawful allowed h` says of each thing done that it was allowed after what had been done
before it; such a law is kept by everything that is done next and is allowed (`lawful_concat`).
-/

namespace History

variable {α : Type*} {allowed : List α → α → Prop}

/-- Each thing done was allowed after what had been done before it. -/
def Lawful (allowed : List α → α → Prop) (history : List α) : Prop :=
  ∀ before a after, history = before ++ a :: after → allowed before a

theorem lawful_nil : Lawful allowed [] := by
  intro before a after h
  exact absurd h (by simp)

theorem lawful_concat {history : List α} {a : α} : Lawful allowed (history ++ [a]) ↔ Lawful allowed history ∧ allowed history a := by
  constructor
  · intro h
    refine ⟨?_, h history a [] rfl⟩
    rintro before b after rfl
    exact h before b (after ++ [a]) (by simp)
  · rintro ⟨hbefore, ha⟩ before b after heq
    rcases List.eq_nil_or_concat after with rfl | ⟨after', c, rfl⟩
    · obtain ⟨rfl, hba⟩ := List.append_inj' heq rfl
      cases hba
      exact ha
    · refine hbefore before b after' ?_
      have heq : history ++ [a] = (before ++ b :: after') ++ [c] := by simpa using heq
      exact (List.append_inj' heq rfl).1

end History
