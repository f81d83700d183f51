import Mathlib.Data.List.Basic

/-!
# Two words with a separator between them

`xs ++ sep ++ ys` does not say where the separator is: another pair of words spells the same text exactly if it is `Shifted` against
the pair, with the separator found further on (`separated_eq_iff`).
-/

namespace Separated

variable {α : Type*}

/-- The second pair of words spells what the first one does, with the separator further on. -/
def Shifted (sep xs ys xs' ys' : List α) : Prop := ∃ between, between ≠ [] ∧ xs' = xs ++ between ∧ sep ++ ys = between ++ (sep ++ ys')

theorem Shifted.spells {sep xs ys xs' ys' : List α} (h : Shifted sep xs ys xs' ys') : xs ++ (sep ++ ys) = xs' ++ (sep ++ ys') := by
  obtain ⟨between, -, rfl, hys⟩ := h
  rw [hys, List.append_assoc]

theorem separated_eq_iff {sep xs ys xs' ys' : List α} : xs ++ (sep ++ ys) = xs' ++ (sep ++ ys') ↔
    (xs = xs' ∧ ys = ys') ∨ Shifted sep xs ys xs' ys' ∨ Shifted sep xs' ys' xs ys := by
  constructor
  · intro h
    by_cases hxs : xs = xs'
    · subst hxs
      exact Or.inl ⟨rfl, by simpa using h⟩
    · rcases List.append_eq_append_iff.mp h with ⟨between, hlong, hys⟩ | ⟨between, hlong, hys⟩
      · refine Or.inr (Or.inl ⟨between, ?_, hlong, hys⟩)
        rintro rfl
        exact hxs (by simpa using hlong.symm)
      · refine Or.inr (Or.inr ⟨between, ?_, hlong, hys⟩)
        rintro rfl
        exact hxs (by simpa using hlong)
  · rintro (⟨rfl, rfl⟩ | h | h)
    · rfl
    · exact h.spells
    · exact h.spells.symm

end Separated
