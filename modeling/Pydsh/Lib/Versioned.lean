import Mathlib.Data.List.Basic

/-!
# Compare and swap

The changes made to one slot by writers who say which version they replace. A change is accepted where the version given is the one of
what the slot holds, no version standing for an empty slot, and what it leaves has a version that nothing had before. Then each change
replaces what its writer had seen, and of the writers that hold one version one changes the slot at most (`Swaps.once`).
-/

/-- An accepted change: the version given, what the slot held, and what it holds then. -/
structure Swap (ε ν : Type*) where
  given : Option ν
  before : Option ε
  after : Option ε

variable {ε ν : Type*} {version : ε → ν}

/-- What is left has a version that nothing had before. -/
def Swap.Fresh (version : ε → ν) (swap : Swap ε ν) (swaps : List (Swap ε ν)) : Prop :=
  ∀ e ∈ swap.after, ∀ old ∈ swaps ++ [swap], ∀ e' ∈ old.before, version e' ≠ version e

/-- The changes of a slot from what it held at first to what it holds now. -/
inductive Swaps (version : ε → ν) (start : Option ε) : List (Swap ε ν) → Option ε → Prop where
  | nil : Swaps version start [] start
  | snoc {swaps : List (Swap ε ν)} {swap : Swap ε ν} : Swaps version start swaps swap.before → swap.given = swap.before.map version →
      swap.Fresh version swaps → Swaps version start (swaps ++ [swap]) swap.after

namespace Swaps

variable {start now : Option ε} {swaps : List (Swap ε ν)}

/-- What the slot holds has none of the versions that were replaced. -/
theorem replaced (h : Swaps version start swaps now) : ∀ old ∈ swaps, ∀ e ∈ old.before, ∀ e' ∈ now, version e ≠ version e' := by
  cases h with
  | nil => exact fun old hold => by cases hold
  | snoc hswaps hgiven hfresh => exact fun old hold e he e' he' => hfresh e' he' old hold e he

/-- Every change was given the version of what it replaced; without one the slot was empty. -/
theorem seen (h : Swaps version start swaps now) : ∀ swap ∈ swaps, swap.given = swap.before.map version := by
  induction h with
  | nil => exact fun swap hswap => by cases hswap
  | snoc _ hgiven _ ih =>
    intro swap hswap
    rcases List.mem_append.mp hswap with hold | hnew
    · exact ih swap hold
    · rw [List.mem_singleton.mp hnew]
      exact hgiven

/-- No two changes were given the same version. -/
theorem once (h : Swaps version start swaps now) : swaps.Pairwise (fun swap swap' => ∀ v, swap.given = some v → swap'.given ≠ some v) := by
  induction h with
  | nil => exact .nil
  | @snoc swaps last hswaps hgiven _ ih =>
    rw [List.pairwise_append]
    refine ⟨ih, List.pairwise_singleton _ _, fun swap hswap swap' hswap' v hv hv' => ?_⟩
    rw [List.mem_singleton.mp hswap', hgiven] at hv'
    rw [hswaps.seen swap hswap] at hv
    obtain ⟨e, he, rfl⟩ := Option.map_eq_some_iff.mp hv
    obtain ⟨e', he', heq⟩ := Option.map_eq_some_iff.mp hv'
    exact hswaps.replaced swap hswap e he e' he' heq.symm

/-- What the slot holds was left by the last change. -/
theorem left (h : Swaps version start swaps now) : now = (swaps.getLast?.map Swap.after).getD start := by
  cases h with
  | nil => rfl
  | snoc _ _ _ => simp

/-- Every change replaces what the change before it left. -/
theorem linked (h : Swaps version start swaps now) {i : Nat} {swap swap' : Swap ε ν} (hi : swaps[i]? = some swap)
    (hi' : swaps[i + 1]? = some swap') : swap'.before = swap.after := by
  induction h with
  | nil => simp at hi
  | @snoc swaps last hswaps _ _ ih =>
    rcases Nat.lt_trichotomy (i + 1) swaps.length with hlt | heq | hgt
    · rw [List.getElem?_append_left hlt] at hi'
      rw [List.getElem?_append_left (Nat.lt_of_succ_lt hlt)] at hi
      exact ih hi hi'
    · rw [heq, List.getElem?_concat_length] at hi'
      rw [List.getElem?_append_left (heq ▸ Nat.lt_succ_self i)] at hi
      have hlast : swaps.getLast? = some swap := by rw [List.getLast?_eq_getElem?, ← heq, Nat.add_sub_cancel, hi]
      rw [← Option.some.inj hi', hswaps.left, hlast]
      rfl
    · rw [List.getElem?_append_right (Nat.le_of_lt hgt), List.getElem?_eq_none (by simp; omega)] at hi'
      cases hi'

end Swaps
