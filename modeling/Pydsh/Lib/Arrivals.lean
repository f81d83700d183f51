import Mathlib.Data.List.Induction
import Mathlib.Data.List.Nodup

/-!
# Arrivals

Things arrive under keys, one after another. `firstFor arrivals since k` is the first that arrived for `k` after the first `since`
arrivals: what one who asked for `k` then is owed. A further arrival is it exactly if it is for `k` and nothing was before
(`firstFor_concat`). The keys in the order of their first arrivals are those without the repeated ones (`eraseDups`).
-/

namespace Arrivals

variable {κ α : Type*} [DecidableEq κ]

/-- The first arrival for a key after some arrivals. -/
def firstFor (arrivals : List (κ × α)) (since : Nat) (k : κ) : Option α :=
  ((arrivals.drop since).find? (fun arrival => arrival.1 = k)).map (·.2)

theorem firstFor_length (arrivals : List (κ × α)) (k : κ) : firstFor arrivals arrivals.length k = none := by
  simp [firstFor]

theorem firstFor_concat {arrivals : List (κ × α)} {since : Nat} (h : since ≤ arrivals.length) (k k' : κ) (a : α) :
    firstFor (arrivals ++ [(k', a)]) since k = (firstFor arrivals since k).or (if k' = k then some a else none) := by
  unfold firstFor
  rw [List.drop_append_of_le_length h, List.find?_append]
  cases (arrivals.drop since).find? (fun arrival => arrival.1 = k) with
  | some arrival => rfl
  | none =>
    by_cases hk : k' = k
    · simp [hk]
    · simp [hk]

theorem firstFor_concat_some {arrivals : List (κ × α)} {since : Nat} {k : κ} {a : α} (h : firstFor arrivals since k = some a)
    (hsince : since ≤ arrivals.length) (k' : κ) (b : α) : firstFor (arrivals ++ [(k', b)]) since k = some a := by
  rw [firstFor_concat hsince, h]
  rfl

theorem firstFor_concat_self {arrivals : List (κ × α)} {since : Nat} {k : κ} (h : firstFor arrivals since k = none)
    (hsince : since ≤ arrivals.length) (a : α) : firstFor (arrivals ++ [(k, a)]) since k = some a := by
  rw [firstFor_concat hsince, h, if_pos rfl]
  rfl

theorem firstFor_concat_other {arrivals : List (κ × α)} {since : Nat} {k k' : κ} (hk : k' ≠ k) (hsince : since ≤ arrivals.length)
    (a : α) : firstFor (arrivals ++ [(k', a)]) since k = firstFor arrivals since k := by
  rw [firstFor_concat hsince, if_neg hk, Option.or_none]

/-- A further key comes last, if it is new. -/
theorem eraseDups_concat (ks : List κ) (k : κ) : (ks ++ [k]).eraseDups = if k ∈ ks then ks.eraseDups else ks.eraseDups ++ [k] := by
  rw [List.eraseDups_append]
  by_cases hk : k ∈ ks <;> simp [List.removeAll, hk, List.eraseDups_cons]

theorem nodup_eraseDups (ks : List κ) : ks.eraseDups.Nodup := by
  induction ks using List.reverseRecOn with
  | nil => exact List.nodup_nil
  | append_singleton ks k ih =>
    rw [eraseDups_concat]
    split
    · exact ih
    · rename_i hk
      have hnew : k ∉ ks.eraseDups := by simpa [List.mem_eraseDups] using hk
      exact List.nodup_append'.mpr ⟨ih, List.nodup_singleton k, by simpa using hnew⟩

end Arrivals
