import Mathlib.Data.List.Forall2
import Mathlib.Data.List.Nodup

/-!
# Replacing a run of a list by one element

A run is named by the positions of its first and last element. `segment` is the run, `splice` the list with the run swapped
for one new element. The facts about them say that nothing else moves: what is removed is exactly the run, what is added is
exactly the new element, and distinctness is kept when the new element is new.
-/

namespace Splice

variable {α : Type*}

/-- The elements from position `first` to position `last`, both included. -/
def segment (xs : List α) (first last : Nat) : List α := (xs.take (last + 1)).drop first

/-- The list with the run from `first` to `last` swapped for one element. -/
def splice (xs : List α) (first last : Nat) (y : α) : List α := xs.take first ++ y :: xs.drop (last + 1)

/-- A list is what stands before a run, the run, and what stands after it. -/
theorem take_segment_drop (xs : List α) {first last : Nat} (h : first ≤ last) :
    xs.take first ++ segment xs first last ++ xs.drop (last + 1) = xs := by
  have htake : xs.take first = (xs.take (last + 1)).take first := by
    rw [List.take_take, Nat.min_eq_left (by omega)]
  rw [segment, htake, List.take_append_drop, List.take_append_drop]

/-- A run ends within the elements up to its last position. -/
theorem segment_sublist (xs : List α) (first last : Nat) : (segment xs first last).Sublist xs :=
  (List.drop_sublist _ _).trans (List.take_sublist _ _)

/-- An element of the spliced list is the new one, or one that stood outside the run. -/
theorem mem_splice {xs : List α} {first last : Nat} {x y : α} :
    x ∈ splice xs first last y ↔ x ∈ xs.take first ∨ x = y ∨ x ∈ xs.drop (last + 1) := by
  simp [splice]

theorem mem_of_mem_splice {xs : List α} {first last : Nat} {x y : α} (h : x ∈ splice xs first last y) : x = y ∨ x ∈ xs := by
  rcases mem_splice.mp h with h | h | h
  · exact Or.inr (List.mem_of_mem_take h)
  · exact Or.inl h
  · exact Or.inr (List.mem_of_mem_drop h)

theorem mem_splice_of_not_mem_segment {xs : List α} {first last : Nat} (h : first ≤ last) {x y : α} (hx : x ∈ xs)
    (hs : x ∉ segment xs first last) : x ∈ splice xs first last y := by
  rw [← take_segment_drop xs h, List.mem_append, List.mem_append] at hx
  rcases hx with (hx | hx) | hx
  · exact mem_splice.mpr (Or.inl hx)
  · exact absurd hx hs
  · exact mem_splice.mpr (Or.inr (Or.inr hx))

/-- In a list without repeats, an element of the run is gone after the splice, unless it is the new one. -/
theorem not_mem_splice_of_mem_segment {xs : List α} {first last : Nat} (h : first ≤ last) (hnd : xs.Nodup) {x y : α}
    (hs : x ∈ segment xs first last) (hy : x ≠ y) : x ∉ splice xs first last y := by
  have hsplit := take_segment_drop xs h
  rw [← hsplit, List.append_assoc, List.nodup_append', List.nodup_append'] at hnd
  obtain ⟨-, ⟨-, -, hright⟩, hleft⟩ := hnd
  intro hx
  rcases mem_splice.mp hx with hx | hx | hx
  · exact hleft hx (List.mem_append_left _ hs)
  · exact hy hx
  · exact hright hs hx

/-- Splicing in an element the list does not hold keeps the list without repeats. -/
theorem nodup_splice {xs : List α} {first last : Nat} (h : first ≤ last) (hnd : xs.Nodup) {y : α} (hy : y ∉ xs) :
    (splice xs first last y).Nodup := by
  have hsub : (xs.take first ++ xs.drop (last + 1)).Sublist xs := by
    conv_rhs => rw [← take_segment_drop xs h]
    exact (List.sublist_append_left _ _).append (List.Sublist.refl _)
  have hperm : (splice xs first last y).Perm (y :: (xs.take first ++ xs.drop (last + 1))) := List.perm_middle
  rw [hperm.nodup_iff, List.nodup_cons]
  exact ⟨fun hm => hy (hsub.subset hm), hnd.sublist hsub⟩

/-- One element is swapped for another that it is related to. -/
theorem forall₂_splice {R : α → α → Prop} (hrefl : ∀ x, R x x) {xs : List α} {i : Nat} {x y : α} (hx : xs[i]? = some x) (hxy : R x y) :
    List.Forall₂ R xs (splice xs i i y) := by
  obtain ⟨hi, hget⟩ := List.getElem?_eq_some_iff.mp hx
  have hsplit : xs = xs.take i ++ x :: xs.drop (i + 1) := by
    rw [← hget, ← List.drop_eq_getElem_cons hi, List.take_append_drop]
  have hall : ∀ ys : List α, List.Forall₂ R ys ys := fun ys => List.forall₂_same.mpr (fun z _ => hrefl z)
  conv_lhs => rw [hsplit]
  exact List.rel_append (hall _) (.cons hxy (hall _))

/-! ## Runs named by their ends -/

/-- In a list whose elements have distinct keys, the one with a key is swapped for another. -/
theorem splice_idxOf_eq_map {κ : Type*} [DecidableEq κ] (key : α → κ) {xs : List α} (hnd : (xs.map key).Nodup) {k : κ}
    (hk : k ∈ xs.map key) (y : α) :
    splice xs ((xs.map key).idxOf k) ((xs.map key).idxOf k) y = xs.map (fun x => if key x = k then y else x) := by
  induction xs with
  | nil => exact absurd hk List.not_mem_nil
  | cons x xs ih =>
    obtain ⟨hx, hnd⟩ := List.nodup_cons.mp hnd
    by_cases hkey : key x = k
    · have hrest : ∀ z ∈ xs, (if key z = k then y else z) = z := by
        intro z hz
        rw [if_neg]
        rintro rfl
        exact hx (hkey ▸ List.mem_map_of_mem hz)
      rw [List.map_cons, List.map_cons, if_pos hkey, List.map_congr_left hrest, List.map_id', hkey, List.idxOf_cons_self]
      rfl
    · have hmem : k ∈ xs.map key := (List.mem_cons.mp hk).resolve_left (Ne.symm hkey)
      rw [List.map_cons, List.map_cons, if_neg hkey, List.idxOf_cons_ne _ hkey, ← ih hnd hmem]
      rfl

variable [DecidableEq α]

/-- Of two elements of a sublist of a list without repeats, the earlier one stands earlier in the list. -/
theorem idxOf_le_of_sublist_pair {xs : List α} (hnd : xs.Nodup) {a b : α} (h : [a, b].Sublist xs) : xs.idxOf a ≤ xs.idxOf b := by
  obtain ⟨left, right, rfl, ha, hb⟩ := List.cons_sublist_iff.mp h
  have hb : b ∈ right := List.singleton_sublist.mp hb
  have hnot : b ∉ left := fun hleft => (List.nodup_append'.mp hnd).2.2 hleft hb
  rw [List.idxOf_append, List.idxOf_append, if_pos ha, if_neg hnot]
  have := List.idxOf_lt_length_of_mem ha
  omega

/-- The first element of a sublist of a list without repeats does not stand after the last. -/
theorem idxOf_head_le_getLast {xs ys : List α} (hnd : xs.Nodup) (h : ys.Sublist xs) {a b : α} (ha : ys.head? = some a)
    (hb : ys.getLast? = some b) : xs.idxOf a ≤ xs.idxOf b := by
  cases ys with
  | nil => cases ha
  | cons y ys =>
    cases ha
    cases ys with
    | nil => cases hb; exact Nat.le_refl _
    | cons z zs =>
      rw [List.getLast?_cons_cons] at hb
      have hmem : b ∈ z :: zs := List.mem_of_getLast? hb
      exact idxOf_le_of_sublist_pair hnd (((List.singleton_sublist.mpr hmem).cons_cons a).trans h)

/-- The run between two elements starts with the first and ends with the last. -/
theorem head?_segment_idxOf {xs : List α} {a b : α} (ha : a ∈ xs) (h : xs.idxOf a ≤ xs.idxOf b) :
    (segment xs (xs.idxOf a) (xs.idxOf b)).head? = some a := by
  have hlt := List.idxOf_lt_length_of_mem ha
  rw [segment, List.head?_drop, List.getElem?_take_of_lt (by omega), List.getElem?_eq_getElem hlt, List.getElem_idxOf]

theorem getLast?_segment_idxOf {xs : List α} {a b : α} (hb : b ∈ xs) (h : xs.idxOf a ≤ xs.idxOf b) :
    (segment xs (xs.idxOf a) (xs.idxOf b)).getLast? = some b := by
  have hlt := List.idxOf_lt_length_of_mem hb
  rw [segment, List.getLast?_drop, if_neg (by rw [List.length_take]; omega), List.getLast?_take, if_neg (by omega)]
  simp only [Nat.add_sub_cancel, List.getElem?_eq_getElem hlt, List.getElem_idxOf, Option.some_or]

/-- What a splice of a list without repeats removes is exactly the run. -/
theorem removed_iff_mem_segment {xs : List α} {first last : Nat} (h : first ≤ last) (hnd : xs.Nodup) {x y : α} (hy : y ∉ xs) :
    (x ∈ xs ∧ x ∉ splice xs first last y) ↔ x ∈ segment xs first last := by
  constructor
  · rintro ⟨hx, hgone⟩
    by_contra hseg
    exact hgone (mem_splice_of_not_mem_segment h hx hseg)
  · intro hseg
    have hx : x ∈ xs := (segment_sublist xs first last).subset hseg
    exact ⟨hx, not_mem_splice_of_mem_segment h hnd hseg (fun he => hy (he ▸ hx))⟩

end Splice
