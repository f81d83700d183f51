import Mathlib.Data.List.Infix

/-!
# Occurrences of a text in a text

A pattern occurs in a list behind each prefix that it continues. `splitFirst` cuts a list at the first occurrence
(`splitFirst_eq_some_iff`); `count` looks for the next one behind the one that was found. It counts one where there is one
(`count_of_once`), and there is one where it counts one unless occurrences overlap (`Apart.once`).
-/

namespace Occurrence

variable {α : Type*}

/-- Of the occurrences in a list, the first is the one behind `pre`. -/
structure First (mark : List α) (pre post xs : List α) : Prop where
  occurs : xs = pre ++ mark ++ post
  first : ∀ pre' post', xs = pre' ++ mark ++ post' → pre.length ≤ pre'.length

/-- The pattern occurs at exactly one position. -/
def Once (mark xs : List α) : Prop :=
  ∃ pre post, xs = pre ++ mark ++ post ∧ ∀ pre' post', xs = pre' ++ mark ++ post' → pre'.length = pre.length

/-- No two occurrences of the pattern overlap. -/
def Apart (mark xs : List α) : Prop :=
  ∀ pre post pre' post', xs = pre ++ mark ++ post → xs = pre' ++ mark ++ post' → pre.length < pre'.length →
    pre.length + mark.length ≤ pre'.length

/-- An occurrence is told by where it is. -/
theorem occurs_unique {mark pre post pre' post' xs : List α} (h : xs = pre ++ mark ++ post) (h' : xs = pre' ++ mark ++ post')
    (hlength : pre.length = pre'.length) : pre = pre' ∧ post = post' := by
  have heq : pre ++ (mark ++ post) = pre' ++ (mark ++ post') := by rw [← List.append_assoc, ← h, h', List.append_assoc]
  obtain ⟨hpre, hrest⟩ := List.append_inj heq hlength
  exact ⟨hpre, List.append_cancel_left hrest⟩

theorem First.unique {mark pre post pre' post' xs : List α} (h : First mark pre post xs) (h' : First mark pre' post' xs) :
    pre = pre' ∧ post = post' :=
  occurs_unique h.occurs h'.occurs (Nat.le_antisymm (h.first _ _ h'.occurs) (h'.first _ _ h.occurs))

/-- The first occurrence stays it, whatever comes behind. -/
theorem First.behind {mark pre post xs : List α} (h : First mark pre post xs) (rest : List α) :
    First mark pre rest (pre ++ mark ++ rest) := by
  refine ⟨rfl, fun pre' post' heq => ?_⟩
  by_contra hless
  have hprefix : pre' ++ mark <+: pre ++ mark := by
    refine List.prefix_of_prefix_length_le ⟨post', heq.symm⟩ (List.prefix_append _ rest) ?_
    simp only [List.length_append]
    omega
  obtain ⟨between, hbetween⟩ := hprefix
  have hother := h.first pre' (between ++ post) (by rw [h.occurs, ← hbetween, List.append_assoc _ between])
  omega

variable [DecidableEq α]

/-- What stands before the first occurrence of the pattern, and behind it. -/
def splitFirst (mark : List α) : List α → Option (List α × List α)
  | [] => if mark = [] then some ([], []) else none
  | x :: xs =>
    if mark <+: x :: xs then some ([], (x :: xs).drop mark.length)
    else (splitFirst mark xs).map (fun parts => (x :: parts.1, parts.2))

theorem first_of_splitFirst {mark xs pre post : List α} (h : splitFirst mark xs = some (pre, post)) : First mark pre post xs := by
  induction xs generalizing pre post with
  | nil =>
    unfold splitFirst at h
    split at h
    · rename_i hmark
      cases h
      exact ⟨by rw [hmark]; rfl, fun _ _ _ => Nat.zero_le _⟩
    · cases h
  | cons x xs ih =>
    unfold splitFirst at h
    split at h
    · rename_i hprefix
      cases h
      obtain ⟨rest, hrest⟩ := hprefix
      exact ⟨by rw [← hrest, List.drop_left, List.nil_append], fun _ _ _ => Nat.zero_le _⟩
    · rename_i hprefix
      obtain ⟨⟨pre', post'⟩, hsplit, heq⟩ := Option.map_eq_some_iff.mp h
      cases heq
      have hfirst := ih hsplit
      refine ⟨by rw [hfirst.occurs]; rfl, ?_⟩
      intro other rest heq
      cases other with
      | nil => exact absurd ⟨rest, heq.symm⟩ hprefix
      | cons y other =>
        rw [List.cons_append, List.cons_append, List.cons.injEq] at heq
        exact Nat.succ_le_succ (hfirst.first other rest heq.2)

theorem splitFirst_eq_none {mark xs : List α} (h : splitFirst mark xs = none) (pre post : List α) : xs ≠ pre ++ mark ++ post := by
  induction xs generalizing pre with
  | nil =>
    unfold splitFirst at h
    split at h
    · cases h
    · rename_i hmark
      intro heq
      have hnil := List.append_eq_nil_iff.mp (List.append_eq_nil_iff.mp heq.symm).1
      exact hmark hnil.2
  | cons x xs ih =>
    unfold splitFirst at h
    split at h
    · cases h
    · rename_i hprefix
      intro heq
      cases pre with
      | nil => exact hprefix ⟨post, heq.symm⟩
      | cons y pre =>
        rw [List.cons_append, List.cons_append, List.cons.injEq] at heq
        exact ih (Option.map_eq_none_iff.mp h) pre heq.2

/-- A list is cut at the first occurrence. -/
theorem splitFirst_eq_some_iff {mark xs pre post : List α} : splitFirst mark xs = some (pre, post) ↔ First mark pre post xs := by
  refine ⟨first_of_splitFirst, ?_⟩
  intro hfirst
  cases h : splitFirst mark xs with
  | none => exact absurd hfirst.occurs (splitFirst_eq_none h pre post)
  | some parts =>
    have hcut : First mark parts.1 parts.2 xs := first_of_splitFirst h
    obtain ⟨hpre, hpost⟩ := hcut.unique hfirst
    rw [← hpre, ← hpost]

/-- A list that is not cut has no occurrence. -/
theorem splitFirst_eq_none_iff {mark xs : List α} : splitFirst mark xs = none ↔ ∀ pre post, xs ≠ pre ++ mark ++ post := by
  refine ⟨splitFirst_eq_none, ?_⟩
  intro hnone
  cases h : splitFirst mark xs with
  | none => rfl
  | some parts =>
    have hcut : First mark parts.1 parts.2 xs := first_of_splitFirst h
    exact absurd hcut.occurs (hnone _ _)

theorem length_of_splitFirst {mark xs pre post : List α} (h : splitFirst mark xs = some (pre, post)) :
    xs.length = pre.length + mark.length + post.length := by
  rw [(first_of_splitFirst h).occurs, List.length_append, List.length_append]

theorem length_lt_of_splitFirst {mark xs : List α} {parts : List α × List α} (hmark : mark ≠ []) (h : splitFirst mark xs = some parts) :
    parts.2.length < xs.length := by
  have hlength := length_of_splitFirst h
  have hpos := List.length_pos_iff.mpr hmark
  omega

/-- How often the pattern occurs, where each occurrence is looked for behind the last; an empty pattern is found at every position. -/
def count (mark xs : List α) : Nat :=
  if hmark : mark = [] then xs.length + 1
  else
    match hsplit : splitFirst mark xs with
    | none => 0
    | some parts =>
      have := length_lt_of_splitFirst hmark hsplit
      count mark parts.2 + 1
termination_by xs.length

/-- The list with the first occurrence replaced. -/
def replaceFirst (mark new xs : List α) : List α :=
  match splitFirst mark xs with
  | none => xs
  | some parts => parts.1 ++ new ++ parts.2

/-- The list with each of the occurrences that are counted replaced. -/
def replaceAll (mark new xs : List α) : List α :=
  if hmark : mark = [] then xs.flatMap (fun x => new ++ [x]) ++ new
  else
    match hsplit : splitFirst mark xs with
    | none => xs
    | some parts =>
      have := length_lt_of_splitFirst hmark hsplit
      parts.1 ++ new ++ replaceAll mark new parts.2
termination_by xs.length

theorem count_of_none {mark xs : List α} (hmark : mark ≠ []) (h : splitFirst mark xs = none) : count mark xs = 0 := by
  rw [count, dif_neg hmark]
  split
  · rfl
  · rename_i heq
    cases h.symm.trans heq

theorem count_of_some {mark xs : List α} {parts : List α × List α} (hmark : mark ≠ []) (h : splitFirst mark xs = some parts) :
    count mark xs = count mark parts.2 + 1 := by
  rw [count, dif_neg hmark]
  split
  · rename_i heq
    cases h.symm.trans heq
  · rename_i heq
    cases h.symm.trans heq
    rfl

theorem count_eq_zero_iff {mark xs : List α} (hmark : mark ≠ []) : count mark xs = 0 ↔ splitFirst mark xs = none := by
  cases h : splitFirst mark xs with
  | none => exact iff_of_true (count_of_none hmark h) rfl
  | some parts => exact iff_of_false (by rw [count_of_some hmark h]; exact Nat.succ_ne_zero _) (Option.some_ne_none parts)

/-- One is counted where nothing is found behind the first. -/
theorem count_eq_one_iff {mark xs : List α} (hmark : mark ≠ []) :
    count mark xs = 1 ↔ ∃ parts, splitFirst mark xs = some parts ∧ splitFirst mark parts.2 = none := by
  cases h : splitFirst mark xs with
  | none => simp [count_of_none hmark h]
  | some parts =>
    rw [count_of_some hmark h, Nat.add_eq_right, count_eq_zero_iff hmark]
    simp

theorem count_of_once {mark xs : List α} (hmark : mark ≠ []) (h : Once mark xs) : count mark xs = 1 := by
  obtain ⟨pre, post, hoccurs, honly⟩ := h
  have hsplit : splitFirst mark xs = some (pre, post) :=
    splitFirst_eq_some_iff.mpr ⟨hoccurs, fun pre' post' hother => (honly pre' post' hother).ge⟩
  refine (count_eq_one_iff hmark).mpr ⟨_, hsplit, splitFirst_eq_none_iff.mpr ?_⟩
  intro pre' post' hother
  dsimp only at hother
  have hlength := honly (pre ++ mark ++ pre') post' (by rw [hoccurs, hother]; simp only [List.append_assoc])
  have hpos := List.length_pos_iff.mpr hmark
  rw [List.length_append, List.length_append] at hlength
  omega

theorem Apart.once {mark xs : List α} (hmark : mark ≠ []) (h : Apart mark xs) (hcount : count mark xs = 1) : Once mark xs := by
  obtain ⟨⟨pre, post⟩, hsplit, hnone⟩ := (count_eq_one_iff hmark).mp hcount
  have hfirst := splitFirst_eq_some_iff.mp hsplit
  refine ⟨pre, post, hfirst.occurs, ?_⟩
  intro pre' post' hother
  rcases Nat.eq_or_lt_of_le (hfirst.first pre' post' hother) with heq | hlt
  · exact heq.symm
  · -- an occurrence behind the first one has all of that one before it, and so would be found
    have hbehind := h pre post pre' post' hfirst.occurs hother hlt
    have hprefix : pre ++ mark <+: pre' := by
      refine List.prefix_of_prefix_length_le (List.prefix_append _ post) ?_ (by rwa [List.length_append])
      rw [← hfirst.occurs, hother, List.append_assoc]
      exact List.prefix_append _ _
    obtain ⟨between, rfl⟩ := hprefix
    have hpost : post = between ++ mark ++ post' := by
      have hboth := hfirst.occurs.symm.trans hother
      simp only [List.append_assoc, List.append_cancel_left_eq] at hboth ⊢
      exact hboth
    exact absurd hpost (splitFirst_eq_none hnone between post')

theorem replaceFirst_of_some {mark new xs : List α} {parts : List α × List α} (h : splitFirst mark xs = some parts) :
    replaceFirst mark new xs = parts.1 ++ new ++ parts.2 := by
  rw [replaceFirst, h]

end Occurrence
