import Mathlib.Data.List.Count

/-!
# Brackets in a log

Some entries of a log open a bracket, some close one, each under a key; `opens` and `closes` read the key off an entry. A log is
bracketed, with some keys still pending, when nothing closes a key before it is opened, no pending key is closed, and every
other opened key is closed exactly once, after its opening. A log stays bracketed when an entry that is no bracket is added,
when a key that is new is opened and becomes pending, and when a pending key is closed and is pending no more.
-/

namespace Bracket

variable {ε ι : Type*} [DecidableEq ι]

/-- How many entries close a key. -/
def closings (closes : ε → Option ι) (id : ι) (es : List ε) : Nat := es.countP (fun e => closes e == some id)

/-- Each opening is closed exactly once, after it, unless its key is pending; a pending key is not closed. -/
structure Bracketed (opens closes : ε → Option ι) (pending : ι → Prop) (es : List ε) : Prop where
  settled : ∀ before e after id, es = before ++ e :: after → opens e = some id →
    closings closes id before = 0 ∧ (pending id → closings closes id after = 0) ∧
      (¬pending id → closings closes id after = 1)
  closed : ∀ e ∈ es, ∀ id, closes e = some id → ∃ e₀ ∈ es, opens e₀ = some id
  opened : ∀ id, pending id → ∃ e₀ ∈ es, opens e₀ = some id

variable {opens closes : ε → Option ι} {pending : ι → Prop} {es : List ε}

theorem closings_append (id : ι) (xs ys : List ε) :
    closings closes id (xs ++ ys) = closings closes id xs + closings closes id ys :=
  List.countP_append

theorem closings_singleton (id : ι) (x : ε) : closings closes id [x] = if closes x = some id then 1 else 0 := by
  simp [closings, List.countP_cons]

/-- An element of a list with one more at the end is an element of the list, or the one at the end. -/
theorem concat_eq_cases {xs before after : List ε} {x e : ε} (h : xs ++ [x] = before ++ e :: after) :
    (after = [] ∧ before = xs ∧ e = x) ∨ ∃ rest, after = rest ++ [x] ∧ xs = before ++ e :: rest := by
  rcases List.eq_nil_or_concat after with rfl | ⟨rest, last, hafter⟩
  · obtain ⟨hxs, hx⟩ := List.append_inj' h rfl
    cases hx
    exact Or.inl ⟨rfl, hxs.symm, rfl⟩
  · right
    rw [List.concat_eq_append] at hafter
    have h' : xs ++ [x] = (before ++ e :: rest) ++ [last] := by rw [h, hafter, List.append_assoc, List.cons_append]
    obtain ⟨hxs, hx⟩ := List.append_inj' h' rfl
    cases hx
    exact ⟨rest, hafter, hxs⟩

/-- A key nothing opens is closed by nothing. -/
theorem Bracketed.closings_eq_zero (h : Bracketed opens closes pending es) {id : ι} (hid : ∀ e ∈ es, opens e ≠ some id) :
    closings closes id es = 0 := by
  rw [closings, List.countP_eq_zero]
  intro e he hclose
  obtain ⟨e₀, he₀, hopen⟩ := h.closed e he id (by simpa using hclose)
  exact hid e₀ he₀ hopen

/-- A key that is closed has been opened, if the last entry closes only what the log has opened. -/
theorem Bracketed.closed_concat (h : Bracketed opens closes pending es) {x : ε}
    (hlast : ∀ k, closes x = some k → ∃ e ∈ es, opens e = some k) :
    ∀ e ∈ es ++ [x], ∀ k, closes e = some k → ∃ e₀ ∈ es ++ [x], opens e₀ = some k := by
  intro e he k hk
  have hopened : ∃ e₀ ∈ es, opens e₀ = some k := by
    rcases List.mem_append.mp he with he | he
    · exact h.closed e he k hk
    · rw [List.mem_singleton.mp he] at hk
      exact hlast k hk
  obtain ⟨e₀, he₀, ho⟩ := hopened
  exact ⟨e₀, List.mem_append_left _ he₀, ho⟩

/-- An entry that opens and closes nothing. -/
theorem Bracketed.other (h : Bracketed opens closes pending es) {x : ε} (hopen : opens x = none) (hclose : closes x = none) :
    Bracketed opens closes pending (es ++ [x]) := by
  refine ⟨?_, ?_, ?_⟩
  · intro before e after id heq he
    rcases concat_eq_cases heq with ⟨-, -, rfl⟩ | ⟨rest, rfl, hes⟩
    · rw [hopen] at he
      cases he
    · rw [closings_append, closings_singleton, hclose]
      exact h.settled before e rest id hes he
  · exact h.closed_concat (fun id hid => by rw [hclose] at hid; cases hid)
  · intro id hid
    obtain ⟨e₀, he₀, ho⟩ := h.opened id hid
    exact ⟨e₀, List.mem_append_left _ he₀, ho⟩

/-- Entries that open and close nothing. -/
theorem Bracketed.others (h : Bracketed opens closes pending es) {xs : List ε}
    (hxs : ∀ x ∈ xs, opens x = none ∧ closes x = none) : Bracketed opens closes pending (es ++ xs) := by
  induction xs generalizing es with
  | nil => rwa [List.append_nil]
  | cons x xs ih =>
    obtain ⟨hopen, hclose⟩ := hxs x List.mem_cons_self
    rw [List.append_cons]
    exact ih (h.other hopen hclose) (fun y hy => hxs y (List.mem_cons_of_mem x hy))

/-- An opening of a new key makes it pending. -/
theorem Bracketed.open (h : Bracketed opens closes pending es) {x : ε} {id : ι} (hopen : opens x = some id)
    (hclose : closes x = none) (hnew : ∀ e ∈ es, opens e ≠ some id) {pending' : ι → Prop}
    (hpending : ∀ k, pending' k ↔ k = id ∨ pending k) : Bracketed opens closes pending' (es ++ [x]) := by
  refine ⟨?_, ?_, ?_⟩
  · intro before e after k heq he
    rcases concat_eq_cases heq with ⟨rfl, rfl, rfl⟩ | ⟨rest, rfl, hes⟩
    · rw [hopen] at he
      cases he
      exact ⟨h.closings_eq_zero hnew, fun _ => rfl, fun hno => absurd ((hpending id).mpr (Or.inl rfl)) hno⟩
    · have hk : k ≠ id := by
        rintro rfl
        exact hnew e (by rw [hes]; simp) he
      have hiff : pending' k ↔ pending k := by rw [hpending]; simp [hk]
      rw [closings_append, closings_singleton, hclose, hiff]
      exact h.settled before e rest k hes he
  · exact h.closed_concat (fun k hk => by rw [hclose] at hk; cases hk)
  · intro k hk
    rcases (hpending k).mp hk with rfl | hk
    · exact ⟨x, by simp, hopen⟩
    · obtain ⟨e₀, he₀, ho⟩ := h.opened k hk
      exact ⟨e₀, List.mem_append_left _ he₀, ho⟩

/-- A closing of a pending key ends its bracket. -/
theorem Bracketed.close (h : Bracketed opens closes pending es) {x : ε} {id : ι} (hopen : opens x = none)
    (hclose : closes x = some id) (hid : pending id) {pending' : ι → Prop}
    (hpending : ∀ k, pending' k ↔ k ≠ id ∧ pending k) : Bracketed opens closes pending' (es ++ [x]) := by
  refine ⟨?_, ?_, ?_⟩
  · intro before e after k heq he
    rcases concat_eq_cases heq with ⟨-, -, rfl⟩ | ⟨rest, rfl, hes⟩
    · rw [hopen] at he
      cases he
    · obtain ⟨hbefore, hpend, hdone⟩ := h.settled before e rest k hes he
      rw [closings_append, closings_singleton, hclose, hpending]
      by_cases hk : k = id
      · subst hk
        refine ⟨hbefore, fun hno => absurd rfl hno.1, fun _ => ?_⟩
        rw [hpend hid, if_pos rfl]
      · have hne : ¬(some id = some k) := fun heq => hk (Option.some.inj heq).symm
        rw [if_neg hne]
        exact ⟨hbefore, fun hp => hpend hp.2, fun hno => hdone (fun hp => hno ⟨hk, hp⟩)⟩
  · refine h.closed_concat (fun k hk => ?_)
    rw [hclose] at hk
    cases hk
    exact h.opened id hid
  · intro k hk
    obtain ⟨e₀, he₀, ho⟩ := h.opened k ((hpending k).mp hk).2
    exact ⟨e₀, List.mem_append_left _ he₀, ho⟩

end Bracket
