import Mathlib.Data.List.Basic
import Mathlib.Data.List.Forall2

/-!
# Results

Code without a state, which returns a value or raises: when two parts one after the other return, and when the same code does for each
element of a list.
-/

namespace Except

variable {ε α β : Type}

/-- The code returns. -/
def Returns (r : Except ε α) : Prop := ∃ a, r = .ok a

theorem returns_ok (a : α) : Returns (.ok a : Except ε α) := ⟨a, rfl⟩

@[simp] theorem returns_ok_iff (a : α) : Returns (.ok a : Except ε α) ↔ True := ⟨fun _ => trivial, fun _ => returns_ok a⟩

@[simp] theorem not_returns_error (e : ε) : ¬Returns (.error e : Except ε α) := by
  rintro ⟨a, h⟩
  cases h

/-- The code returns what passes a test. -/
theorem exists_of_any {r : Except ε α} (test : α → Bool) (h : r.toOption.any test = true) : ∃ a, r = .ok a ∧ test a = true := by
  cases r with
  | ok a => exact ⟨a, rfl, h⟩
  | error e => cases h

theorem isOk_iff_returns {r : Except ε α} : r.isOk = true ↔ r.Returns := by
  cases r with
  | ok a => exact ⟨fun _ => returns_ok a, fun _ => rfl⟩
  | error e =>
    refine ⟨fun h => ?_, fun h => absurd h (not_returns_error e)⟩
    cases h

theorem map_eq_ok_iff {f : α → β} {r : Except ε α} {b : β} : r.map f = .ok b ↔ ∃ a, r = .ok a ∧ f a = b := by
  cases r with
  | ok a => simp [Except.map]
  | error e => simp [Except.map]

/-- Two parts return exactly if the first does, and then the second. -/
theorem bind_eq_ok_iff {x : Except ε α} {f : α → Except ε β} {b : β} : x >>= f = .ok b ↔ ∃ a, x = .ok a ∧ f a = .ok b := by
  cases x with
  | error e =>
    constructor
    · intro h
      cases h
    · rintro ⟨a, ha, -⟩
      cases ha
  | ok a =>
    constructor
    · exact fun h => ⟨a, rfl, h⟩
    · rintro ⟨a', ha, h⟩
      cases ha
      exact h

theorem returns_bind_iff {x : Except ε α} {f : α → Except ε β} : (x >>= f).Returns ↔ ∃ a, x = .ok a ∧ (f a).Returns := by
  constructor
  · rintro ⟨b, hb⟩
    obtain ⟨a, ha, hf⟩ := bind_eq_ok_iff.mp hb
    exact ⟨a, ha, b, hf⟩
  · rintro ⟨a, ha, b, hf⟩
    exact ⟨b, bind_eq_ok_iff.mpr ⟨a, ha, hf⟩⟩

/-- A part after which a value is returned. -/
theorem returns_bind_pure_iff {x : Except ε α} {f : α → β} : (x >>= fun a => pure (f a)).Returns ↔ x.Returns := by
  rw [returns_bind_iff]
  constructor
  · rintro ⟨a, ha, -⟩
    exact ⟨a, ha⟩
  · rintro ⟨a, ha⟩
    exact ⟨a, ha, returns_ok (f a)⟩

theorem mapError_eq_ok_iff {ε' : Type} {x : Except ε α} {f : ε → ε'} {a : α} : x.mapError f = .ok a ↔ x = .ok a := by
  cases x <;> simp [Except.mapError]

theorem returns_map_iff {x : Except ε α} {f : α → β} : (x.map f).Returns ↔ x.Returns := by
  cases x with
  | ok a => exact ⟨fun _ => returns_ok a, fun _ => returns_ok (f a)⟩
  | error e => exact ⟨fun h => absurd h (not_returns_error e), fun h => absurd h (not_returns_error e)⟩

/-- The same code for each element returns exactly if it does for every one. -/
theorem returns_mapM_iff {f : α → Except ε β} {xs : List α} : (xs.mapM f).Returns ↔ ∀ x ∈ xs, (f x).Returns := by
  induction xs with
  | nil => exact ⟨fun _ x hx => absurd hx List.not_mem_nil, fun _ => returns_ok []⟩
  | cons x xs ih =>
    rw [List.mapM_cons, returns_bind_iff, List.forall_mem_cons, ← ih]
    constructor
    · rintro ⟨b, hb, hrest⟩
      obtain ⟨bs, hbs, -⟩ := returns_bind_iff.mp hrest
      exact ⟨⟨b, hb⟩, ⟨bs, hbs⟩⟩
    · rintro ⟨⟨b, hb⟩, ⟨bs, hbs⟩⟩
      exact ⟨b, hb, returns_bind_iff.mpr ⟨bs, hbs, returns_ok (b :: bs)⟩⟩

/-- What the code gives for the elements is what it gives for each of them, in their order. -/
theorem forall₂_of_mapM_eq_ok {f : α → Except ε β} {xs : List α} {bs : List β} (h : xs.mapM f = .ok bs) :
    List.Forall₂ (fun x b => f x = .ok b) xs bs := by
  induction xs generalizing bs with
  | nil =>
    cases h
    exact .nil
  | cons x xs ih =>
    rw [List.mapM_cons] at h
    obtain ⟨first, hfirst, h⟩ := bind_eq_ok_iff.mp h
    obtain ⟨rest, hrest, h⟩ := bind_eq_ok_iff.mp h
    cases h
    exact .cons hfirst (ih hrest)

theorem mem_of_mapM_eq_ok {f : α → Except ε β} {xs : List α} {bs : List β} (h : xs.mapM f = .ok bs) {b : β} (hb : b ∈ bs) :
    ∃ x ∈ xs, f x = .ok b := by
  have hall := forall₂_of_mapM_eq_ok h
  clear h
  induction hall with
  | nil => cases hb
  | cons hfirst _ ih =>
    rcases List.mem_cons.mp hb with rfl | hb
    · exact ⟨_, List.mem_cons_self, hfirst⟩
    · obtain ⟨x, hx, heq⟩ := ih hb
      exact ⟨x, List.mem_cons_of_mem _ hx, heq⟩

end Except
