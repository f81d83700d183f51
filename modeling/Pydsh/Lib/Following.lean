import Mathlib.Data.List.Forall2
import Mathlib.Data.List.Induction
import Pydsh.Lib.Splice

/-!
# Elements that come right behind what they belong to

In some lists an element opens a group and offers keys, others need keys and come right behind the element that offers them, and any
other element closes the group. `Rule` says which element does what. `Walks` goes through a list with the keys that are offered; it is
the same as to say of each element that needs a key that it comes behind one that offers it, with nothing in between but others that
came so (`walks_nil_iff`). A list that walks still does with an element at its end whose keys are offered there, with a run replaced
by one element that needs nothing, as long as what comes behind the run needs nothing, with elements replaced by others that do the
same, and when each element is mapped to a list that does what it does.
-/

namespace Following

variable {α β κ : Type*}

/-- An element opens a group, leaves the one it comes in open, or closes it. -/
inductive Kind where
  | opens | follows | closes
  deriving DecidableEq

/-- What each element does, the keys it offers where it opens a group, and the keys it needs. -/
structure Rule (α κ : Type*) where
  kind : α → Kind
  offers : α → List κ
  needs : α → List κ
  /-- Only an element that needs something leaves a group open. -/
  needs_of_follows : ∀ x, kind x = .follows → needs x ≠ []

namespace Rule

variable (r : Rule α κ)

/-- The keys that are offered behind an element. -/
def next (held : List κ) (x : α) : List κ :=
  match r.kind x with
  | .opens => r.offers x
  | .follows => held
  | .closes => []

/-- The keys that are offered behind a list. -/
def opened (held : List κ) (xs : List α) : List κ := xs.foldl r.next held

/-- Each element needs only keys that are offered where it comes. -/
def Walks (held : List κ) : List α → Prop
  | [] => True
  | x :: xs => (∀ k ∈ r.needs x, k ∈ held) ∧ Walks (r.next held x) xs

instance Walks.decidable [DecidableEq κ] : ∀ (held : List κ) (xs : List α), Decidable (r.Walks held xs)
  | _, [] => instDecidableTrue
  | held, x :: xs => @instDecidableAnd _ _ _ (Walks.decidable (r.next held x) xs)

/-- Each element that needs a key comes behind one that opens a group and offers it, with none in between but what leaves it open. -/
def Follows (xs : List α) : Prop :=
  ∀ before x after, xs = before ++ x :: after → ∀ k ∈ r.needs x, ∃ earlier a between, before = earlier ++ a :: between ∧
    r.kind a = .opens ∧ k ∈ r.offers a ∧ ∀ b ∈ between, r.kind b = .follows

variable {r} {held held' : List κ} {xs ys : List α}

theorem next_opens {x : α} (h : r.kind x = .opens) : r.next held x = r.offers x := by
  unfold next
  rw [h]

theorem next_follows {x : α} (h : r.kind x = .follows) : r.next held x = held := by
  unfold next
  rw [h]

theorem next_closes {x : α} (h : r.kind x = .closes) : r.next held x = [] := by
  unfold next
  rw [h]

/-- Behind an element that needs nothing the same is offered, whatever was before it. -/
theorem next_free {x : α} (h : r.needs x = []) : r.next held x = r.next held' x := by
  have hkind : r.kind x ≠ .follows := fun hfollows => r.needs_of_follows x hfollows h
  unfold next
  split
  · rfl
  · rename_i hfollows
    exact absurd hfollows hkind
  · rfl

theorem opened_append : r.opened held (xs ++ ys) = r.opened (r.opened held xs) ys := List.foldl_append

theorem opened_concat (x : α) : r.opened held (xs ++ [x]) = r.next (r.opened held xs) x := by
  rw [opened_append]
  rfl

theorem walks_append : r.Walks held (xs ++ ys) ↔ r.Walks held xs ∧ r.Walks (r.opened held xs) ys := by
  induction xs generalizing held with
  | nil => exact (iff_of_eq (true_and _)).symm
  | cons x xs ih =>
    simp only [List.cons_append, Walks, ih, and_assoc]
    rfl

theorem walks_concat {x : α} : r.Walks held (xs ++ [x]) ↔ r.Walks held xs ∧ ∀ k ∈ r.needs x, k ∈ r.opened held xs := by
  simp only [walks_append, Walks, and_true]

/-! ## The walk is about what stands where -/

/-- A key is offered behind a list exactly if an element of it offers it and all behind that one leave the group open. -/
theorem mem_opened_iff {k : κ} : k ∈ r.opened [] xs ↔ ∃ earlier a between, xs = earlier ++ a :: between ∧ r.kind a = .opens ∧
    k ∈ r.offers a ∧ ∀ b ∈ between, r.kind b = .follows := by
  induction xs using List.reverseRecOn with
  | nil =>
    constructor
    · intro h
      cases h
    · rintro ⟨earlier, a, between, heq, -⟩
      simp at heq
  | append_singleton xs x ih =>
    rw [opened_concat]
    constructor
    · intro h
      cases hkind : r.kind x with
      | opens =>
        rw [next_opens hkind] at h
        exact ⟨xs, x, [], rfl, hkind, h, fun b hb => absurd hb List.not_mem_nil⟩
      | follows =>
        rw [next_follows hkind] at h
        obtain ⟨earlier, a, between, rfl, hopens, hoffers, hbetween⟩ := ih.mp h
        refine ⟨earlier, a, between ++ [x], by rw [List.append_assoc, List.cons_append], hopens, hoffers, ?_⟩
        intro b hb
        rcases List.mem_append.mp hb with hb | hb
        · exact hbetween b hb
        · rw [List.mem_singleton.mp hb]
          exact hkind
      | closes =>
        rw [next_closes hkind] at h
        cases h
    · rintro ⟨earlier, a, between, heq, hopens, hoffers, hbetween⟩
      rcases List.eq_nil_or_concat between with rfl | ⟨init, y, rfl⟩
      · obtain ⟨rfl, hx⟩ := List.append_inj' heq rfl
        rw [List.singleton_inj] at hx
        subst hx
        rw [next_opens hopens]
        exact hoffers
      · rw [List.concat_eq_append, ← List.cons_append, ← List.append_assoc] at heq
        obtain ⟨rfl, hx⟩ := List.append_inj' heq rfl
        rw [List.singleton_inj] at hx
        subst hx
        rw [next_follows (hbetween x (by simp))]
        exact ih.mpr ⟨earlier, a, init, rfl, hopens, hoffers, fun b hb => hbetween b (by simp [hb])⟩

theorem walks_nil_iff : r.Walks [] xs ↔ r.Follows xs := by
  constructor
  · rintro h before x after rfl k hk
    obtain ⟨-, hneeds, -⟩ := walks_append.mp h
    exact mem_opened_iff.mp (hneeds k hk)
  · intro h
    induction xs using List.reverseRecOn with
    | nil => trivial
    | append_singleton xs x ih =>
      refine walks_concat.mpr ⟨ih ?_, fun k hk => mem_opened_iff.mpr (h xs x [] rfl k hk)⟩
      rintro before y after rfl k hk
      exact h before y (after ++ [x]) (by simp) k hk

/-! ## Changes of a list that walks -/

/-- Where the first element needs nothing, the walk does not depend on what was offered before. -/
theorem Walks.free (h : r.Walks held xs) (hfree : ∀ x, xs.head? = some x → r.needs x = []) : r.Walks held' xs := by
  cases xs with
  | nil => trivial
  | cons x xs =>
    have hneeds := hfree x rfl
    refine ⟨fun k hk => absurd hk (by simp [hneeds]), ?_⟩
    have hsame : r.next held x = r.next held' x := next_free hneeds
    rw [← hsame]
    exact h.2

/-- Elements that need nothing can come anywhere. -/
theorem walks_of_free (h : ∀ x ∈ xs, r.needs x = []) : r.Walks held xs := by
  induction xs generalizing held with
  | nil => trivial
  | cons x xs ih =>
    have hneeds := h x List.mem_cons_self
    exact ⟨fun k hk => absurd hk (by simp [hneeds]), ih (fun y hy => h y (List.mem_cons_of_mem x hy))⟩

/-- Elements that leave the group open, and need what is offered. -/
theorem walks_of_follows (h : ∀ x ∈ xs, r.kind x = .follows ∧ ∀ k ∈ r.needs x, k ∈ held) : r.Walks held xs := by
  induction xs with
  | nil => trivial
  | cons x xs ih =>
    obtain ⟨hkind, hneeds⟩ := h x List.mem_cons_self
    refine ⟨hneeds, ?_⟩
    rw [next_follows hkind]
    exact ih (fun y hy => h y (List.mem_cons_of_mem x hy))

/-- A run is replaced by an element that needs nothing; what comes behind it needs nothing, either. -/
theorem Walks.splice (h : r.Walks held xs) {first last : Nat} {y : α} (hy : r.needs y = [])
    (hbehind : ∀ x, xs[last + 1]? = some x → r.needs x = []) : r.Walks held (Splice.splice xs first last y) := by
  have htake : r.Walks held (xs.take first) := by
    rw [← List.take_append_drop first xs, walks_append] at h
    exact h.1
  have hdrop : r.Walks (r.opened held (xs.take (last + 1))) (xs.drop (last + 1)) := by
    rw [← List.take_append_drop (last + 1) xs, walks_append] at h
    exact h.2
  refine walks_append.mpr ⟨htake, fun k hk => absurd hk (by simp [hy]), hdrop.free ?_⟩
  intro x hx
  rw [List.head?_drop] at hx
  exact hbehind x hx

/-- The two elements do the same. -/
structure Alike (r : Rule α κ) (x y : α) : Prop where
  kind : r.kind y = r.kind x
  offers : r.offers y = r.offers x
  needs : r.needs y = r.needs x

theorem Alike.refl (x : α) : r.Alike x x := ⟨rfl, rfl, rfl⟩

theorem Alike.next {x y : α} (h : r.Alike x y) : r.next held y = r.next held x := by
  unfold Rule.next
  rw [h.kind, h.offers]

theorem Alike.trans {x y z : α} (h : r.Alike x y) (h' : r.Alike y z) : r.Alike x z :=
  ⟨h'.kind.trans h.kind, h'.offers.trans h.offers, h'.needs.trans h.needs⟩

/-- Each element is replaced by one that does the same. -/
theorem Walks.alike (h : r.Walks held xs) (halike : List.Forall₂ r.Alike xs ys) : r.Walks held ys := by
  induction halike generalizing held with
  | nil => exact h
  | @cons x y xs ys hxy _ ih =>
    obtain ⟨hneeds, hrest⟩ := h
    refine ⟨?_, ?_⟩
    · rw [hxy.needs]
      exact hneeds
    · rw [hxy.next]
      exact ih hrest

/-- The same of two rules, where each element of the one is a list of the other. -/
structure Refines (r : Rule α κ) (r' : Rule β κ) (f : α → List β) : Prop where
  walks : ∀ held x, (∀ k ∈ r.needs x, k ∈ held) → r'.Walks held (f x)
  opened : ∀ held x, r'.opened held (f x) = r.next held x

theorem Walks.flatMap {r' : Rule β κ} {f : α → List β} (hf : r.Refines r' f) (h : r.Walks held xs) :
    r'.Walks held (xs.flatMap f) := by
  induction xs generalizing held with
  | nil => trivial
  | cons x xs ih =>
    rw [List.flatMap_cons]
    refine walks_append.mpr ⟨hf.walks held x h.1, ?_⟩
    rw [hf.opened]
    exact ih h.2

end Rule

end Following
