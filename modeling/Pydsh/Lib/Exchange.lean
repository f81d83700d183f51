import Mathlib.Data.List.Basic
import Mathlib.Data.List.Induction

/-!
# Questions and the answers that follow them

A scan goes through a list and pairs the last question with the first answer behind it. The pairs it makes, by their places, are
those of a question and an answer with neither between them (`mem_pairs_iff`), each place in one pair at most (`pairs_ordered`).
-/

namespace Exchange

variable {α : Type*} (asks answers : α → Bool)

/-- Where a scan is: how many elements it has seen, the place of the question it holds, and the pairs it made. -/
structure Scan where
  seen : Nat := 0
  pending : Option Nat := none
  pairs : List (Nat × Nat) := []

/-- One more element. -/
def Scan.next (s : Scan) (x : α) : Scan :=
  if asks x then { s with
    seen := s.seen + 1
    pending := some s.seen }
  else
    match s.pending with
    | some i =>
      if answers x then
        { seen := s.seen + 1
          pending := none
          pairs := s.pairs ++ [(i, s.seen)] }
      else { s with seen := s.seen + 1 }
    | none => { s with seen := s.seen + 1 }

/-- A whole list. -/
def scan (xs : List α) : Scan := xs.foldl (Scan.next asks answers) {}

/-- At the place there is an element of the kind. -/
def At (kind : α → Bool) (xs : List α) (i : Nat) : Prop := ∃ x, xs[i]? = some x ∧ kind x = true

/-- The places between two places hold no element of the kind. -/
def Quiet (kind : α → Bool) (xs : List α) (i j : Nat) : Prop := ∀ k, i < k → k < j → ¬At kind xs k

/-- A question, and an answer that follows it with neither between them. -/
structure Follows (xs : List α) (i j : Nat) : Prop where
  before : i < j
  asked : At asks xs i
  answered : At answers xs j
  quiet : Quiet asks xs i j ∧ Quiet answers xs i j

/-- A question that nothing has answered, the last there is. -/
structure Open (xs : List α) (i : Nat) : Prop where
  asked : At asks xs i
  quiet : Quiet asks xs i xs.length ∧ Quiet answers xs i xs.length

variable {asks answers} {xs : List α} {i j : Nat}

theorem At.lt {kind : α → Bool} (h : At kind xs i) : i < xs.length := by
  obtain ⟨x, hx, -⟩ := h
  exact (List.getElem?_eq_some_iff.mp hx).1

/-- In a list with one more element the places are the old ones and the last. -/
theorem at_concat_iff {kind : α → Bool} {x : α} : At kind (xs ++ [x]) i ↔ At kind xs i ∨ i = xs.length ∧ kind x = true := by
  unfold At
  rcases Nat.lt_trichotomy i xs.length with hlt | heq | hgt
  · rw [List.getElem?_append_left hlt]
    constructor
    · exact Or.inl
    · rintro (h | ⟨h, -⟩)
      · exact h
      · omega
  · subst heq
    simp
  · rw [List.getElem?_eq_none (by simp; omega), List.getElem?_eq_none (by omega)]
    simp
    omega

theorem quiet_concat_of_le {kind : α → Bool} {x : α} (h : j ≤ xs.length) : Quiet kind (xs ++ [x]) i j ↔ Quiet kind xs i j := by
  unfold Quiet
  refine forall_congr' fun k => forall_congr' fun _ => forall_congr' fun hk => ?_
  rw [at_concat_iff]
  constructor
  · exact fun hnone hat => hnone (Or.inl hat)
  · rintro hnone (hat | ⟨rfl, -⟩)
    · exact hnone hat
    · omega

/-- The places behind one hold none of a kind exactly if they did not and the new element is none. -/
theorem quiet_concat_end {kind : α → Bool} {x : α} (h : i < xs.length) :
    Quiet kind (xs ++ [x]) i (xs ++ [x]).length ↔ Quiet kind xs i xs.length ∧ kind x = false := by
  constructor
  · intro hquiet
    refine ⟨fun k hik hk hat => hquiet k hik (by simp; omega) (at_concat_iff.mpr (Or.inl hat)), ?_⟩
    rw [← Bool.not_eq_true]
    exact fun hx => hquiet xs.length h (by simp) (at_concat_iff.mpr (Or.inr ⟨rfl, hx⟩))
  · rintro ⟨hquiet, hx⟩ k hik hk hat
    rcases at_concat_iff.mp hat with hat | ⟨-, hx'⟩
    · exact hquiet k hik hat.lt hat
    · rw [hx] at hx'
      cases hx'

theorem open_concat_iff {x : α} :
    Open asks answers (xs ++ [x]) i ↔
      (i = xs.length ∧ asks x = true) ∨ (Open asks answers xs i ∧ asks x = false ∧ answers x = false) := by
  constructor
  · rintro ⟨hasked, hasks, hanswers⟩
    rcases at_concat_iff.mp hasked with hat | hlast
    · rw [quiet_concat_end hat.lt] at hasks hanswers
      exact Or.inr ⟨⟨hat, hasks.1, hanswers.1⟩, hasks.2, hanswers.2⟩
    · exact Or.inl hlast
  · rintro (⟨rfl, hx⟩ | ⟨⟨hat, hasks, hanswers⟩, hxa, hxn⟩)
    · have hnone : ∀ kind : α → Bool, Quiet kind (xs ++ [x]) xs.length (xs ++ [x]).length := by
        intro kind k hk hlt
        simp at hlt
        omega
      exact ⟨at_concat_iff.mpr (Or.inr ⟨rfl, hx⟩), hnone asks, hnone answers⟩
    · exact ⟨at_concat_iff.mpr (Or.inl hat), (quiet_concat_end hat.lt).mpr ⟨hasks, hxa⟩, (quiet_concat_end hat.lt).mpr ⟨hanswers, hxn⟩⟩

theorem follows_concat_iff {x : α} :
    Follows asks answers (xs ++ [x]) i j ↔
      Follows asks answers xs i j ∨ (j = xs.length ∧ answers x = true ∧ Open asks answers xs i) := by
  constructor
  · rintro ⟨hij, hasked, hanswered, hasks, hanswers⟩
    rcases at_concat_iff.mp hanswered with hat | ⟨rfl, hx⟩
    · have hle : j ≤ xs.length := Nat.le_of_lt hat.lt
      rw [quiet_concat_of_le hle] at hasks hanswers
      rcases at_concat_iff.mp hasked with hask | ⟨rfl, -⟩
      · exact Or.inl ⟨hij, hask, hat, hasks, hanswers⟩
      · omega
    · rw [quiet_concat_of_le (Nat.le_refl _)] at hasks hanswers
      rcases at_concat_iff.mp hasked with hask | ⟨hi, -⟩
      · exact Or.inr ⟨rfl, hx, hask, hasks, hanswers⟩
      · omega
  · rintro (⟨hij, hasked, hanswered, hasks, hanswers⟩ | ⟨rfl, hx, hasked, hasks, hanswers⟩)
    · have hle : j ≤ xs.length := Nat.le_of_lt hanswered.lt
      exact ⟨hij, at_concat_iff.mpr (Or.inl hasked), at_concat_iff.mpr (Or.inl hanswered), (quiet_concat_of_le hle).mpr hasks,
        (quiet_concat_of_le hle).mpr hanswers⟩
    · exact ⟨hasked.lt, at_concat_iff.mpr (Or.inl hasked), at_concat_iff.mpr (Or.inr ⟨rfl, hx⟩),
        (quiet_concat_of_le (Nat.le_refl _)).mpr hasks, (quiet_concat_of_le (Nat.le_refl _)).mpr hanswers⟩

/-- What a scan of a list says of the list. -/
structure Scanned (asks answers : α → Bool) (xs : List α) (s : Scan) : Prop where
  seen : s.seen = xs.length
  pending : ∀ i, s.pending = some i ↔ Open asks answers xs i
  pairs : ∀ i j, (i, j) ∈ s.pairs ↔ Follows asks answers xs i j
  ordered : s.pairs.Pairwise (fun p q => p.2 < q.1)

theorem Scanned.nil : Scanned asks answers ([] : List α) {} where
  seen := rfl
  pending i := by
    constructor
    · intro h
      cases h
    · exact fun h => absurd h.asked.lt (by simp)
  pairs i j := by
    constructor
    · intro h
      cases h
    · exact fun h => absurd h.asked.lt (by simp)
  ordered := .nil

/-- No element is both a question and an answer. -/
def Apart (asks answers : α → Bool) : Prop := ∀ x, ¬(asks x = true ∧ answers x = true)

theorem Scanned.next {s : Scan} (h : Scanned asks answers xs s) (hone : Apart asks answers) (x : α) :
    Scanned asks answers (xs ++ [x]) (s.next asks answers x) := by
  have hdone : ∀ p ∈ s.pairs, p.2 < xs.length := fun p hp => ((h.pairs p.1 p.2).mp hp).answered.lt
  unfold Scan.next
  by_cases hask : asks x = true
  · have hanswer : answers x = false := by simpa [hask] using hone x
    rw [if_pos hask]
    refine ⟨by simp [h.seen], fun i => ?_, fun i j => ?_, h.ordered⟩
    · rw [open_concat_iff, h.seen, Option.some_inj]
      simp [hask, eq_comm (a := i)]
    · rw [follows_concat_iff, ← h.pairs]
      simp [hanswer]
  · have hask' : asks x = false := by simpa using hask
    rw [if_neg hask]
    cases hpending : s.pending with
    | none =>
      have hnone : ∀ i, ¬Open asks answers xs i := fun i hopen => by
        rw [← h.pending, hpending] at hopen
        cases hopen
      refine ⟨by simp [h.seen], fun i => ?_, fun i j => ?_, h.ordered⟩
      · rw [open_concat_iff]
        simp [hask', hnone i]
      · rw [follows_concat_iff, ← h.pairs]
        simp [hnone i]
    | some q =>
      have hopen : ∀ i, Open asks answers xs i ↔ i = q := fun i => by
        rw [← h.pending, hpending]
        simp [eq_comm]
      by_cases hanswer : answers x = true
      · dsimp only
        rw [if_pos hanswer]
        refine ⟨by simp [h.seen], fun i => ?_, fun i j => ?_, ?_⟩
        · rw [open_concat_iff]
          simp [hask', hanswer]
        · rw [follows_concat_iff, hopen, ← h.pairs]
          simp [hanswer, h.seen, and_comm]
        · rw [List.pairwise_append]
          refine ⟨h.ordered, List.pairwise_singleton _ _, fun p hp r hr => ?_⟩
          obtain rfl := List.mem_singleton.mp hr
          have hq : Open asks answers xs q := (hopen q).mpr rfl
          have hfollows := (h.pairs p.1 p.2).mp hp
          -- the answer of an earlier pair does not stand behind the open question
          rcases Nat.lt_trichotomy p.2 q with hlt | heq | hgt
          · exact hlt
          · obtain ⟨y, hy, hanswers⟩ := hfollows.answered
            obtain ⟨z, hz, hasks⟩ := hq.asked
            rw [heq, hz] at hy
            cases hy
            exact absurd ⟨hasks, hanswers⟩ (hone _)
          · exact absurd hfollows.answered (hq.quiet.2 p.2 hgt (hdone p hp))
      · have hanswer' : answers x = false := by simpa using hanswer
        dsimp only
        rw [if_neg hanswer]
        refine ⟨by simp [h.seen], fun i => ?_, fun i j => ?_, h.ordered⟩
        · rw [open_concat_iff, hopen]
          simp [hask', hanswer', eq_comm (a := i)]
        · rw [follows_concat_iff, ← h.pairs]
          simp [hanswer']

theorem scan_concat (xs : List α) (x : α) : scan asks answers (xs ++ [x]) = (scan asks answers xs).next asks answers x := by
  simp [scan]

/-- A scan of a list says what it is to say of it. -/
theorem scanned_scan (hone : Apart asks answers) (xs : List α) : Scanned asks answers xs (scan asks answers xs) := by
  induction xs using List.reverseRecOn with
  | nil => exact .nil
  | append_singleton xs x ih =>
    rw [scan_concat]
    exact ih.next hone x

/-- The pairs are those of a question and the answer that follows it. -/
theorem mem_pairs_iff (hone : Apart asks answers) : (i, j) ∈ (scan asks answers xs).pairs ↔ Follows asks answers xs i j :=
  (scanned_scan hone xs).pairs i j

/-- A question is held exactly if one has no answer behind it. -/
theorem pending_isSome_iff (hone : Apart asks answers) :
    (scan asks answers xs).pending.isSome = true ↔ ∃ i, At asks xs i ∧ Quiet answers xs i xs.length := by
  rw [Option.isSome_iff_exists]
  constructor
  · rintro ⟨i, hi⟩
    have hopen := ((scanned_scan hone xs).pending i).mp hi
    exact ⟨i, hopen.asked, hopen.quiet.2⟩
  · rintro ⟨i, hasked, hquiet⟩
    induction xs using List.reverseRecOn with
    | nil => exact absurd hasked.lt (by simp)
    | append_singleton xs x ih =>
      rcases at_concat_iff.mp hasked with hat | ⟨rfl, hx⟩
      · rw [quiet_concat_end hat.lt] at hquiet
        obtain ⟨q, hq⟩ := ih hat hquiet.1
        have hopen := ((scanned_scan hone xs).pending q).mp hq
        cases hask : asks x with
        | true => exact ⟨_, ((scanned_scan hone _).pending xs.length).mpr (open_concat_iff.mpr (Or.inl ⟨rfl, hask⟩))⟩
        | false => exact ⟨_, ((scanned_scan hone _).pending q).mpr (open_concat_iff.mpr (Or.inr ⟨hopen, hask, hquiet.2⟩))⟩
      · exact ⟨_, ((scanned_scan hone _).pending xs.length).mpr (open_concat_iff.mpr (Or.inl ⟨rfl, hx⟩))⟩

end Exchange
