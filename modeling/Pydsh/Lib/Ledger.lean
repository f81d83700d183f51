import Mathlib.Data.List.Induction
import Mathlib.Data.List.Sort
import Mathlib.Logic.Function.Basic

/-!
# Accounts kept under keys

A stream of words, each said under a key, where a key is opened by the first word that finds it closed: `close` closes one key, and
`closeAll` whatever is open. `spans` says from the stream alone what belongs together: for every opening, in order, all that is said
under its key until it is closed (`lifetime`). `put` keeps the same accounts one word at a time, which is `run_eq_spans`. The other
lemmas are for a program that keeps its open accounts apart from its closed ones, and closes them out of order: what `put` does to
those that are live (`live`) and to those that have a result (`results`), and that a program that sorts its results by their
openings has them as the accounts are (`sorted_results`).
-/

namespace Ledger

variable {κ α β : Type*} [DecidableEq κ]

/-- A word under a key, the end of a key, the end of all keys. -/
inductive Op (κ α : Type*) where
  | tell (k : κ) (x : α)
  | close (k : κ)
  | closeAll

/-- An account is open, closed under its own key, or closed with all. -/
inductive Status where
  | live | closed | swept
  deriving DecidableEq

/-- What was said under a key since it was opened. -/
structure Entry (κ α : Type*) where
  key : κ
  told : List α
  status : Status := .live

/-! ## From the stream alone -/

/-- What is said under a key until it is closed, and how it is closed. -/
def lifetime (k : κ) : List (Op κ α) → List α × Status
  | [] => ([], .live)
  | .tell k' x :: ops => if k' = k then (x :: (lifetime k ops).1, (lifetime k ops).2) else lifetime k ops
  | .close k' :: ops => if k' = k then ([], .closed) else lifetime k ops
  | .closeAll :: _ => ([], .swept)

/-- The accounts that are opened, in order, where some keys are open before. -/
def spans (opened : κ → Bool) : List (Op κ α) → List (Entry κ α)
  | [] => []
  | .tell k x :: ops =>
    if opened k then spans opened ops
    else ⟨k, x :: (lifetime k ops).1, (lifetime k ops).2⟩ :: spans (Function.update opened k true) ops
  | .close k :: ops => spans (Function.update opened k false) ops
  | .closeAll :: ops => spans (fun _ => false) ops

/-! ## One word at a time -/

/-- An account is open under a key. -/
def Entry.isLive (e : Entry κ α) (k : κ) : Bool := e.status = .live && e.key = k

/-- What an account becomes with an operation. -/
def Entry.hear (e : Entry κ α) : Op κ α → Entry κ α
  | .tell k x => if e.isLive k then { e with told := e.told ++ [x] } else e
  | .close k => if e.isLive k then { e with status := .closed } else e
  | .closeAll => if e.status = .live then { e with status := .swept } else e

/-- A key is open. -/
def isOpen (L : List (Entry κ α)) (k : κ) : Bool := L.any (fun e => e.isLive k)

/-- The account that an operation opens. -/
def opening (L : List (Entry κ α)) : Op κ α → List (Entry κ α)
  | .tell k x => if isOpen L k then [] else [⟨k, [x], .live⟩]
  | _ => []

/-- The accounts with one more operation. -/
def put (L : List (Entry κ α)) (op : Op κ α) : List (Entry κ α) := L.map (fun e => e.hear op) ++ opening L op

/-- An account with all that the rest of the stream brings for it. -/
def Entry.extend (ops : List (Op κ α)) (e : Entry κ α) : Entry κ α :=
  if e.status = .live then ⟨e.key, e.told ++ (lifetime e.key ops).1, (lifetime e.key ops).2⟩ else e

theorem Entry.extend_cons (op : Op κ α) (ops : List (Op κ α)) (e : Entry κ α) : (e.hear op).extend ops = e.extend (op :: ops) := by
  obtain ⟨key, told, status⟩ := e
  by_cases hlive : status = .live
  · subst hlive
    cases op with
    | tell k x => by_cases hk : key = k <;> simp [hear, isLive, extend, lifetime, hk, eq_comm]
    | close k => by_cases hk : key = k <;> simp [hear, isLive, extend, lifetime, hk, eq_comm]
    | closeAll => simp [hear, extend, lifetime]
  · cases op <;> simp [hear, isLive, extend, hlive]

@[simp] theorem Entry.key_hear (e : Entry κ α) (op : Op κ α) : (e.hear op).key = e.key := by
  cases op <;> simp only [hear] <;> split <;> rfl

theorem Entry.status_hear_tell (e : Entry κ α) (k : κ) (x : α) : (e.hear (.tell k x)).status = e.status := by
  simp only [hear]
  split <;> rfl

/-- A word under another key says nothing to an account. -/
theorem Entry.hear_tell_of_ne {e : Entry κ α} {k : κ} (h : e.key ≠ k) (x : α) : e.hear (.tell k x) = e := by
  simp [hear, isLive, h]

theorem Entry.isLive_iff {e : Entry κ α} {k : κ} : e.isLive k = true ↔ e.status = .live ∧ e.key = k := by
  simp [isLive]

theorem isOpen_iff {L : List (Entry κ α)} {k : κ} : isOpen L k = true ↔ ∃ e ∈ L, e.status = .live ∧ e.key = k := by
  simp [isOpen, Entry.isLive_iff]

theorem isOpen_put (L : List (Entry κ α)) (op : Op κ α) (k : κ) :
    isOpen (put L op) k = (isOpen (L.map (fun e => e.hear op)) k || isOpen (opening L op) k) := List.any_append

theorem isOpen_put_tell (L : List (Entry κ α)) (k : κ) (x : α) :
    isOpen (put L (.tell k x)) = Function.update (isOpen L) k true := by
  have hmap : ∀ k', isOpen (L.map (fun e => e.hear (.tell k x))) k' = isOpen L k' := by
    intro k'
    simp [isOpen, List.any_map, Function.comp_def, Entry.isLive, Entry.status_hear_tell]
  funext k'
  rw [isOpen_put, hmap, opening]
  by_cases hk : k' = k
  · subst hk
    cases hopen : isOpen L k'
    · simp [isOpen, Entry.isLive]
    · simp
  · have hne : k ≠ k' := fun h => hk h.symm
    rw [Function.update_of_ne hk]
    cases hopen : isOpen L k <;> simp [isOpen, Entry.isLive, hne]

theorem isOpen_put_close (L : List (Entry κ α)) (k : κ) : isOpen (put L (.close k)) = Function.update (isOpen L) k false := by
  have hmap : ∀ k', (L.map (fun e => e.hear (.close k))).any (fun e => e.isLive k') = L.any (fun e => e.isLive k' && k' ≠ k) := by
    intro k'
    rw [List.any_map]
    refine List.any_congr rfl (fun e => ?_)
    by_cases hlive : e.isLive k = true
    · obtain ⟨hstatus, rfl⟩ := Entry.isLive_iff.mp hlive
      by_cases hk : e.key = k' <;> simp [Entry.hear, Entry.isLive, hstatus, hk]
    · by_cases hk : k' = k
      · subst hk
        simp [Entry.hear, hlive]
      · simp [Entry.hear, hlive, hk]
  funext k'
  by_cases hk : k' = k
  · subst hk
    simp [isOpen, put, opening, hmap]
  · simp [isOpen, put, opening, hmap, hk]

theorem isOpen_put_closeAll (L : List (Entry κ α)) : isOpen (put L .closeAll) = fun _ => false := by
  funext k
  simp only [isOpen, put, opening, List.append_nil, List.any_map, List.any_eq_false, Function.comp]
  intro e _
  by_cases hlive : e.status = .live <;> simp [Entry.hear, Entry.isLive, hlive]

/-- The accounts that are kept one operation at a time are those of the stream. -/
theorem foldl_put (ops : List (Op κ α)) (L : List (Entry κ α)) :
    ops.foldl put L = L.map (Entry.extend ops) ++ spans (isOpen L) ops := by
  induction ops generalizing L with
  | nil =>
    have hsame : ∀ e ∈ L, Entry.extend [] e = e := by
      intro e _
      simp only [Entry.extend, lifetime, List.append_nil]
      split <;> rename_i hlive
      · rw [← hlive]
      · rfl
    simp [spans, List.map_congr_left hsame]
  | cons op ops ih =>
    rw [List.foldl_cons, ih, put, List.map_append, List.map_map]
    have hmap : L.map (Entry.extend ops ∘ fun e => e.hear op) = L.map (Entry.extend (op :: ops)) :=
      List.map_congr_left (fun e _ => Entry.extend_cons op ops e)
    rw [hmap, List.append_assoc]
    congr 1
    cases op with
    | tell k x =>
      rw [← put, isOpen_put_tell]
      cases hopen : isOpen L k with
      | true =>
        have hsame : Function.update (isOpen L) k true = isOpen L := by rw [← hopen, Function.update_eq_self]
        simp [opening, spans, hopen, hsame]
      | false => simp [opening, spans, hopen, Entry.extend]
    | close k =>
      rw [← put, isOpen_put_close]
      simp [opening, spans]
    | closeAll =>
      rw [← put, isOpen_put_closeAll]
      simp [opening, spans]

theorem run_eq_spans (ops : List (Op κ α)) : ops.foldl put [] = spans (fun _ => false) ops := by
  rw [foldl_put]
  rfl

/-! ## Open and closed accounts apart -/

/-- The open accounts, with their numbers. -/
def live (L : List (Entry κ α)) : List (Entry κ α × Nat) := L.zipIdx.filter (fun p => p.1.status = .live)

/-- The results of the accounts that have one, with their numbers. -/
def results (result : Entry κ α → Option β) (L : List (Entry κ α)) : List (Nat × β) :=
  L.zipIdx.filterMap (fun p => (result p.1).map (fun b => (p.2, b)))

/-- No result is there while an account is open. -/
def Closing (result : Entry κ α → Option β) : Prop := ∀ e, e.status = .live → result e = none

omit [DecidableEq κ] in
theorem mem_live {L : List (Entry κ α)} {e : Entry κ α} {i : Nat} : (e, i) ∈ live L ↔ L[i]? = some e ∧ e.status = .live := by
  simp [live, List.mem_zipIdx_iff_getElem?]

theorem isOpen_iff_live {L : List (Entry κ α)} {k : κ} : isOpen L k = true ↔ k ∈ (live L).map (·.1.key) := by
  rw [isOpen_iff, List.mem_map]
  constructor
  · rintro ⟨e, he, hlive, hk⟩
    obtain ⟨i, hi⟩ := List.getElem?_of_mem he
    exact ⟨(e, i), mem_live.mpr ⟨hi, hlive⟩, hk⟩
  · rintro ⟨⟨e, i⟩, he, hk⟩
    obtain ⟨hi, hlive⟩ := mem_live.mp he
    exact ⟨e, List.mem_of_getElem? hi, hlive, hk⟩

/-- The number of an account is that of its opening. -/
theorem length_put (L : List (Entry κ α)) (op : Op κ α) : (put L op).length = L.length + (opening L op).length := by
  simp [put]

/-- What an operation makes of the accounts there are, with their numbers. -/
theorem zipIdx_put (L : List (Entry κ α)) (op : Op κ α) :
    (put L op).zipIdx = L.zipIdx.map (fun p => (p.1.hear op, p.2)) ++ (opening L op).zipIdx L.length := by
  rw [put, List.zipIdx_append, List.zipIdx_map, List.length_map, Nat.zero_add]
  rfl

theorem live_tell (L : List (Entry κ α)) (k : κ) (x : α) : live (put L (.tell k x)) =
    (live L).map (fun p => (p.1.hear (.tell k x), p.2)) ++ (opening L (.tell k x)).zipIdx L.length := by
  have hopened : ((opening L (.tell k x)).zipIdx L.length).filter (fun p => p.1.status = .live) =
      (opening L (.tell k x)).zipIdx L.length := by
    simp only [opening]
    split <;> rfl
  rw [live, zipIdx_put, List.filter_append, hopened, List.filter_map]
  simp [live, Function.comp_def, Entry.status_hear_tell]

theorem live_close (L : List (Entry κ α)) (k : κ) : live (put L (.close k)) = (live L).filter (fun p => p.1.key ≠ k) := by
  have hopened : (opening L (.close k)).zipIdx L.length = [] := rfl
  rw [live, live, zipIdx_put, hopened, List.append_nil, List.filter_map, List.filter_filter, ← List.filterMap_eq_filter,
    List.map_filterMap, ← List.filterMap_eq_filter]
  refine List.filterMap_congr (fun p _ => ?_)
  obtain ⟨⟨key, told, status⟩, i⟩ := p
  by_cases hk : key = k <;> cases status <;> simp [Entry.hear, Entry.isLive, hk, Option.guard]

theorem live_closeAll (L : List (Entry κ α)) : live (put L .closeAll) = [] := by
  rw [List.eq_nil_iff_forall_not_mem]
  rintro ⟨e, i⟩ he
  obtain ⟨hi, hlive⟩ := mem_live.mp he
  have hopen := isOpen_iff.mpr ⟨e, List.mem_of_getElem? hi, hlive, rfl⟩
  rw [isOpen_put_closeAll] at hopen
  cases hopen

theorem nodup_live (ops : List (Op κ α)) : ((live (ops.foldl put [])).map (·.1.key)).Nodup := by
  induction ops using List.reverseRecOn with
  | nil => exact List.nodup_nil
  | append_singleton ops op ih =>
    rw [List.foldl_concat]
    cases op with
    | tell k x =>
      rw [live_tell, List.map_append, List.map_map]
      have hkeys : (live (ops.foldl put [])).map ((fun p => p.1.key) ∘ fun p => (p.1.hear (.tell k x), p.2)) =
          (live (ops.foldl put [])).map (·.1.key) := by
        simp [Function.comp_def]
      rw [hkeys]
      cases hopen : isOpen (ops.foldl put []) k with
      | true => simpa [opening, hopen] using ih
      | false =>
        have hnew : k ∉ (live (ops.foldl put [])).map (·.1.key) := by
          rw [← isOpen_iff_live, hopen]
          exact Bool.false_ne_true
        simp only [opening, hopen, Bool.false_eq_true, if_false, List.zipIdx_singleton, List.map_cons, List.map_nil]
        rw [← List.concat_eq_append]
        exact ih.concat hnew
    | close k =>
      rw [live_close]
      exact ih.sublist (List.filter_sublist.map _)
    | closeAll =>
      rw [live_closeAll]
      exact List.nodup_nil

theorem filter_key_live (ops : List (Op κ α)) (k : κ) :
    (live (ops.foldl put [])).filter (fun p => p.1.key = k) = ((live (ops.foldl put [])).find? (fun p => p.1.key = k)).toList := by
  have hnodup := nodup_live ops
  generalize live (ops.foldl put []) = l at hnodup
  induction l with
  | nil => rfl
  | cons p l ih =>
    rw [List.map_cons, List.nodup_cons] at hnodup
    by_cases hk : p.1.key = k
    · have hnone : l.filter (fun q => q.1.key = k) = [] := by
        rw [List.filter_eq_nil_iff]
        intro q hq hqk
        refine hnodup.1 (List.mem_map.mpr ⟨q, hq, ?_⟩)
        rw [hk]
        simpa using hqk
      simp [hk, hnone]
    · simpa [hk] using ih hnodup.2

/-- What some of the elements of a list turn into comes after what the others were. -/
theorem filterMap_perm {γ δ : Type*} {f g : γ → Option δ} {d : γ → Bool} (l : List γ) (hturned : ∀ x, d x = true → f x = none)
    (hsame : ∀ x, d x = false → g x = f x) : (l.filterMap g).Perm (l.filterMap f ++ (l.filter d).filterMap g) := by
  induction l with
  | nil => exact .nil
  | cons x l ih =>
    cases hx : d x with
    | true =>
      cases hg : g x with
      | none => simpa [hx, hg, hturned x hx] using ih
      | some y =>
        simp only [List.filterMap_cons, hg, hturned x hx, List.filter_cons, hx, if_true]
        exact (ih.cons y).trans List.perm_middle.symm
    | false =>
      cases hf : f x with
      | none => simpa [hx, hsame x hx, hf] using ih
      | some y => simpa [hx, hsame x hx, hf] using ih

section

variable {result : Entry κ α → Option β}

theorem results_tell (hclosing : Closing result) (L : List (Entry κ α)) (k : κ) (x : α) :
    results result (put L (.tell k x)) = results result L := by
  have hhear : ∀ e : Entry κ α, result (e.hear (.tell k x)) = result e := by
    intro e
    cases hlive : e.isLive k with
    | true =>
      have hstatus := (Entry.isLive_iff.mp hlive).1
      rw [hclosing e hstatus, hclosing _ ((e.status_hear_tell k x).trans hstatus)]
    | false => simp [Entry.hear, hlive]
  have hopened : ((opening L (.tell k x)).zipIdx L.length).filterMap (fun p => (result p.1).map (fun b => (p.2, b))) = [] := by
    simp only [opening]
    split
    · rfl
    · simp [hclosing ⟨k, [x], .live⟩ rfl]
  rw [results, zipIdx_put, List.filterMap_append, hopened, List.append_nil, List.filterMap_map]
  simp [results, hhear]

/-- The results after an operation that opens no account: those of the accounts it closes come after those that are there. -/
theorem results_put (hclosing : Closing result) (L : List (Entry κ α)) (op : Op κ α) (closes : Entry κ α → Bool)
    (hopening : opening L op = []) (hlive : ∀ e, closes e = true → e.status = .live)
    (hsame : ∀ e, closes e = false → e.hear op = e) :
    (results result (put L op)).Perm (results result L ++
      ((live L).filter (fun p => closes p.1)).filterMap (fun p => (result (p.1.hear op)).map (fun b => (p.2, b)))) := by
  have hclosed : (live L).filter (fun p => closes p.1) = L.zipIdx.filter (fun p => closes p.1) := by
    rw [live, List.filter_filter]
    refine List.filter_congr (fun p _ => ?_)
    cases hcloses : closes p.1 with
    | true => simp [hlive p.1 hcloses]
    | false => rfl
  rw [hclosed, results, zipIdx_put, hopening, List.zipIdx_nil, List.append_nil, List.filterMap_map]
  refine filterMap_perm L.zipIdx (fun p hp => ?_) (fun p hp => ?_)
  · simp [hclosing p.1 (hlive p.1 hp)]
  · simp [hsame p.1 hp]

/-- An account that is closed under its key has its result after those that are there. -/
theorem results_close (hclosing : Closing result) (L : List (Entry κ α)) (k : κ) :
    (results result (put L (.close k))).Perm (results result L ++
      ((live L).filter (fun p => p.1.key = k)).filterMap
        (fun p => (result { p.1 with status := .closed }).map (fun b => (p.2, b)))) := by
  have hput := results_put hclosing L (.close k) (fun e => e.isLive k) rfl (fun e he => (Entry.isLive_iff.mp he).1)
    (fun e he => by simp [Entry.hear, he])
  have hclosed : (live L).filter (fun p => p.1.isLive k) = (live L).filter (fun p => p.1.key = k) := by
    refine List.filter_congr (fun p hp => ?_)
    simp [Entry.isLive, (mem_live.mp hp).2]
  rw [hclosed] at hput
  refine hput.trans (.of_eq (congrArg _ (List.filterMap_congr (fun p hp => ?_))))
  obtain ⟨hp, hk⟩ := List.mem_filter.mp hp
  have hlive : p.1.isLive k = true := Entry.isLive_iff.mpr ⟨(mem_live.mp hp).2, by simpa using hk⟩
  simp [Entry.hear, hlive]

/-- The accounts that are closed with all have their results after those that are there. -/
theorem results_closeAll (hclosing : Closing result) (L : List (Entry κ α)) :
    (results result (put L .closeAll)).Perm (results result L ++
      (live L).filterMap (fun p => (result { p.1 with status := .swept }).map (fun b => (p.2, b)))) := by
  have hput := results_put hclosing L .closeAll (fun e => e.status = .live) rfl (fun e he => by simpa using he)
    (fun e he => if_neg (by simpa using he))
  have hall : (live L).filter (fun p => p.1.status = .live) = live L := by
    rw [List.filter_eq_self]
    exact fun p hp => by simpa using (mem_live.mp hp).2
  rw [hall] at hput
  refine hput.trans (.of_eq (congrArg _ (List.filterMap_congr (fun p hp => ?_))))
  simp [Entry.hear, (mem_live.mp hp).2]

omit [DecidableEq κ] in
/-- Results that are sorted by the numbers of their accounts are in the order in which these were opened. -/
theorem sorted_results {L : List (Entry κ α)} {rs : List (Nat × β)} (h : rs.Perm (results result L)) :
    (rs.insertionSort (fun x y => x.1 ≤ y.1)).map (·.2) = L.filterMap result := by
  have hnumbered : (results result L).Pairwise (fun x y => x.1 < y.1) := by
    have hzip : L.zipIdx.Pairwise (fun x y => x.2 < y.2) := by
      have hnumbers : (L.zipIdx.map (·.2)).Pairwise (· < ·) := by
        rw [List.zipIdx_map_snd]
        exact List.pairwise_lt_range'
      exact List.pairwise_map.mp hnumbers
    refine List.pairwise_filterMap.mpr (hzip.imp (fun hlt b hb b' hb' => ?_))
    obtain ⟨x, -, rfl⟩ := Option.map_eq_some_iff.mp hb
    obtain ⟨y, -, rfl⟩ := Option.map_eq_some_iff.mp hb'
    exact hlt
  have htotal : Std.Total (fun x y : Nat × β => x.1 ≤ y.1) := ⟨fun x y => Nat.le_total x.1 y.1⟩
  have htrans : IsTrans (Nat × β) (fun x y => x.1 ≤ y.1) := ⟨fun _ _ _ hxy hyz => Nat.le_trans hxy hyz⟩
  have hperm : (rs.insertionSort (fun x y => x.1 ≤ y.1)).Perm (results result L) := (List.perm_insertionSort _ rs).trans h
  have hsorted : rs.insertionSort (fun x y => x.1 ≤ y.1) = results result L := by
    refine List.Perm.eq_of_pairwise ?_ (List.pairwise_insertionSort _ rs) (hnumbered.imp Nat.le_of_lt) hperm
    intro x y hx hy hxy hyx
    have hnumbers : ((results result L).map (·.1)).Nodup := List.pairwise_map.mpr (hnumbered.imp Nat.ne_of_lt)
    exact List.inj_on_of_nodup_map hnumbers (hperm.mem_iff.mp hx) hy (Nat.le_antisymm hxy hyx)
  rw [hsorted, results, List.map_filterMap]
  have hresult : ∀ p : Entry κ α × Nat, ((result p.1).map (fun b => (p.2, b))).map (·.2) = result p.1 := by
    intro p
    cases result p.1 <;> rfl
  have hentries : L.filterMap result = (L.zipIdx.map (·.1)).filterMap result := by rw [List.zipIdx_map_fst]
  rw [hentries, List.filterMap_map]
  exact List.filterMap_congr (fun p _ => hresult p)

end

end Ledger
