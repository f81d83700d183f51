import Mathlib.Data.List.Nodup
import Mathlib.Data.List.Sort

/-!
# Keyed tables

A table is a list of rows whose keys differ; the type carries the proof. `upsert` is `INSERT OR REPLACE`: the row takes the place
of the one with its key, if there is one. `ordered` is a query with `ORDER BY` on a numeric column. What a table holds after some
upserts is said by membership; two ordered answers with distinct columns are equal when they have the same members.
-/

/-- Rows with distinct keys. -/
structure Table {ρ κ : Type*} (key : ρ → κ) where
  rows : List ρ
  unique : (rows.map key).Nodup

namespace Table

variable {ρ κ : Type*} {key : ρ → κ}

/-- The table without rows. -/
def empty : Table key := ⟨[], List.nodup_nil⟩

variable [DecidableEq κ]

/-- The first row with the key of a row is that row, where the keys differ. -/
theorem find?_of_nodup {rows : List ρ} (h : (rows.map key).Nodup) {x : ρ} (hx : x ∈ rows) :
    rows.find? (fun y => key y == key x) = some x := by
  cases hfind : rows.find? (fun y => key y == key x) with
  | none =>
    have hself := List.find?_eq_none.mp hfind x hx
    simp at hself
  | some y =>
    have hkey : key y = key x := by simpa using List.find?_some hfind
    rw [List.inj_on_of_nodup_map h (List.mem_of_find?_eq_some hfind) hx hkey]

/-- `INSERT OR REPLACE`. -/
def upsert (t : Table key) (r : ρ) : Table key where
  rows := t.rows.filter (fun x => key x ≠ key r) ++ [r]
  unique := by
    rw [List.map_append, List.nodup_append']
    refine ⟨t.unique.sublist (List.filter_sublist.map key), List.nodup_singleton _, ?_⟩
    intro k hk hr
    obtain ⟨x, hx, rfl⟩ := List.mem_map.mp hk
    have hne := (List.mem_filter.mp hx).2
    simp only [List.map_cons, List.map_nil, List.mem_singleton] at hr
    simp [hr] at hne

/-- `INSERT OR REPLACE` of some rows, one after another. -/
def upsertAll (t : Table key) (rs : List ρ) : Table key := rs.foldl upsert t

/-- After an upsert the table holds the new row, and the old ones with other keys. -/
theorem mem_upsert {t : Table key} {r x : ρ} : x ∈ (t.upsert r).rows ↔ x = r ∨ (x ∈ t.rows ∧ key x ≠ key r) := by
  simp only [upsert, List.mem_append, List.mem_filter, decide_eq_true_eq, List.mem_singleton]
  exact or_comm

/-- After upserts of rows with distinct keys the table holds all of them, and the old ones with other keys. -/
theorem mem_upsertAll {t : Table key} {rs : List ρ} (hrs : (rs.map key).Nodup) {x : ρ} :
    x ∈ (t.upsertAll rs).rows ↔ x ∈ rs ∨ (x ∈ t.rows ∧ ∀ r ∈ rs, key x ≠ key r) := by
  induction rs generalizing t with
  | nil => simp [upsertAll]
  | cons r rs ih =>
    obtain ⟨hr, hrs⟩ := List.nodup_cons.mp hrs
    have hstep : t.upsertAll (r :: rs) = (t.upsert r).upsertAll rs := rfl
    rw [hstep, ih hrs, mem_upsert]
    constructor
    · rintro (hx | ⟨rfl | ⟨hx, hne⟩, hrest⟩)
      · exact Or.inl (List.mem_cons_of_mem r hx)
      · exact Or.inl List.mem_cons_self
      · refine Or.inr ⟨hx, fun r' hr' => ?_⟩
        rcases List.mem_cons.mp hr' with rfl | hr'
        · exact hne
        · exact hrest r' hr'
    · rintro (hx | ⟨hx, hne⟩)
      · rcases List.mem_cons.mp hx with rfl | hx
        · refine Or.inr ⟨Or.inl rfl, fun r' hr' heq => ?_⟩
          exact hr (heq ▸ List.mem_map_of_mem hr')
        · exact Or.inl hx
      · exact Or.inr ⟨Or.inr ⟨hx, hne r List.mem_cons_self⟩, fun r' hr' => hne r' (List.mem_cons_of_mem r hr')⟩

/-- The row under a key. -/
def find? (t : Table key) (k : κ) : Option ρ := t.rows.find? (fun x => key x = k)

/-- The row under a key is the row of the table with that key. -/
theorem find?_eq_some {t : Table key} {k : κ} {x : ρ} : t.find? k = some x ↔ x ∈ t.rows ∧ key x = k := by
  constructor
  · intro h
    exact ⟨List.mem_of_find?_eq_some h, by simpa using List.find?_some h⟩
  · rintro ⟨hx, rfl⟩
    cases hfind : t.find? (key x) with
    | none =>
      have := List.find?_eq_none.mp hfind x hx
      simp at this
    | some y =>
      have hy : y ∈ t.rows := List.mem_of_find?_eq_some hfind
      have hkey : key y = key x := by simpa using List.find?_some hfind
      rw [List.inj_on_of_nodup_map t.unique hy hx hkey]

/-- `DELETE` of the row under a key. -/
def delete (t : Table key) (k : κ) : Table key where
  rows := t.rows.filter (fun x => key x ≠ k)
  unique := t.unique.sublist (List.filter_sublist.map key)

/-- After an upsert its key has the new row, and the other keys what they had. -/
theorem find?_upsert (t : Table key) (r : ρ) (k : κ) : (t.upsert r).find? k = if k = key r then some r else t.find? k := by
  refine Option.ext (fun x => ?_)
  rw [find?_eq_some, mem_upsert]
  by_cases hk : k = key r
  · subst hk
    rw [if_pos rfl]
    constructor
    · rintro ⟨rfl | ⟨-, hne⟩, hkey⟩
      · rfl
      · exact absurd hkey hne
    · intro h
      cases h
      exact ⟨Or.inl rfl, rfl⟩
  · rw [if_neg hk, find?_eq_some]
    constructor
    · rintro ⟨rfl | ⟨hx, -⟩, hkey⟩
      · exact absurd hkey.symm hk
      · exact ⟨hx, hkey⟩
    · rintro ⟨hx, rfl⟩
      exact ⟨Or.inr ⟨hx, hk⟩, rfl⟩

/-- After a delete its key has no row, and the other keys what they had. -/
theorem find?_delete (t : Table key) (k k' : κ) : (t.delete k).find? k' = if k' = k then none else t.find? k' := by
  refine Option.ext (fun x => ?_)
  rw [find?_eq_some]
  by_cases hk : k' = k
  · subst hk
    simp [delete]
  · rw [if_neg hk, find?_eq_some]
    constructor
    · rintro ⟨hx, hkey⟩
      exact ⟨(List.mem_filter.mp hx).1, hkey⟩
    · rintro ⟨hx, rfl⟩
      exact ⟨List.mem_filter.mpr ⟨hx, by simpa using hk⟩, rfl⟩

/-- The table of the rows that satisfy a condition. -/
def restrict (t : Table key) (p : ρ → Bool) : Table key where
  rows := t.rows.filter p
  unique := t.unique.sublist (List.filter_sublist.map key)

/-- Upserts of rows that satisfy the condition may be made before or after. -/
theorem restrict_upsert (t : Table key) {p : ρ → Bool} {r : ρ} (hr : p r = true) :
    (t.upsert r).restrict p = (t.restrict p).upsert r := by
  have hrows : ((t.upsert r).restrict p).rows = ((t.restrict p).upsert r).rows := by
    simp only [restrict, upsert, List.filter_append, List.filter_filter, List.filter_cons, hr, if_true, List.filter_nil, Bool.and_comm]
  cases hleft : (t.upsert r).restrict p
  cases hright : (t.restrict p).upsert r
  rw [hleft, hright] at hrows
  cases hrows
  rfl

theorem restrict_upsertAll (t : Table key) {p : ρ → Bool} {rs : List ρ} (hrs : ∀ r ∈ rs, p r = true) :
    (t.upsertAll rs).restrict p = (t.restrict p).upsertAll rs := by
  induction rs generalizing t with
  | nil => rfl
  | cons r rs ih =>
    have hrest := ih (t.upsert r) (fun r' hr' => hrs r' (List.mem_cons_of_mem r hr'))
    rw [restrict_upsert t (hrs r List.mem_cons_self)] at hrest
    exact hrest

omit [DecidableEq κ] in
/-- The rows of a table with distinct keys are distinct. -/
theorem nodup_rows (t : Table key) : t.rows.Nodup := t.unique.of_map

/-! ## `ORDER BY` -/

/-- The rows in the order of a column. -/
def ordered (column : ρ → Nat) (rows : List ρ) : List ρ := rows.insertionSort (fun x y => column x ≤ column y)

theorem mem_ordered {column : ρ → Nat} {rows : List ρ} {x : ρ} : x ∈ ordered column rows ↔ x ∈ rows :=
  List.mem_insertionSort _

theorem pairwise_ordered (column : ρ → Nat) (rows : List ρ) :
    (ordered column rows).Pairwise (fun x y => column x ≤ column y) := by
  have htotal : Std.Total (fun x y : ρ => column x ≤ column y) := ⟨fun x y => Nat.le_total _ _⟩
  have htrans : IsTrans ρ (fun x y => column x ≤ column y) := ⟨fun _ _ _ => Nat.le_trans⟩
  exact List.pairwise_insertionSort _ rows

/-- The column increases strictly when it has no value twice. -/
theorem ordered_increasing {column : ρ → Nat} {rows : List ρ} (h : (rows.map column).Nodup) :
    (ordered column rows).Pairwise (fun x y => column x < column y) := by
  have hnodup : ((ordered column rows).map column).Nodup :=
    (((List.perm_insertionSort _ rows).map column).nodup_iff).mpr h
  exact List.Pairwise.imp₂ (fun _ _ hle hne => Nat.lt_of_le_of_ne hle hne) (pairwise_ordered column rows)
    (List.pairwise_map.mp hnodup)

/-- An answer in order, whose column has no value twice, is what `ORDER BY` gives for exactly its rows. -/
theorem ordered_eq_iff {column : ρ → Nat} {rows answer : List ρ} (hrows : rows.Nodup)
    (hanswer : answer.Pairwise (fun x y => column x < column y)) :
    ordered column rows = answer ↔ ∀ x, x ∈ rows ↔ x ∈ answer := by
  constructor
  · rintro rfl x
    exact mem_ordered.symm
  · intro hmem
    have hnodup : answer.Nodup := hanswer.imp (fun hlt heq => by rw [heq] at hlt; exact Nat.lt_irrefl _ hlt)
    have hperm : rows.Perm answer := (List.perm_ext_iff_of_nodup hrows hnodup).mpr hmem
    have hle : answer.Pairwise (fun x y => column x ≤ column y) := hanswer.imp Nat.le_of_lt
    refine List.Perm.eq_of_pairwise ?_ (pairwise_ordered column rows) hle ((List.perm_insertionSort _ rows).trans hperm)
    intro x y hx hy hxy hyx
    have hdistinct : (answer.map column).Nodup :=
      (List.pairwise_map.mpr hanswer).imp (fun hlt heq => by rw [heq] at hlt; exact Nat.lt_irrefl _ hlt)
    exact List.inj_on_of_nodup_map hdistinct ((hmem x).mp (mem_ordered.mp hx)) hy (Nat.le_antisymm hxy hyx)

/-- Reading the rows of an answer keeps its order, when what is read has the same column. -/
theorem map_ordered {σ : Type*} (column : ρ → Nat) {column' : σ → Nat} {f : ρ → σ} (hf : ∀ x, column' (f x) = column x)
    (rows : List ρ) : (ordered column rows).map f = ordered column' (rows.map f) := by
  unfold ordered
  refine List.map_insertionSort _ _ f rows (fun x _ y _ => ?_)
  rw [hf, hf]

end Table
