import Mathlib.Data.List.Nodup

/-!
# Dicts

A Python dict: entries in the order of their insertion, with distinct keys; the type carries the proof. An assignment to a key
that is there keeps its place. What a dict holds after an operation is said by `get?`.
-/

/-- Entries with distinct keys, in the order of their insertion. -/
structure Dict (κ α : Type*) where
  entries : List (κ × α)
  unique : (entries.map (·.1)).Nodup

namespace Dict

variable {κ α : Type*}

/-- `{}`. -/
def empty : Dict κ α := ⟨[], List.nodup_nil⟩

/-- The entries with every value turned by a partial function of key and value; `none` where it fails on one. -/
def traverseEntries {β : Type*} (f : κ → α → Option β) : List (κ × α) → Option (List (κ × β))
  | [] => some []
  | (k, v) :: entries => (f k v).bind (fun w => (traverseEntries f entries).map (fun rest => (k, w) :: rest))

theorem keys_traverseEntries {β : Type*} {f : κ → α → Option β} {entries : List (κ × α)} {result : List (κ × β)}
    (h : traverseEntries f entries = some result) : result.map (·.1) = entries.map (·.1) := by
  induction entries generalizing result with
  | nil =>
    cases h
    rfl
  | cons entry entries ih =>
    obtain ⟨w, -, h⟩ := Option.bind_eq_some_iff.mp h
    obtain ⟨rest, hrest, rfl⟩ := Option.map_eq_some_iff.mp h
    rw [List.map_cons, List.map_cons, ih hrest]

/-- The dict with every value turned by a partial function of key and value; `none` where it fails on one. -/
def traverse {β : Type*} (f : κ → α → Option β) (d : Dict κ α) : Option (Dict κ β) :=
  match h : traverseEntries f d.entries with
  | some entries => some ⟨entries, (congrArg List.Nodup (keys_traverseEntries h)).mpr d.unique⟩
  | none => none

/-- The dict with every value turned. -/
def mapValues {β : Type*} (f : α → β) (d : Dict κ α) : Dict κ β where
  entries := d.entries.map (fun entry => (entry.1, f entry.2))
  unique := by
    rw [List.map_map]
    exact d.unique

/-- `len(d)`. -/
def size (d : Dict κ α) : Nat := d.entries.length

variable [DecidableEq κ]

/-- `d.get(k)`. -/
def get? (d : Dict κ α) (k : κ) : Option α := (d.entries.find? (fun entry => entry.1 = k)).map (·.2)

/-- `d[k] = v`. -/
def set (d : Dict κ α) (k : κ) (v : α) : Dict κ α :=
  if h : k ∈ d.entries.map (·.1) then
    { entries := d.entries.map (fun entry => if entry.1 = k then (k, v) else entry)
      unique := by
        have hkeys : (d.entries.map (fun entry => if entry.1 = k then (k, v) else entry)).map (·.1) = d.entries.map (·.1) := by
          rw [List.map_map]
          refine List.map_congr_left (fun entry _ => ?_)
          by_cases hk : entry.1 = k <;> simp [hk]
        rw [hkeys]
        exact d.unique }
  else
    { entries := d.entries ++ [(k, v)]
      unique := by
        rw [List.map_append, List.nodup_append']
        exact ⟨d.unique, List.nodup_singleton _, by simpa using h⟩ }

/-- `d.pop(k, None)`. -/
def pop (d : Dict κ α) (k : κ) : Dict κ α where
  entries := d.entries.filter (fun entry => entry.1 ≠ k)
  unique := d.unique.sublist (List.Sublist.map _ List.filter_sublist)

/-- `d.setdefault(k, v)`. -/
def setDefault (d : Dict κ α) (k : κ) (v : α) : Dict κ α := if (d.get? k).isSome then d else d.set k v

@[simp] theorem get?_empty (k : κ) : (empty : Dict κ α).get? k = none := rfl

theorem get?_eq_some {d : Dict κ α} {k : κ} {v : α} : d.get? k = some v ↔ (k, v) ∈ d.entries := by
  constructor
  · intro h
    obtain ⟨⟨k', v'⟩, hfind, rfl⟩ := Option.map_eq_some_iff.mp h
    obtain rfl : k' = k := by simpa using List.find?_some hfind
    exact List.mem_of_find?_eq_some hfind
  · intro h
    cases hfind : d.entries.find? (fun entry => entry.1 = k) with
    | none => simpa using List.find?_eq_none.mp hfind _ h
    | some entry =>
      have hkey : entry.1 = k := by simpa using List.find?_some hfind
      have heq := List.inj_on_of_nodup_map d.unique (List.mem_of_find?_eq_some hfind) h hkey
      simp [get?, hfind, heq]

theorem get?_eq_none {d : Dict κ α} {k : κ} : d.get? k = none ↔ k ∉ d.entries.map (·.1) := by
  constructor
  · intro h hk
    obtain ⟨entry, hentry, rfl⟩ := List.mem_map.mp hk
    rw [get?_eq_some.mpr hentry] at h
    cases h
  · intro h
    cases hget : d.get? k with
    | none => rfl
    | some v => exact absurd (List.mem_map_of_mem (get?_eq_some.mp hget)) h

theorem mem_set {d : Dict κ α} {k k' : κ} {v w : α} :
    (k', w) ∈ (d.set k v).entries ↔ k' = k ∧ w = v ∨ k' ≠ k ∧ (k', w) ∈ d.entries := by
  unfold set
  split
  · rename_i hmem
    simp only [List.mem_map]
    constructor
    · rintro ⟨entry, hentry, heq⟩
      split at heq
      · cases heq
        exact Or.inl ⟨rfl, rfl⟩
      · rename_i hne
        subst heq
        exact Or.inr ⟨hne, hentry⟩
    · rintro (⟨rfl, rfl⟩ | ⟨hne, hentry⟩)
      · obtain ⟨entry, hentry, hkey⟩ := List.mem_map.mp hmem
        exact ⟨entry, hentry, if_pos hkey⟩
      · exact ⟨(k', w), hentry, if_neg hne⟩
  · rename_i hmem
    simp only [List.mem_append, List.mem_singleton, Prod.mk.injEq]
    constructor
    · rintro (hentry | ⟨rfl, rfl⟩)
      · refine Or.inr ⟨?_, hentry⟩
        rintro rfl
        exact hmem (List.mem_map_of_mem hentry)
      · exact Or.inl ⟨rfl, rfl⟩
    · rintro (⟨rfl, rfl⟩ | ⟨-, hentry⟩)
      · exact Or.inr ⟨rfl, rfl⟩
      · exact Or.inl hentry

/-- After an assignment the key has the value, and the other keys what they had. -/
theorem get?_set (d : Dict κ α) (k : κ) (v : α) (k' : κ) : (d.set k v).get? k' = if k' = k then some v else d.get? k' := by
  refine Option.ext (fun w => ?_)
  rw [get?_eq_some, mem_set]
  by_cases hk : k' = k
  · simp [hk, eq_comm]
  · simp [hk, get?_eq_some]

/-- After a `pop` the key has no value, and the other keys what they had. -/
theorem get?_pop (d : Dict κ α) (k k' : κ) : (d.pop k).get? k' = if k' = k then none else d.get? k' := by
  refine Option.ext (fun w => ?_)
  rw [get?_eq_some]
  by_cases hk : k' = k
  · simp [pop, hk]
  · simp [pop, hk, get?_eq_some]

@[simp] theorem get?_set_self (d : Dict κ α) (k : κ) (v : α) : (d.set k v).get? k = some v := by
  rw [get?_set, if_pos rfl]

@[simp] theorem get?_pop_self (d : Dict κ α) (k : κ) : (d.pop k).get? k = none := by
  rw [get?_pop, if_pos rfl]

theorem get?_setDefault (d : Dict κ α) (k : κ) (v : α) (k' : κ) :
    (d.setDefault k v).get? k' = if k' = k then some ((d.get? k).getD v) else d.get? k' := by
  unfold setDefault
  split
  · rename_i hsome
    obtain ⟨w, hw⟩ := Option.isSome_iff_exists.mp hsome
    by_cases hk : k' = k
    · subst hk
      simp [hw]
    · simp [hk]
  · rename_i hnone
    have hnone : d.get? k = none := by simpa using hnone
    rw [get?_set, hnone]
    rfl

theorem find?_traverseEntries {β : Type*} {f : κ → α → Option β} {entries : List (κ × α)} {result : List (κ × β)}
    (h : traverseEntries f entries = some result) (k : κ) :
    (result.find? (fun entry => entry.1 = k)).map (·.2) = ((entries.find? (fun entry => entry.1 = k)).map (·.2)).bind (f k) := by
  induction entries generalizing result with
  | nil =>
    cases h
    rfl
  | cons entry entries ih =>
    obtain ⟨w, hw, h⟩ := Option.bind_eq_some_iff.mp h
    obtain ⟨rest, hrest, rfl⟩ := Option.map_eq_some_iff.mp h
    by_cases hk : entry.1 = k
    · subst hk
      simp [hw]
    · simpa [hk] using ih hrest

theorem get?_mapValues {β : Type*} (f : α → β) (d : Dict κ α) (k : κ) : (d.mapValues f).get? k = (d.get? k).map f := by
  change ((d.entries.map (fun entry => (entry.1, f entry.2))).find? _).map _ = ((d.entries.find? _).map _).map _
  induction d.entries with
  | nil => rfl
  | cons entry entries ih => by_cases hk : entry.1 = k <;> simp_all

/-- A key of the turned dict has the turned value. -/
theorem get?_traverse {β : Type*} {f : κ → α → Option β} {d : Dict κ α} {d' : Dict κ β} (h : d.traverse f = some d') (k : κ) :
    d'.get? k = (d.get? k).bind (f k) := by
  unfold traverse at h
  split at h
  · rename_i entries hentries
    cases h
    exact find?_traverseEntries hentries k
  · cases h

omit [DecidableEq κ] in
theorem traverseEntries_isSome {β : Type*} {f : κ → α → Option β} {entries : List (κ × α)} :
    (traverseEntries f entries).isSome ↔ ∀ entry ∈ entries, (f entry.1 entry.2).isSome := by
  induction entries with
  | nil => simp [traverseEntries]
  | cons entry entries ih =>
    rw [List.forall_mem_cons, ← ih]
    simp only [traverseEntries]
    cases f entry.1 entry.2 <;> cases traverseEntries f entries <;> simp

/-- A dict can be turned when each of its values can. -/
theorem traverse_isSome {β : Type*} {f : κ → α → Option β} {d : Dict κ α} :
    (d.traverse f).isSome ↔ ∀ k v, d.get? k = some v → (f k v).isSome := by
  have hentries : (d.traverse f).isSome ↔ (traverseEntries f d.entries).isSome := by
    unfold traverse
    split <;> simp_all
  rw [hentries, traverseEntries_isSome]
  constructor
  · intro h k v hget
    exact h (k, v) (get?_eq_some.mp hget)
  · intro h entry hentry
    exact h entry.1 entry.2 (get?_eq_some.mpr hentry)

theorem get?_set_of_ne (d : Dict κ α) {k k' : κ} (v : α) (h : k' ≠ k) : (d.set k v).get? k' = d.get? k' := by
  rw [get?_set, if_neg h]

theorem get?_pop_of_ne (d : Dict κ α) {k k' : κ} (h : k' ≠ k) : (d.pop k).get? k' = d.get? k' := by
  rw [get?_pop, if_neg h]

/-! ## Assignments one after another -/

omit [DecidableEq κ] in
theorem eq_of_entries {d e : Dict κ α} (h : d.entries = e.entries) : d = e := by
  cases d
  cases e
  cases h
  rfl

theorem entries_set_there {d : Dict κ α} {k : κ} (h : k ∈ d.entries.map (·.1)) (v : α) :
    (d.set k v).entries = d.entries.map (fun entry => if entry.1 = k then (k, v) else entry) := by
  rw [set, dif_pos h]

theorem entries_set_new {d : Dict κ α} {k : κ} (h : k ∉ d.entries.map (·.1)) (v : α) :
    (d.set k v).entries = d.entries ++ [(k, v)] := by
  rw [set, dif_neg h]

omit [DecidableEq κ] in
theorem keys_mapValues {β : Type*} (d : Dict κ α) (f : α → β) : (d.mapValues f).entries.map (·.1) = d.entries.map (·.1) :=
  List.map_map ..

/-- The second assignment to a key is the one that stays. -/
theorem set_set (d : Dict κ α) (k : κ) (v w : α) : (d.set k v).set k w = d.set k w := by
  have hmem : k ∈ (d.set k v).entries.map (·.1) := List.mem_map_of_mem (get?_eq_some.mp (get?_set_self d k v))
  apply eq_of_entries
  by_cases hk : k ∈ d.entries.map (·.1)
  · rw [entries_set_there hmem, entries_set_there hk, entries_set_there hk, List.map_map]
    refine List.map_congr_left (fun entry _ => ?_)
    by_cases heq : entry.1 = k <;> simp [heq]
  · have hother : d.entries.map (fun entry => if entry.1 = k then (k, w) else entry) = d.entries := by
      refine (List.map_congr_left (fun entry hentry => if_neg ?_)).trans (List.map_id _)
      rintro rfl
      exact hk (List.mem_map_of_mem hentry)
    rw [entries_set_there hmem, entries_set_new hk, entries_set_new hk, List.map_append, hother]
    simp

theorem get?_foldl_set (ks : List κ) (v : α) (d : Dict κ α) (k : κ) :
    (ks.foldl (fun d key => d.set key v) d).get? k = if k ∈ ks then some v else d.get? k := by
  induction ks generalizing d with
  | nil => rfl
  | cons key ks ih =>
    rw [List.foldl_cons, ih, get?_set]
    by_cases hkeys : k ∈ ks
    · rw [if_pos hkeys, if_pos (List.mem_cons_of_mem key hkeys)]
    · rw [if_neg hkeys]
      by_cases hkey : k = key
      · rw [if_pos hkey, if_pos (hkey ▸ List.mem_cons_self)]
      · rw [if_neg hkey, if_neg (fun hmem => (List.mem_cons.mp hmem).elim hkey hkeys)]

/-- The values are turned before an assignment, or after it with the new one. -/
theorem mapValues_set {β : Type*} (d : Dict κ α) (f : α → β) (k : κ) (v : α) :
    (d.set k v).mapValues f = (d.mapValues f).set k (f v) := by
  have hkeys : k ∈ (d.mapValues f).entries.map (·.1) ↔ k ∈ d.entries.map (·.1) := by rw [keys_mapValues]
  apply eq_of_entries
  by_cases hk : k ∈ d.entries.map (·.1)
  · have hset : ((d.set k v).mapValues f).entries = (d.set k v).entries.map (fun entry => (entry.1, f entry.2)) := rfl
    have hmap : (d.mapValues f).entries = d.entries.map (fun entry => (entry.1, f entry.2)) := rfl
    rw [hset, entries_set_there hk, entries_set_there (hkeys.mpr hk), hmap, List.map_map, List.map_map]
    refine List.map_congr_left (fun entry _ => ?_)
    by_cases heq : entry.1 = k <;> simp [heq]
  · have hset : ((d.set k v).mapValues f).entries = (d.set k v).entries.map (fun entry => (entry.1, f entry.2)) := rfl
    have hmap : (d.mapValues f).entries = d.entries.map (fun entry => (entry.1, f entry.2)) := rfl
    rw [hset, entries_set_new hk, entries_set_new (fun h => hk (hkeys.mp h)), hmap, List.map_append]
    rfl

/-! ## The entries whose values pass a test -/

/-- The entries whose values pass a test, in order. -/
def having (d : Dict κ α) (test : α → Bool) : List (κ × α) := d.entries.filter (fun entry => test entry.2)

omit [DecidableEq κ] in
theorem having_mapValues {β : Type*} (d : Dict κ α) (f : α → β) {test : α → Bool} {test' : β → Bool}
    (h : ∀ v, test' (f v) = test v) :
    (d.mapValues f).having test' = (d.having test).map (fun entry => (entry.1, f entry.2)) := by
  unfold having mapValues
  rw [List.filter_map]
  congr 1
  exact List.filter_congr (fun entry _ => h entry.2)

theorem mem_having {d : Dict κ α} {test : α → Bool} {k : κ} {v : α} :
    (k, v) ∈ d.having test ↔ d.get? k = some v ∧ test v = true := by
  rw [get?_eq_some]
  exact List.mem_filter

theorem having_set_new {d : Dict κ α} {k : κ} (hnew : d.get? k = none) (v : α) (test : α → Bool) :
    (d.set k v).having test = d.having test ++ if test v then [(k, v)] else [] := by
  have hmem : k ∉ d.entries.map (·.1) := get?_eq_none.mp hnew
  unfold having set
  rw [dif_neg hmem, List.filter_append]
  congr 1
  by_cases hv : test v = true <;> simp [hv]

/-- The value of a key that is there is replaced by one that the test treats alike. -/
theorem having_set {d : Dict κ α} {k : κ} {old v : α} {test : α → Bool} (hold : d.get? k = some old) (hsame : test v = test old) :
    (d.set k v).having test = (d.having test).map (fun entry => if entry.1 = k then (k, v) else entry) := by
  have hmem : k ∈ d.entries.map (·.1) := List.mem_map_of_mem (get?_eq_some.mp hold)
  unfold having set
  rw [dif_pos hmem, List.filter_map]
  congr 1
  refine List.filter_congr (fun entry hentry => ?_)
  by_cases hk : entry.1 = k
  · obtain rfl : entry.2 = old := by
      have hget : d.get? k = some entry.2 := get?_eq_some.mpr (hk ▸ hentry)
      exact Option.some.inj (hget.symm.trans hold)
    simp [hk, hsame]
  · simp [hk]

/-- A value that does not pass is replaced by another that does not. -/
theorem having_set_of_not {d : Dict κ α} {k : κ} {old v : α} {test : α → Bool} (hold : d.get? k = some old)
    (hnot : test old = false) (hnot' : test v = false) : (d.set k v).having test = d.having test := by
  have hother : ∀ entry ∈ d.having test, (if entry.1 = k then (k, v) else entry) = entry := by
    rintro ⟨k', v'⟩ hentry
    obtain ⟨hget, hpass⟩ := mem_having.mp hentry
    refine if_neg ?_
    rintro rfl
    rw [Option.some.inj (hget.symm.trans hold), hnot] at hpass
    cases hpass
  rw [having_set hold (hnot'.trans hnot.symm), List.map_congr_left hother, List.map_id']

end Dict
