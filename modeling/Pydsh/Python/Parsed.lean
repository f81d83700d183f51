import Mathlib.Data.List.Nodup
import Pydsh.Python.Value

/-!
# Values that a JSON text holds

What `json.loads` gives is written and parsed again without a change. `Parsed` is the type of these values: the content of a file or
of a cell that `json.dumps` wrote. `PyValue.written` is the value such a text holds, `none` where `json.dumps` raises.
-/

namespace Pydsh

/-! ## A dict from its items -/

theorem putField_new {kvs : List (PyKey × PyValue)} {key : String} (value : PyValue) (h : .str key ∉ kvs.map (·.1)) :
    putField kvs key value = kvs ++ [(.str key, value)] := by
  have hany : ¬ kvs.any (fun kv => kv.1 == .str key) = true := by
    intro hany
    obtain ⟨kv, hkv, hkey⟩ := List.any_eq_true.mp hany
    have heq : kv.1 = .str key := by simpa using hkey
    exact h (heq ▸ List.mem_map_of_mem hkv)
  exact if_neg hany

theorem nodup_putField {kvs : List (PyKey × PyValue)} (key : String) (value : PyValue) (h : (kvs.map (·.1)).Nodup) :
    ((putField kvs key value).map (·.1)).Nodup := by
  by_cases hkey : .str key ∈ kvs.map (·.1)
  · have hany : kvs.any (fun kv => kv.1 == .str key) = true := by
      obtain ⟨kv, hkv, heq⟩ := List.mem_map.mp hkey
      exact List.any_eq_true.mpr ⟨kv, hkv, by simp [heq]⟩
    have hkeys : (putField kvs key value).map (·.1) = kvs.map (·.1) := by
      unfold putField
      rw [if_pos hany, List.map_map]
      refine List.map_congr_left (fun kv _ => ?_)
      by_cases hkv : kv.1 = .str key <;> simp [hkv]
    rw [hkeys]
    exact h
  · rw [putField_new value hkey, List.map_append, List.nodup_append']
    exact ⟨h, List.nodup_singleton _, by simpa using hkey⟩

/-- What holds of the values of the dict and of the new one holds of the values after a put. -/
theorem putField_values {P : PyKey × PyValue → Prop} {kvs : List (PyKey × PyValue)} {key : String} {value : PyValue}
    (h : ∀ kv ∈ kvs, P kv) (hnew : P (.str key, value)) : ∀ kv ∈ putField kvs key value, P kv := by
  intro kv hkv
  unfold putField at hkv
  split at hkv
  · obtain ⟨kv', hkv', rfl⟩ := List.mem_map.mp hkv
    split
    · rename_i heq
      have heq : kv'.1 = .str key := by simpa using heq
      rw [heq]
      exact hnew
    · exact h kv' hkv'
  · rcases List.mem_append.mp hkv with hkv | hkv
    · exact h kv hkv
    · rw [List.mem_singleton.mp hkv]
      exact hnew

/-- Items put one after another: the keys stay distinct, and each entry is an old one or an item. -/
theorem foldl_putField_spec {P : PyKey × PyValue → Prop} (items : List (String × PyValue))
    (hitems : ∀ item ∈ items, P (.str item.1, item.2)) (kvs : List (PyKey × PyValue)) (hkvs : ∀ kv ∈ kvs, P kv)
    (hnodup : (kvs.map (·.1)).Nodup) :
    ((items.foldl (fun kvs kv => putField kvs kv.1 kv.2) kvs).map (·.1)).Nodup ∧
      ∀ kv ∈ items.foldl (fun kvs kv => putField kvs kv.1 kv.2) kvs, P kv := by
  induction items generalizing kvs with
  | nil => exact ⟨hnodup, hkvs⟩
  | cons item items ih =>
    obtain ⟨hitem, hitems⟩ := List.forall_mem_cons.mp hitems
    exact ih hitems _ (putField_values hkvs hitem) (nodup_putField item.1 item.2 hnodup)

/-- The items of distinct keys make the dict of just these items. -/
theorem foldl_putField_nodup (items : List (String × PyValue)) (kvs : List (PyKey × PyValue))
    (hnodup : (kvs.map (·.1) ++ items.map (fun item => PyKey.str item.1)).Nodup) :
    items.foldl (fun kvs kv => putField kvs kv.1 kv.2) kvs = kvs ++ items.map (fun item => (.str item.1, item.2)) := by
  induction items generalizing kvs with
  | nil => simp
  | cons item items ih =>
    have hkeys : ((kvs ++ [(PyKey.str item.1, item.2)]).map (·.1) ++ items.map (fun item => PyKey.str item.1)).Nodup := by
      simpa using hnodup
    have hnew : PyKey.str item.1 ∉ kvs.map (·.1) := by
      intro hmem
      exact (List.nodup_append'.mp hnodup).2.2 hmem (by simp)
    rw [List.foldl_cons, putField_new item.2 hnew, ih _ hkeys]
    simp

/-! ## Writing and parsing again -/

/-- Entries with string keys that are their own round trip are written as they are. -/
theorem reloadFields_fixed {kvs : List (PyKey × PyValue)}
    (h : ∀ kv ∈ kvs, (∃ key, kv.1 = .str key) ∧ kv.2.reload = some kv.2) :
    ∃ items : List (String × PyValue), PyValue.reloadFields kvs = some items ∧
      kvs = items.map (fun item => (.str item.1, item.2)) := by
  induction kvs with
  | nil => exact ⟨[], rfl, rfl⟩
  | cons kv kvs ih =>
    obtain ⟨⟨⟨key, hkey⟩, hvalue⟩, hrest⟩ := List.forall_mem_cons.mp h
    obtain ⟨k, v⟩ := kv
    subst hkey
    obtain ⟨items, hitems, heq⟩ := ih hrest
    refine ⟨(key, v) :: items, ?_, by rw [List.map_cons, ← heq]⟩
    have hvalue : v.reload = some v := hvalue
    simp [PyValue.reloadFields, PyKey.dumps, hvalue, hitems]

/-- A dict made of items that are their own round trip is its own round trip. -/
theorem reload_dictOf {items : List (String × PyValue)} (h : ∀ item ∈ items, item.2.reload = some item.2) :
    (PyValue.dict (dictOf items)).reload = some (.dict (dictOf items)) := by
  have hspec := foldl_putField_spec (P := fun kv => (∃ key, kv.1 = .str key) ∧ kv.2.reload = some kv.2) items
    (fun item hitem => ⟨⟨item.1, rfl⟩, h item hitem⟩) [] (by simp) List.nodup_nil
  obtain ⟨hnodup, hvalues⟩ := hspec
  obtain ⟨items', hitems', heq⟩ := reloadFields_fixed hvalues
  have heq : dictOf items = items'.map (fun item => (.str item.1, item.2)) := heq
  have hkeys : (items'.map (fun item => PyKey.str item.1)).Nodup := by
    have hmap := hnodup
    change ((dictOf items).map (·.1)).Nodup at hmap
    rw [heq, List.map_map] at hmap
    exact hmap
  have hagain : dictOf items' = dictOf items := by
    rw [heq]
    exact foldl_putField_nodup items' [] (by simpa using hkeys)
  change (PyValue.reloadFields (dictOf items)).map _ = _
  have hitems' : PyValue.reloadFields (dictOf items) = some items' := hitems'
  rw [hitems', Option.map_some, hagain]

/-- Induction over the values that `json.dumps` takes: a leaf, the elements of a list or a tuple, the entries of a dict; and any value
that it refuses. -/
theorem PyValue.induct {motive : PyValue → Prop} {L : List PyValue → Prop} {M : List (PyKey × PyValue) → Prop}
    (none : motive .none) (bool : ∀ b, motive (.bool b)) (int : ∀ i, motive (.int i)) (float : ∀ f, motive (.float f))
    (str : ∀ s, motive (.str s)) (list : ∀ xs, L xs → motive (.list xs)) (tuple : ∀ xs, L xs → motive (.tuple xs))
    (dict : ∀ kvs, M kvs → motive (.dict kvs)) (refused : ∀ v : PyValue, v.reload = Option.none → motive v)
    (elemsNil : L []) (elemsCons : ∀ x xs, motive x → L xs → L (x :: xs))
    (membersNil : M []) (membersCons : ∀ k v kvs, motive v → M kvs → M ((k, v) :: kvs)) :
    ∀ v, motive v :=
  @PyValue.rec motive L M (fun _ => True) (fun kv => motive kv.2) (fun _ => True)
    none bool int float str (fun xs h => list xs h) (fun xs h => tuple xs h) (fun kvs h => dict kvs h)
    (fun _ _ => refused _ rfl) (fun _ _ => refused _ rfl) (fun _ _ _ _ _ _ => refused _ rfl)
    (fun _ _ _ _ _ _ => refused _ rfl) (fun _ _ _ _ _ _ _ _ _ _ _ _ _ _ _ _ => refused _ rfl)
    (fun _ _ _ _ _ _ _ _ => refused _ rfl) (fun _ _ => refused _ rfl) (refused _ rfl)
    elemsNil elemsCons membersNil (fun kv kvs hv hkvs => membersCons kv.1 kv.2 kvs hv hkvs) trivial (fun _ _ _ _ => trivial)
    (fun _ _ hv => hv) (fun _ _ _ => trivial)

theorem PyValue.reload_reload (v w : PyValue) (h : v.reload = some w) : w.reload = some w := by
  induction v using PyValue.induct
    (L := fun xs => ∀ ys, PyValue.reloadList xs = some ys → PyValue.reloadList ys = some ys)
    (M := fun kvs => ∀ items, PyValue.reloadFields kvs = some items → ∀ item ∈ items, item.2.reload = some item.2)
    generalizing w with
  | list xs ih =>
    obtain ⟨ys, hys, rfl⟩ := Option.map_eq_some_iff.mp h
    exact Option.map_eq_some_iff.mpr ⟨ys, ih ys hys, rfl⟩
  | tuple xs ih =>
    obtain ⟨ys, hys, rfl⟩ := Option.map_eq_some_iff.mp h
    exact Option.map_eq_some_iff.mpr ⟨ys, ih ys hys, rfl⟩
  | dict kvs ih =>
    obtain ⟨items, hitems, rfl⟩ := Option.map_eq_some_iff.mp h
    exact reload_dictOf (ih items hitems)
  | refused v hrefused =>
    rw [hrefused] at h
    cases h
  | elemsNil ys hys =>
    cases hys
    rfl
  | elemsCons x xs ihx ihxs ys hys =>
    obtain ⟨y, hy, hys⟩ := Option.bind_eq_some_iff.mp hys
    obtain ⟨rest, hrest, hys⟩ := Option.bind_eq_some_iff.mp hys
    cases hys
    simp [PyValue.reloadList, ihx y hy, ihxs rest hrest]
  | membersNil items hitems item hitem =>
    cases hitems
    cases hitem
  | membersCons k v kvs ihv ihkvs items hitems item hitem =>
    obtain ⟨key, -, hitems⟩ := Option.bind_eq_some_iff.mp hitems
    obtain ⟨value, hvalue, hitems⟩ := Option.bind_eq_some_iff.mp hitems
    obtain ⟨rest, hrest, hitems⟩ := Option.bind_eq_some_iff.mp hitems
    cases hitems
    rcases List.mem_cons.mp hitem with rfl | hitem
    · exact ihv value hvalue
    · exact ihkvs rest hrest item hitem
  | _ =>
    cases h
    rfl

/-- A value that `json.loads` gives. -/
structure Parsed where
  value : PyValue
  fixed : value.reload = some value

/-- The value that the text written for a value holds; `none` where `json.dumps` raises. -/
def PyValue.written (v : PyValue) : Option Parsed :=
  match h : v.reload with
  | some w => some ⟨w, PyValue.reload_reload v w h⟩
  | Option.none => Option.none

theorem PyValue.written_eq_some {v : PyValue} {p : Parsed} : v.written = some p ↔ v.reload = some p.value := by
  obtain ⟨w, hw⟩ := p
  unfold PyValue.written
  split <;> simp_all

@[simp] theorem PyValue.map_written (v : PyValue) : v.written.map Parsed.value = v.reload := by
  unfold PyValue.written
  split <;> simp_all

@[simp] theorem PyValue.written_value (p : Parsed) : p.value.written = some p := PyValue.written_eq_some.mpr p.fixed

end Pydsh
