import Pydsh.Python.Parsed

/-!
# Documents up to the order of keys

`json.dumps(value, sort_keys=True)` of a value that `json.loads` gave. The text is modelled by the value with its dicts sorted, and two
texts are the same where these are. Two values have the same text exactly if they differ in the order of keys at most
(`sameText_sortKeys_iff`).
-/

namespace Pydsh

/-- What a key is sorted by. -/
def PyKey.text : PyKey → String
  | .str s => s
  | .scalar json _ => json
  | .other s => s

mutual

/-- The value with the entries of its dicts sorted by key, at every depth. -/
def PyValue.sortKeys : PyValue → PyValue
  | .list xs => .list (PyValue.sortKeysList xs)
  | .dict kvs => .dict ((PyValue.sortKeysFields kvs).mergeSort (fun a b => a.1.text ≤ b.1.text))
  | v => v

def PyValue.sortKeysList : List PyValue → List PyValue
  | [] => []
  | x :: xs => x.sortKeys :: PyValue.sortKeysList xs

def PyValue.sortKeysFields : List (PyKey × PyValue) → List (PyKey × PyValue)
  | [] => []
  | (k, v) :: kvs => (k, v.sortKeys) :: PyValue.sortKeysFields kvs

end

mutual

/-- Whether two values of a parse are written as the same text. -/
def PyValue.sameText : PyValue → PyValue → Bool
  | .none, .none => true
  | .bool b, .bool c => b == c
  | .int i, .int k => i == k
  | .float f, .float g => f == g
  | .str s, .str t => s == t
  | .list xs, .list ys => PyValue.sameTextList xs ys
  | .dict kvs, .dict fs => PyValue.sameTextFields kvs fs
  | _, _ => false

def PyValue.sameTextList : List PyValue → List PyValue → Bool
  | [], [] => true
  | x :: xs, y :: ys => x.sameText y && PyValue.sameTextList xs ys
  | _, _ => false

def PyValue.sameTextFields : List (PyKey × PyValue) → List (PyKey × PyValue) → Bool
  | [], [] => true
  | (k, v) :: kvs, (f, w) :: fs => (k == f) && v.sameText w && PyValue.sameTextFields kvs fs
  | _, _ => false

end

/-- Two values that differ in the order of keys at most. -/
inductive Reordered : PyValue → PyValue → Prop where
  | refl (v : PyValue) : Reordered v v
  | symm {v w : PyValue} : Reordered v w → Reordered w v
  | trans {u v w : PyValue} : Reordered u v → Reordered v w → Reordered u w
  | elem {v w : PyValue} (pre post : List PyValue) : Reordered v w → Reordered (.list (pre ++ v :: post)) (.list (pre ++ w :: post))
  | entry {v w : PyValue} (pre : List (PyKey × PyValue)) (k : PyKey) (post : List (PyKey × PyValue)) :
      Reordered v w → Reordered (.dict (pre ++ (k, v) :: post)) (.dict (pre ++ (k, w) :: post))
  | entries {kvs fs : List (PyKey × PyValue)} :
      (kvs.map (fun kv => kv.1.text)).Nodup → kvs.Perm fs → Reordered (.dict kvs) (.dict fs)

/-! ## What a JSON text holds -/

/-- A value made of lists, dicts with distinct keys, and leaves. -/
inductive PyValue.Plain : PyValue → Prop where
  | none : Plain .none
  | bool (b : Bool) : Plain (.bool b)
  | int (i : Int) : Plain (.int i)
  | float (f : PyFloat) : Plain (.float f)
  | str (s : String) : Plain (.str s)
  | list {xs : List PyValue} : (∀ x ∈ xs, Plain x) → Plain (.list xs)
  | dict {kvs : List (PyKey × PyValue)} :
      (kvs.map (fun kv => kv.1.text)).Nodup → (∀ kv ∈ kvs, Plain kv.2) → Plain (.dict kvs)

theorem plain_dictOf {items : List (String × PyValue)} (h : ∀ item ∈ items, item.2.Plain) : (PyValue.dict (dictOf items)).Plain := by
  obtain ⟨hnodup, hvalues⟩ := foldl_putField_spec (P := fun kv => (∃ key, kv.1 = .str key) ∧ kv.2.Plain) items
    (fun item hitem => ⟨⟨item.1, rfl⟩, h item hitem⟩) [] (by simp) List.nodup_nil
  change ((dictOf items).map (·.1)).Nodup at hnodup
  change ∀ kv ∈ dictOf items, _ at hvalues
  refine .dict ?_ (fun kv hkv => (hvalues kv hkv).2)
  refine (List.nodup_map_iff_inj_on (List.Nodup.of_map _ hnodup)).mpr ?_
  intro kv hkv kv' hkv' htext
  obtain ⟨key, hkey⟩ := (hvalues kv hkv).1
  obtain ⟨key', hkey'⟩ := (hvalues kv' hkv').1
  rw [hkey, hkey'] at htext
  refine List.inj_on_of_nodup_map hnodup hkv hkv' ?_
  rw [hkey, hkey']
  exact congrArg PyKey.str htext

theorem PyValue.plain_of_reload (v w : PyValue) (h : v.reload = some w) : w.Plain := by
  induction v using PyValue.induct
    (L := fun xs => ∀ ys, PyValue.reloadList xs = some ys → ∀ y ∈ ys, y.Plain)
    (M := fun kvs => ∀ items, PyValue.reloadFields kvs = some items → ∀ item ∈ items, item.2.Plain)
    generalizing w with
  | none => cases h; exact .none
  | bool b => cases h; exact .bool b
  | int i => cases h; exact .int i
  | float f => cases h; exact .float f
  | str s => cases h; exact .str s
  | list xs ih =>
    obtain ⟨ys, hys, rfl⟩ := Option.map_eq_some_iff.mp h
    exact .list (ih ys hys)
  | tuple xs ih =>
    obtain ⟨ys, hys, rfl⟩ := Option.map_eq_some_iff.mp h
    exact .list (ih ys hys)
  | dict kvs ih =>
    obtain ⟨items, hitems, rfl⟩ := Option.map_eq_some_iff.mp h
    exact plain_dictOf (ih items hitems)
  | refused v hrefused =>
    rw [hrefused] at h
    cases h
  | elemsNil ys hys y hy =>
    cases hys
    cases hy
  | elemsCons x xs ihx ihxs ys hys y hy =>
    obtain ⟨first, hfirst, hys⟩ := Option.bind_eq_some_iff.mp hys
    obtain ⟨rest, hrest, hys⟩ := Option.bind_eq_some_iff.mp hys
    cases hys
    rcases List.mem_cons.mp hy with rfl | hy
    · exact ihx _ hfirst
    · exact ihxs rest hrest y hy
  | membersNil items hitems item hitem =>
    cases hitems
    cases hitem
  | membersCons k v kvs ihv ihkvs items hitems item hitem =>
    obtain ⟨key, -, hitems⟩ := Option.bind_eq_some_iff.mp hitems
    obtain ⟨value, hvalue, hitems⟩ := Option.bind_eq_some_iff.mp hitems
    obtain ⟨rest, hrest, hitems⟩ := Option.bind_eq_some_iff.mp hitems
    cases hitems
    rcases List.mem_cons.mp hitem with rfl | hitem
    · exact ihv value hvalue
    · exact ihkvs rest hrest item hitem

theorem Parsed.plain (p : Parsed) : p.value.Plain := PyValue.plain_of_reload _ _ p.fixed

theorem PyValue.Plain.sameText_iff {v : PyValue} (h : v.Plain) (w : PyValue) : v.sameText w = true ↔ v = w := by
  induction h generalizing w with
  | list hxs ih =>
    rename_i xs
    cases w with
    | list ys =>
      rw [PyValue.sameText, PyValue.list.injEq]
      clear hxs
      induction xs generalizing ys with
      | nil => cases ys <;> simp [PyValue.sameTextList]
      | cons x xs ihxs =>
        obtain ⟨hx, hxs⟩ := List.forall_mem_cons.mp ih
        cases ys with
        | nil => simp [PyValue.sameTextList]
        | cons y ys => rw [PyValue.sameTextList, Bool.and_eq_true, hx, ihxs hxs, List.cons.injEq]
    | _ => simp [PyValue.sameText]
  | dict hnodup hkvs ih =>
    rename_i kvs
    cases w with
    | dict fs =>
      rw [PyValue.sameText, PyValue.dict.injEq]
      clear hnodup hkvs
      induction kvs generalizing fs with
      | nil => cases fs <;> simp [PyValue.sameTextFields]
      | cons kv kvs ihkvs =>
        obtain ⟨hkv, hkvs⟩ := List.forall_mem_cons.mp ih
        cases fs with
        | nil => simp [PyValue.sameTextFields]
        | cons f fs =>
          rw [PyValue.sameTextFields, Bool.and_eq_true, Bool.and_eq_true, hkv, ihkvs hkvs, List.cons.injEq, beq_iff_eq, Prod.ext_iff]
    | _ => simp [PyValue.sameText]
  | _ => cases w <;> simp [PyValue.sameText]

/-! ## Sorting -/

theorem PyValue.sortKeysList_eq_map (xs : List PyValue) : PyValue.sortKeysList xs = xs.map PyValue.sortKeys := by
  induction xs with
  | nil => rfl
  | cons x xs ih => rw [PyValue.sortKeysList, ih, List.map_cons]

theorem PyValue.sortKeysFields_eq_map (kvs : List (PyKey × PyValue)) :
    PyValue.sortKeysFields kvs = kvs.map (fun kv => (kv.1, kv.2.sortKeys)) := by
  induction kvs with
  | nil => rfl
  | cons kv kvs ih => rw [PyValue.sortKeysFields, ih, List.map_cons]

theorem sorted_eq_of_perm {kvs fs : List (PyKey × PyValue)} (hnodup : (kvs.map (fun kv => kv.1.text)).Nodup) (h : kvs.Perm fs) :
    kvs.mergeSort (fun a b => a.1.text ≤ b.1.text) = fs.mergeSort (fun a b => a.1.text ≤ b.1.text) := by
  have hsorted := pairwise_mergeSort_text (fun kv : PyKey × PyValue => kv.1.text)
  have hperm := (List.mergeSort_perm kvs (fun a b => a.1.text ≤ b.1.text)).trans
    (h.trans (List.mergeSort_perm fs (fun a b => a.1.text ≤ b.1.text)).symm)
  refine List.Perm.eq_of_pairwise ?_ (hsorted kvs) (hsorted fs) hperm
  intro a b ha hb hab hba
  have ha : a ∈ kvs := List.mem_mergeSort.mp ha
  have hb : b ∈ kvs := h.mem_iff.mpr (List.mem_mergeSort.mp hb)
  exact List.inj_on_of_nodup_map hnodup ha hb (String.le_antisymm hab hba)

theorem Reordered.sortKeys_eq {v w : PyValue} (h : Reordered v w) : v.sortKeys = w.sortKeys := by
  induction h with
  | refl v => rfl
  | symm _ ih => exact ih.symm
  | trans _ _ ihuv ihvw => exact ihuv.trans ihvw
  | elem pre post _ ih =>
    simp only [PyValue.sortKeys, PyValue.sortKeysList_eq_map, List.map_append, List.map_cons, ih]
  | entry pre k post _ ih =>
    simp only [PyValue.sortKeys, PyValue.sortKeysFields_eq_map, List.map_append, List.map_cons, ih]
  | entries hnodup hperm =>
    simp only [PyValue.sortKeys, PyValue.sortKeysFields_eq_map]
    rw [sorted_eq_of_perm ?_ (hperm.map _)]
    rwa [List.map_map]

theorem Reordered.list {f : PyValue → PyValue} {xs : List PyValue} (h : ∀ x ∈ xs, Reordered x (f x)) :
    Reordered (.list xs) (.list (xs.map f)) := by
  have hall : ∀ pre : List PyValue, Reordered (.list (pre ++ xs)) (.list (pre ++ xs.map f)) := by
    induction xs with
    | nil => exact fun pre => .refl _
    | cons x xs ih =>
      obtain ⟨hx, hxs⟩ := List.forall_mem_cons.mp h
      intro pre
      have hrest := ih hxs (pre ++ [f x])
      rw [List.append_assoc, List.append_assoc] at hrest
      exact (Reordered.elem pre xs hx).trans hrest
  exact hall []

theorem Reordered.dict {f : PyValue → PyValue} {kvs : List (PyKey × PyValue)} (h : ∀ kv ∈ kvs, Reordered kv.2 (f kv.2)) :
    Reordered (.dict kvs) (.dict (kvs.map (fun kv => (kv.1, f kv.2)))) := by
  have hall : ∀ pre, Reordered (.dict (pre ++ kvs)) (.dict (pre ++ kvs.map (fun kv => (kv.1, f kv.2)))) := by
    induction kvs with
    | nil => exact fun pre => .refl _
    | cons kv kvs ih =>
      obtain ⟨hkv, hkvs⟩ := List.forall_mem_cons.mp h
      intro pre
      have hrest := ih hkvs (pre ++ [(kv.1, f kv.2)])
      rw [List.append_assoc, List.append_assoc] at hrest
      exact (Reordered.entry pre kv.1 kvs hkv).trans hrest
  exact hall []

theorem PyValue.Plain.reordered {v : PyValue} (h : v.Plain) : Reordered v v.sortKeys := by
  induction h with
  | list _ ih =>
    rw [PyValue.sortKeys, PyValue.sortKeysList_eq_map]
    exact .list ih
  | dict hnodup _ ih =>
    rw [PyValue.sortKeys, PyValue.sortKeysFields_eq_map]
    refine (Reordered.dict ih).trans (.entries ?_ (List.mergeSort_perm _ _).symm)
    rwa [List.map_map]
  | _ => exact .refl _

theorem PyValue.Plain.sortKeys {v : PyValue} (h : v.Plain) : v.sortKeys.Plain := by
  induction h with
  | list _ ih =>
    rw [PyValue.sortKeys, PyValue.sortKeysList_eq_map]
    exact .list (List.forall_mem_map.mpr ih)
  | dict hnodup _ ih =>
    rename_i kvs _
    rw [PyValue.sortKeys, PyValue.sortKeysFields_eq_map]
    refine .dict ?_ ?_
    · refine ((List.mergeSort_perm _ _).map _).nodup_iff.mpr ?_
      rwa [List.map_map]
    · intro kv hkv
      obtain ⟨kv', hkv', rfl⟩ := List.mem_map.mp (List.mem_mergeSort.mp hkv)
      exact ih kv' hkv'
  | none => exact .none
  | bool b => exact .bool b
  | int i => exact .int i
  | float f => exact .float f
  | str s => exact .str s

/-- Two parses are written as the same text with sorted keys exactly if they differ in the order of keys at most. -/
theorem sameText_sortKeys_iff (v w : Parsed) :
    v.value.sortKeys.sameText w.value.sortKeys = true ↔ Reordered v.value w.value := by
  rw [v.plain.sortKeys.sameText_iff]
  constructor
  · intro heq
    have hw := w.plain.reordered.symm
    rw [← heq] at hw
    exact v.plain.reordered.trans hw
  · exact fun h => h.sortKeys_eq

end Pydsh
