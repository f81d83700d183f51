import Mathlib.Data.Rat.Defs

/-!
# Python values and JSON documents

The values that travel through the log: what `json.dumps` accepts, what `json.loads` gives back, and the objects of the
message vocabulary, which `json.dumps` refuses until the payload codec has turned them into plain dicts.

A JSON text is modelled by the document it denotes (`Json`), so `json.dumps` is a partial map from values to documents and
`json.loads` a total map back (`Json.loads`). The trust boundary of the log, `_validate_lossless_json`, is stated with these
two in `Pydsh.Session.Session`; here is what it rests on: `PyValue.dumps` undoes `Json.loads`, and a value that compares
equal to its own parse is one that `Json.loads` gives (`PyValue.eqJson_iff`).
-/

namespace Pydsh

/-- A Python float: a finite one by its exact value, or one of the three that are not JSON. -/
inductive PyFloat where
  | finite (q : Rat) | inf (negative : Bool) | nan
  deriving DecidableEq

/-- A dict key. A key that is not a string but that `json.dumps` takes (an int, a float, a bool, `None`) is held by the text it
is written as and by its `str`; any other key makes `json.dumps` raise. -/
inductive PyKey where
  | str (s : String)
  | scalar (json str : String)
  | other (str : String)
  deriving DecidableEq

/-- A JSON document: what a text written by `json.dumps` denotes. -/
inductive Json where
  | null
  | bool (b : Bool)
  | int (i : Int)
  | float (q : Rat)
  | str (s : String)
  | arr (xs : List Json)
  | obj (kvs : List (String × Json))

/-- A Python value: the JSON-like ones, the objects of the message vocabulary (`message/blocks.py`), any other dataclass by its
fields, and `object` for whatever else `json.dumps` has no encoding for (a cycle included). -/
inductive PyValue where
  | none
  | bool (b : Bool)
  | int (i : Int)
  | float (f : PyFloat)
  | str (s : String)
  | list (xs : List PyValue)
  | tuple (xs : List PyValue)
  | dict (kvs : List (PyKey × PyValue))
  | textBlock (text : PyValue)
  | reasoningBlock (text : PyValue)
  | toolCallBlock (id name arguments : PyValue)
  | toolResultBlock (toolCallId : PyValue) (content : List PyValue) (isError : PyValue)
  | messageSource (kind plugin form provider model goalId revision round : PyValue)
  | message (id role : PyValue) (content : List PyValue) (source : PyValue)
  | dataclass (fields : List (String × PyValue))
  | object

/-- The first value stored under a key of an association list. -/
def field? {α : Type} (kvs : List (String × α)) (key : String) : Option α :=
  (kvs.find? (fun kv => kv.1 == key)).map (·.2)

@[simp] theorem field?_nil {α : Type} (key : String) : field? ([] : List (String × α)) key = none := rfl

@[simp] theorem field?_cons {α : Type} (k : String) (v : α) (kvs : List (String × α)) (key : String) :
    field? ((k, v) :: kvs) key = if k == key then some v else field? kvs key := by
  unfold field?
  rw [List.find?_cons]
  cases hk : (k == key) <;> simp

/-- A dict with string keys. -/
def PyValue.record (kvs : List (String × PyValue)) : PyValue :=
  .dict (kvs.map (fun kv => (PyKey.str kv.1, kv.2)))

theorem pairwise_mergeSort_text {α : Type} (text : α → String) (xs : List α) :
    (xs.mergeSort (fun a b => text a ≤ text b)).Pairwise (fun a b => text a ≤ text b) := by
  refine (List.pairwise_mergeSort ?_ ?_ xs).imp of_decide_eq_true
  · intro a b c hab hbc
    rw [decide_eq_true_eq] at *
    exact String.le_trans hab hbc
  · intro a b
    rw [Bool.or_eq_true, decide_eq_true_eq, decide_eq_true_eq]
    exact String.le_total (text a) (text b)

/-! ## `json.loads` -/

mutual

/-- The value `json.loads` builds from a document. -/
def Json.loads : Json → PyValue
  | .null => .none
  | .bool b => .bool b
  | .int i => .int i
  | .float q => .float (.finite q)
  | .str s => .str s
  | .arr xs => .list (Json.loadsList xs)
  | .obj kvs => .dict (Json.loadsFields kvs)

def Json.loadsList : List Json → List PyValue
  | [] => []
  | x :: xs => x.loads :: Json.loadsList xs

def Json.loadsFields : List (String × Json) → List (PyKey × PyValue)
  | [] => []
  | (k, v) :: kvs => (.str k, v.loads) :: Json.loadsFields kvs

end

/-! ## `json.dumps` -/

/-- The text `json.dumps` writes a key as; `none` where it raises. -/
def PyKey.dumps : PyKey → Option String
  | .str s => some s
  | .scalar json _ => some json
  | .other _ => none

mutual

/-- The document `json.dumps(value, allow_nan=False)` writes; `none` where it raises `TypeError` or `ValueError`. -/
def PyValue.dumps : PyValue → Option Json
  | .none => some .null
  | .bool b => some (.bool b)
  | .int i => some (.int i)
  | .float (.finite q) => some (.float q)
  | .str s => some (.str s)
  | .list xs => (PyValue.dumpsList xs).map .arr
  | .tuple xs => (PyValue.dumpsList xs).map .arr
  | .dict kvs => (PyValue.dumpsFields kvs).map .obj
  | _ => Option.none

def PyValue.dumpsList : List PyValue → Option (List Json)
  | [] => some []
  | x :: xs => do
    let j ← x.dumps
    let js ← PyValue.dumpsList xs
    return j :: js

def PyValue.dumpsFields : List (PyKey × PyValue) → Option (List (String × Json))
  | [] => some []
  | (k, v) :: kvs => do
    let key ← k.dumps
    let j ← v.dumps
    let js ← PyValue.dumpsFields kvs
    return (key, j) :: js

end

/-! ## `json.loads(json.dumps(value))` -/

/-- `{**kvs, key: value}`: the value under its key where the dict has it, at the end where it has not. -/
def putField (kvs : List (PyKey × PyValue)) (key : String) (value : PyValue) : List (PyKey × PyValue) :=
  if kvs.any (fun kv => kv.1 == .str key) then kvs.map (fun kv => if kv.1 == .str key then (kv.1, value) else kv)
  else kvs ++ [(.str key, value)]

/-- The dict with the given items, put in one after another. -/
def dictOf (items : List (String × PyValue)) : List (PyKey × PyValue) :=
  items.foldl (fun kvs kv => putField kvs kv.1 kv.2) []

mutual

/-- The value that comes back when a value is written with `json.dumps` (which by default also writes inf and NaN) and parsed
again; `none` where `json.dumps` raises. -/
def PyValue.reload : PyValue → Option PyValue
  | .none => some .none
  | .bool b => some (.bool b)
  | .int i => some (.int i)
  | .float f => some (.float f)
  | .str s => some (.str s)
  | .list xs => (PyValue.reloadList xs).map .list
  | .tuple xs => (PyValue.reloadList xs).map .list
  | .dict kvs => (PyValue.reloadFields kvs).map (fun items => .dict (dictOf items))
  | _ => Option.none

def PyValue.reloadList : List PyValue → Option (List PyValue)
  | [] => some []
  | x :: xs => do
    let v ← x.reload
    let vs ← PyValue.reloadList xs
    return v :: vs

def PyValue.reloadFields : List (PyKey × PyValue) → Option (List (String × PyValue))
  | [] => some []
  | (k, v) :: kvs => do
    let key ← k.dumps
    let value ← v.reload
    let items ← PyValue.reloadFields kvs
    return (key, value) :: items

end

/-! ## Comparing a value with a parse -/

mutual

/-- `value == json.loads(text)`: structural, so a tuple differs from the list it is written as and a key that is not a string
differs from the string it is written as. -/
def PyValue.eqJson : PyValue → Json → Bool
  | .none, .null => true
  | .bool b, .bool c => b == c
  | .int i, .int k => i == k
  | .float f, .float q => f == .finite q
  | .str s, .str t => s == t
  | .list xs, .arr ys => PyValue.eqJsonList xs ys
  | .dict kvs, .obj fs => PyValue.eqJsonFields kvs fs
  | _, _ => false

def PyValue.eqJsonList : List PyValue → List Json → Bool
  | [], [] => true
  | x :: xs, y :: ys => x.eqJson y && PyValue.eqJsonList xs ys
  | _, _ => false

def PyValue.eqJsonFields : List (PyKey × PyValue) → List (String × Json) → Bool
  | [], [] => true
  | (k, v) :: kvs, (f, j) :: fs => (k == .str f) && v.eqJson j && PyValue.eqJsonFields kvs fs
  | _, _ => false

end

mutual

/-- `_has_non_finite`: whether a float anywhere in the value is inf or NaN. -/
def PyValue.hasNonFinite : PyValue → Bool
  | .float (.finite _) => false
  | .float _ => true
  | .dict kvs => PyValue.hasNonFiniteFields kvs
  | .list xs => PyValue.hasNonFiniteList xs
  | .tuple xs => PyValue.hasNonFiniteList xs
  | _ => false

def PyValue.hasNonFiniteList : List PyValue → Bool
  | [] => false
  | x :: xs => x.hasNonFinite || PyValue.hasNonFiniteList xs

def PyValue.hasNonFiniteFields : List (PyKey × PyValue) → Bool
  | [] => false
  | (_, v) :: kvs => v.hasNonFinite || PyValue.hasNonFiniteFields kvs

end

/-! ## What a parse satisfies -/

/-- Induction over documents: a document, the elements of an array, the members of an object. -/
theorem Json.induct {motive : Json → Prop} {L : List Json → Prop} {M : List (String × Json) → Prop}
    (null : motive .null) (bool : ∀ b, motive (.bool b)) (int : ∀ i, motive (.int i)) (float : ∀ q, motive (.float q))
    (str : ∀ s, motive (.str s)) (arr : ∀ xs, L xs → motive (.arr xs)) (obj : ∀ kvs, M kvs → motive (.obj kvs))
    (elemsNil : L []) (elemsCons : ∀ x xs, motive x → L xs → L (x :: xs))
    (membersNil : M []) (membersCons : ∀ k v kvs, motive v → M kvs → M ((k, v) :: kvs)) :
    ∀ j, motive j :=
  @Json.rec motive L M (fun kv => motive kv.2)
    null bool int float str arr obj elemsNil elemsCons membersNil (fun kv kvs hv hkvs => membersCons kv.1 kv.2 kvs hv hkvs)
    (fun _ _ hv => hv)

/-- Writing a parsed value gives the document it was parsed from. -/
theorem Json.dumps_loads (j : Json) : j.loads.dumps = some j := by
  induction j using Json.induct
    (L := fun xs => PyValue.dumpsList (Json.loadsList xs) = some xs)
    (M := fun kvs => PyValue.dumpsFields (Json.loadsFields kvs) = some kvs) with
  | arr xs ih => simp [Json.loads, PyValue.dumps, ih]
  | obj kvs ih => simp [Json.loads, PyValue.dumps, ih]
  | elemsCons x xs ihx ihxs => simp [Json.loadsList, PyValue.dumpsList, ihx, ihxs]
  | membersCons k v kvs ihv ihkvs => simp [Json.loadsFields, PyValue.dumpsFields, PyKey.dumps, ihv, ihkvs]
  | _ => rfl

/-- `json.loads` is injective: two documents with the same parse are the same. -/
theorem Json.loads_injective {j k : Json} (h : j.loads = k.loads) : j = k := by
  have hj := Json.dumps_loads j
  rw [h, Json.dumps_loads k] at hj
  exact (Option.some.inj hj).symm

theorem Json.hasNonFinite_loads (j : Json) : j.loads.hasNonFinite = false := by
  induction j using Json.induct
    (L := fun xs => PyValue.hasNonFiniteList (Json.loadsList xs) = false)
    (M := fun kvs => PyValue.hasNonFiniteFields (Json.loadsFields kvs) = false) with
  | arr xs ih => simpa [Json.loads, PyValue.hasNonFinite] using ih
  | obj kvs ih => simpa [Json.loads, PyValue.hasNonFinite] using ih
  | elemsCons x xs ihx ihxs => simp [Json.loadsList, PyValue.hasNonFiniteList, ihx, ihxs]
  | membersCons k v kvs ihv ihkvs => simp [Json.loadsFields, PyValue.hasNonFiniteFields, ihv, ihkvs]
  | _ => rfl

/-- A value compares equal to a document exactly when it is the parse of that document. -/
theorem PyValue.eqJson_iff (j : Json) (v : PyValue) : v.eqJson j = true ↔ v = j.loads := by
  induction j using Json.induct
    (L := fun ys => ∀ xs, PyValue.eqJsonList xs ys = true ↔ xs = Json.loadsList ys)
    (M := fun fs => ∀ kvs, PyValue.eqJsonFields kvs fs = true ↔ kvs = Json.loadsFields fs)
    generalizing v with
  | arr ys ih => cases v <;> simp [PyValue.eqJson, Json.loads, ih]
  | obj fs ih => cases v <;> simp [PyValue.eqJson, Json.loads, ih]
  | elemsNil xs => cases xs <;> simp [PyValue.eqJsonList, Json.loadsList]
  | elemsCons y ys ihy ihys xs => cases xs <;> simp [PyValue.eqJsonList, Json.loadsList, ihy, ihys]
  | membersNil kvs => cases kvs <;> simp [PyValue.eqJsonFields, Json.loadsFields]
  | membersCons f j fs ihj ihfs kvs =>
    cases kvs with
    | nil => simp [PyValue.eqJsonFields, Json.loadsFields]
    | cons kv kvs => obtain ⟨k, w⟩ := kv; simp [PyValue.eqJsonFields, Json.loadsFields, ihj, ihfs, and_assoc]
  | _ => cases v <;> simp [PyValue.eqJson, Json.loads]

end Pydsh
