import Pydsh.Lib.Dict
import Pydsh.Python.Parsed

/-!
# Key-value units

The contract of `storage/hub.py`: a unit is opened for a descriptor and holds tables of records and one global value. Here is what
both backends share: the descriptor, the errors, the calls that write, and what a call makes of tables kept in memory. A call writes
one slot, a record or the global value, and leaves the other slots alone (`KvContents.get_apply`).
-/

namespace Pydsh

/-- What the backend needs to open a unit. -/
structure UnitDescriptor where
  name : String
  version : Int
  tables : List String

/-- The codes of `StorageError` that a unit raises. -/
inductive StorageCode where
  | versionMismatch
  | malformedMedium
  | closed
  deriving DecidableEq

/-- `StorageError`. -/
structure StorageError where
  code : StorageCode
  message : String
  deriving DecidableEq

/-- `repr` of a text without quotes and escapes, which a unit's name is. -/
def quoted (s : String) : String := "'" ++ s ++ "'"

/-- A call that writes. -/
inductive KvOp (α : Type) where
  | putRecord (table key : String) (value : α)
  | deleteRecord (table key : String)
  | setGlobal (value : α)

/-- What a call writes: a record, or the global value. -/
inductive KvSlot where
  | record (table key : String)
  | global
  deriving DecidableEq

/-- The tables and the global value of a unit. -/
structure KvContents (α : Type) where
  tables : Dict String (Dict String α)
  global : α

variable {α β : Type}

namespace KvOp

/-- The slot a call writes. -/
def slot : KvOp α → KvSlot
  | putRecord table key _ => .record table key
  | deleteRecord table key => .record table key
  | setGlobal _ => .global

/-- The value a call leaves in its slot. -/
def left : KvOp α → Option α
  | putRecord _ _ value => some value
  | deleteRecord _ _ => none
  | setGlobal value => some value

/-- The table a call makes where it is missing. -/
def creates : KvOp α → Option String
  | putRecord table _ _ => some table
  | _ => none

/-- The call with its value turned. -/
def map (f : α → β) : KvOp α → KvOp β
  | putRecord table key value => .putRecord table key (f value)
  | deleteRecord table key => .deleteRecord table key
  | setGlobal value => .setGlobal (f value)

/-- The call with its value turned by a partial function; `none` where it fails. -/
def traverse (f : α → Option β) : KvOp α → Option (KvOp β)
  | putRecord table key value => (f value).map (KvOp.putRecord table key)
  | deleteRecord table key => some (.deleteRecord table key)
  | setGlobal value => (f value).map KvOp.setGlobal

/-- A turned call writes the same slot, and leaves the turned value there. -/
theorem traverse_spec {f : α → Option β} {op : KvOp α} {op' : KvOp β} (h : op.traverse f = some op') :
    op'.slot = op.slot ∧ op'.left = op.left.bind f := by
  cases op with
  | putRecord table key value =>
    obtain ⟨w, hw, rfl⟩ := Option.map_eq_some_iff.mp h
    exact ⟨rfl, hw.symm⟩
  | deleteRecord table key =>
    cases h
    exact ⟨rfl, rfl⟩
  | setGlobal value =>
    obtain ⟨w, hw, rfl⟩ := Option.map_eq_some_iff.mp h
    exact ⟨rfl, hw.symm⟩

end KvOp

namespace KvContents

/-- Whether the unit has the table. -/
def HasTable (c : KvContents α) (table : String) : Prop := (c.tables.get? table).isSome

instance (c : KvContents α) (table : String) : Decidable (c.HasTable table) :=
  inferInstanceAs (Decidable ((c.tables.get? table).isSome = true))

/-- The value in a slot. -/
def get (c : KvContents α) : KvSlot → Option α
  | .record table key => (c.tables.get? table).bind (fun rows => rows.get? key)
  | .global => some c.global

/-- What a call makes of tables in memory. -/
def apply (c : KvContents α) : KvOp α → KvContents α
  | .putRecord table key value =>
    { tables := c.tables.set table (((c.tables.get? table).getD .empty).set key value), global := c.global }
  | .deleteRecord table key =>
    match c.tables.get? table with
    | some rows => { tables := c.tables.set table (rows.pop key), global := c.global }
    | none => c
  | .setGlobal value => { tables := c.tables, global := value }

/-- Some calls, one after another. -/
def applyAll (c : KvContents α) (ops : List (KvOp α)) : KvContents α := ops.foldl apply c

/-- Every value turned by a partial function; `none` where it fails on one. -/
def traverse (f : α → Option β) (c : KvContents α) : Option (KvContents β) :=
  (c.tables.traverse (fun _ rows => rows.traverse (fun _ => f))).bind (fun tables => (f c.global).map (fun global => ⟨tables, global⟩))

/-- Every value turned. -/
def map (f : α → β) (c : KvContents α) : KvContents β :=
  { tables := c.tables.mapValues (fun rows => rows.mapValues f), global := f c.global }

/-- The contents with every declared table there. -/
def declare (c : KvContents α) (tables : List String) : KvContents α :=
  { tables := tables.foldl (fun d table => d.setDefault table .empty) c.tables, global := c.global }

/-! ## What a call changes -/

/-- A call leaves its value in its slot, and the other slots as they were. -/
theorem get_apply (c : KvContents α) (op : KvOp α) (slot : KvSlot) :
    (c.apply op).get slot = if slot = op.slot then op.left else c.get slot := by
  cases op with
  | putRecord table key value =>
    cases slot with
    | global => simp [apply, get, KvOp.slot]
    | record table' key' =>
      simp only [apply, get, KvOp.slot, KvOp.left, KvSlot.record.injEq]
      rw [Dict.get?_set]
      by_cases htable : table' = table
      · subst htable
        rw [if_pos rfl, Option.bind_some, Dict.get?_set]
        by_cases hkey : key' = key
        · simp [hkey]
        · rw [if_neg hkey, if_neg (fun h => hkey h.2)]
          cases c.tables.get? table' <;> simp
      · rw [if_neg htable, if_neg (fun h => htable h.1)]
  | deleteRecord table key =>
    cases slot with
    | global =>
      simp only [apply, get, KvOp.slot]
      split <;> simp
    | record table' key' =>
      simp only [apply, get, KvOp.slot, KvOp.left, KvSlot.record.injEq]
      split
      · rename_i rows hrows
        rw [Dict.get?_set]
        by_cases htable : table' = table
        · subst htable
          rw [if_pos rfl, Option.bind_some, Dict.get?_pop, hrows]
          by_cases hkey : key' = key <;> simp [hkey]
        · rw [if_neg htable, if_neg (fun h => htable h.1)]
      · rename_i hnone
        by_cases htable : table' = table
        · subst htable
          simp [hnone]
        · rw [if_neg (fun h => htable h.1)]
  | setGlobal value =>
    cases slot with
    | global => simp [apply, get, KvOp.slot, KvOp.left]
    | record table' key' => simp [apply, get, KvOp.slot]

theorem hasTable_apply (c : KvContents α) (op : KvOp α) (table : String) :
    (c.apply op).HasTable table ↔ c.HasTable table ∨ op.creates = some table := by
  cases op with
  | putRecord table' key value =>
    simp only [HasTable, apply, KvOp.creates, Dict.get?_set, Option.some.injEq]
    by_cases htable : table = table'
    · simp [htable]
    · rw [if_neg htable]
      exact ⟨Or.inl, fun h => h.resolve_right (fun h => htable h.symm)⟩
  | deleteRecord table' key =>
    simp only [HasTable, apply, KvOp.creates]
    split
    · rename_i rows hrows
      rw [Dict.get?_set]
      by_cases htable : table = table'
      · simp [htable, hrows]
      · simp [htable]
    · simp
  | setGlobal value => simp [HasTable, apply, KvOp.creates]

theorem applyAll_append (c : KvContents α) (before after : List (KvOp α)) :
    c.applyAll (before ++ after) = (c.applyAll before).applyAll after := List.foldl_append

theorem get_applyAll_of_ne (c : KvContents α) {ops : List (KvOp α)} {slot : KvSlot} (h : ∀ op ∈ ops, op.slot ≠ slot) :
    (c.applyAll ops).get slot = c.get slot := by
  induction ops generalizing c with
  | nil => rfl
  | cons op ops ih =>
    obtain ⟨hop, hops⟩ := List.forall_mem_cons.mp h
    have hstep : c.applyAll (op :: ops) = (c.apply op).applyAll ops := rfl
    rw [hstep, ih _ hops, get_apply, if_neg (fun heq => hop heq.symm)]

theorem get_applyAll_last (c : KvContents α) (before : List (KvOp α)) (op : KvOp α) {after : List (KvOp α)}
    (h : ∀ later ∈ after, later.slot ≠ op.slot) : (c.applyAll (before ++ op :: after)).get op.slot = op.left := by
  have hstep : c.applyAll (before ++ op :: after) = ((c.applyAll before).apply op).applyAll after := applyAll_append ..
  rw [hstep, get_applyAll_of_ne _ h, get_apply, if_pos rfl]

theorem hasTable_applyAll (c : KvContents α) (ops : List (KvOp α)) (table : String) :
    (c.applyAll ops).HasTable table ↔ c.HasTable table ∨ ∃ op ∈ ops, op.creates = some table := by
  induction ops generalizing c with
  | nil => simp [applyAll]
  | cons op ops ih =>
    have hstep : c.applyAll (op :: ops) = (c.apply op).applyAll ops := rfl
    rw [hstep, ih, hasTable_apply]
    simp [or_assoc]

/-! ## Values turned -/

/-- The turned contents have the same tables, and in every slot the turned value. -/
theorem traverse_spec {f : α → Option β} {c : KvContents α} {c' : KvContents β} (h : c.traverse f = some c') :
    (∀ table, c'.HasTable table ↔ c.HasTable table) ∧ ∀ slot, c'.get slot = (c.get slot).bind f := by
  obtain ⟨tables, htables, h⟩ := Option.bind_eq_some_iff.mp h
  obtain ⟨global, hglobal, rfl⟩ := Option.map_eq_some_iff.mp h
  have hrows : ∀ table rows, c.tables.get? table = some rows → ∃ rows', rows.traverse (fun _ => f) = some rows' := by
    intro table rows hget
    have hsome := Dict.traverse_isSome.mp (Option.isSome_of_eq_some htables) table rows hget
    exact Option.isSome_iff_exists.mp hsome
  constructor
  · intro table
    simp only [HasTable, Dict.get?_traverse htables]
    cases hget : c.tables.get? table with
    | none => simp
    | some rows =>
      obtain ⟨rows', hrows'⟩ := hrows table rows hget
      simp [hrows']
  · intro slot
    cases slot with
    | global => simp [get, hglobal]
    | record table key =>
      simp only [get, Dict.get?_traverse htables]
      cases hget : c.tables.get? table with
      | none => rfl
      | some rows =>
        obtain ⟨rows', hrows'⟩ := hrows table rows hget
        simp only [Option.bind_some, hrows']
        exact Dict.get?_traverse hrows' key

theorem traverse_isSome {f : α → Option β} {c : KvContents α} :
    (c.traverse f).isSome ↔ ∀ slot v, c.get slot = some v → (f v).isSome := by
  constructor
  · intro h slot v hget
    obtain ⟨c', hc'⟩ := Option.isSome_iff_exists.mp h
    cases slot with
    | global =>
      obtain ⟨tables, -, hrest⟩ := Option.bind_eq_some_iff.mp hc'
      obtain ⟨global, hglobal, -⟩ := Option.map_eq_some_iff.mp hrest
      cases hget
      exact Option.isSome_of_eq_some hglobal
    | record table key =>
      obtain ⟨tables, htables, -⟩ := Option.bind_eq_some_iff.mp hc'
      obtain ⟨rows, hrows, hkey⟩ := Option.bind_eq_some_iff.mp hget
      have hturned := Dict.traverse_isSome.mp (Option.isSome_of_eq_some htables) table rows hrows
      exact Dict.traverse_isSome.mp hturned key v hkey
  · intro h
    have htables : (c.tables.traverse (fun _ rows => rows.traverse (fun _ => f))).isSome := by
      refine Dict.traverse_isSome.mpr (fun table rows hrows => Dict.traverse_isSome.mpr (fun key v hkey => ?_))
      exact h (.record table key) v (Option.bind_eq_some_iff.mpr ⟨rows, hrows, hkey⟩)
    obtain ⟨tables, htables⟩ := Option.isSome_iff_exists.mp htables
    obtain ⟨global, hglobal⟩ := Option.isSome_iff_exists.mp (h .global c.global rfl)
    simp [traverse, htables, hglobal]

theorem get_map (f : α → β) (c : KvContents α) (slot : KvSlot) : (c.map f).get slot = (c.get slot).map f := by
  cases slot with
  | global => rfl
  | record table key =>
    simp only [map, get, Dict.get?_mapValues]
    cases c.tables.get? table with
    | none => rfl
    | some rows => exact Dict.get?_mapValues f rows key

theorem hasTable_map (f : α → β) (c : KvContents α) (table : String) : (c.map f).HasTable table ↔ c.HasTable table := by
  simp [map, HasTable, Dict.get?_mapValues]

/-! ## Declared tables -/

theorem get_declare (c : KvContents α) (tables : List String) (slot : KvSlot) : (c.declare tables).get slot = c.get slot := by
  cases slot with
  | global => rfl
  | record table key =>
    simp only [declare, get]
    induction tables generalizing c with
    | nil => rfl
    | cons declared tables ih =>
      have hstep := ih { tables := c.tables.setDefault declared .empty, global := c.global }
      rw [List.foldl_cons, hstep, Dict.get?_setDefault]
      by_cases htable : table = declared
      · subst htable
        cases hget : c.tables.get? table <;> simp
      · rw [if_neg htable]

theorem hasTable_declare (c : KvContents α) (tables : List String) (table : String) :
    (c.declare tables).HasTable table ↔ c.HasTable table ∨ table ∈ tables := by
  simp only [declare, HasTable]
  induction tables generalizing c with
  | nil => simp
  | cons declared tables ih =>
    have hstep := ih { tables := c.tables.setDefault declared .empty, global := c.global }
    rw [List.foldl_cons, hstep, Dict.get?_setDefault]
    by_cases htable : table = declared
    · simp [htable]
    · simp [htable]

end KvContents

end Pydsh
