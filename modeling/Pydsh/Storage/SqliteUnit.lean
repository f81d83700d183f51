import Pydsh.Lib.Table
import Pydsh.Storage.Unit

/-!
# The SQLite backend for units

`storage/sqlite_backend.py`: the same contract over one row per record, in a database that other units share. A unit is stamped with
its version when it is first opened; its tables are whatever its rows name. A cell that `json.dumps` wrote is modelled by what
`json.loads` gives for it. Every call is one statement in a transaction of its own, so one that raises changes nothing.
-/

namespace Pydsh

/-- A row of `storage_units`. -/
structure UnitRow where
  unit : String
  version : Int

/-- A row of `storage_records`. -/
structure RecordRow where
  unit : String
  tbl : String
  key : String
  value : Parsed

/-- `PRIMARY KEY (unit, tbl, key)`. -/
def RecordRow.primary (r : RecordRow) : String × String × String := (r.unit, r.tbl, r.key)

/-- A row of `storage_global`. -/
structure GlobalRow where
  unit : String
  value : Parsed

/-- The database, its primary keys included. -/
structure StorageDb where
  units : Table UnitRow.unit
  records : Table RecordRow.primary
  globals : Table GlobalRow.unit

/-- Why a call on a unit raises. -/
inductive SqliteError where
  | storage (e : StorageError)
  /-- `json.dumps` raised. -/
  | notJson
  /-- `OverflowError`: an int that a column cannot hold. -/
  | overflow

/-- The ints an `INTEGER` column holds: 64 bits with a sign. -/
def fitsInteger (i : Int) : Bool := decide (-9223372036854775808 ≤ i) && decide (i < 9223372036854775808)

/-- One opened unit, backed by rows in a shared database. -/
structure SqliteKvUnit where
  name : String
  version : Int
  tables : List String
  closed : Bool

namespace SqliteKvUnit

/-- The handle for a descriptor. -/
def handle (descriptor : UnitDescriptor) : SqliteKvUnit :=
  { name := descriptor.name
    version := descriptor.version
    tables := descriptor.tables
    closed := false }

/-- `SqliteKvUnit(connection, lock, descriptor)`. -/
def «open» (descriptor : UnitDescriptor) (db : StorageDb) : Except SqliteError SqliteKvUnit × StorageDb :=
  match db.units.find? descriptor.name with
  | none =>
    if fitsInteger descriptor.version then
      (.ok (handle descriptor), { db with units := db.units.upsert ⟨descriptor.name, descriptor.version⟩ })
    else (.error .overflow, db)
  | some row =>
    if row.version ≠ descriptor.version then
      (.error (.storage ⟨.versionMismatch, "storage-sqlite: unit " ++ quoted descriptor.name ++ " on disk is version " ++
        toString row.version ++ ", expected " ++ toString descriptor.version⟩), db)
    else (.ok (handle descriptor), db)

/-- `_assert_open`. -/
def assertOpen (u : SqliteKvUnit) : Except SqliteError Unit :=
  if u.closed then .error (.storage ⟨.closed, "storage-sqlite: unit " ++ quoted u.name ++ " is closed"⟩) else .ok ()

/-- The rows of the unit, as the `SELECT` of `load_all` gives them. -/
def rowsOf (u : SqliteKvUnit) (db : StorageDb) : List RecordRow := db.records.rows.filter (fun r => r.unit = u.name)

/-- The global value of the unit. -/
def globalOf (u : SqliteKvUnit) (db : StorageDb) : PyValue := ((db.globals.find? u.name).map (·.value.value)).getD .none

/-- The tables and the global value that a handle reads from its rows. -/
def loaded (u : SqliteKvUnit) (db : StorageDb) : KvContents PyValue :=
  (KvContents.declare { tables := .empty, global := u.globalOf db } u.tables).applyAll
    ((u.rowsOf db).map (fun r => .putRecord r.tbl r.key r.value.value))

/-- `load_all`. -/
def loadAll (u : SqliteKvUnit) (db : StorageDb) : Except SqliteError (KvContents PyValue) :=
  u.assertOpen.map (fun _ => u.loaded db)

/-- A call with its value encoded by `json.dumps`. -/
def encodeOp (op : KvOp PyValue) : Except SqliteError (KvOp Parsed) :=
  (op.traverse PyValue.written).elim (.error .notJson) .ok

/-- The statement of a call. -/
def execute (u : SqliteKvUnit) (db : StorageDb) : KvOp Parsed → StorageDb
  | .putRecord table key value => { db with records := db.records.upsert ⟨u.name, table, key, value⟩ }
  | .deleteRecord table key => { db with records := db.records.delete (u.name, table, key) }
  | .setGlobal value => { db with globals := db.globals.upsert ⟨u.name, value⟩ }

/-- A call that writes. -/
def write (u : SqliteKvUnit) (op : KvOp PyValue) (db : StorageDb) : Except SqliteError Unit × StorageDb :=
  match u.assertOpen with
  | .error e => (.error e, db)
  | .ok () =>
    match encodeOp op with
    | .error e => (.error e, db)
    | .ok op => (.ok (), u.execute db op)

/-- `put_record`. -/
def putRecord (u : SqliteKvUnit) (table key : String) (value : PyValue) := u.write (.putRecord table key value)

/-- `delete_record`. -/
def deleteRecord (u : SqliteKvUnit) (table key : String) := u.write (.deleteRecord table key)

/-- `set_global`. -/
def setGlobal (u : SqliteKvUnit) (value : PyValue) := u.write (.setGlobal value)

/-- `close`. -/
def close (u : SqliteKvUnit) : SqliteKvUnit := { u with closed := true }

end SqliteKvUnit

/-! ## What the rows of a unit hold -/

namespace StorageDb

/-- The value in a slot of a unit. -/
def get (db : StorageDb) (name : String) : KvSlot → Option Parsed
  | .record table key => (db.records.find? (name, table, key)).map (·.value)
  | .global => (db.globals.find? name).map (·.value)

end StorageDb

namespace SqliteKvUnit

/-- A call leaves its value in its slot, and the other slots of the unit as they were. -/
theorem get_execute (u : SqliteKvUnit) (db : StorageDb) (op : KvOp Parsed) (slot : KvSlot) :
    (u.execute db op).get u.name slot = if slot = op.slot then op.left else db.get u.name slot := by
  cases op with
  | putRecord table key value =>
    cases slot with
    | global => rfl
    | record table' key' =>
      simp only [execute, StorageDb.get, KvOp.slot, KvOp.left, Table.find?_upsert, RecordRow.primary, Prod.mk.injEq, true_and,
        KvSlot.record.injEq]
      split <;> rfl
  | deleteRecord table key =>
    cases slot with
    | global => rfl
    | record table' key' =>
      simp only [execute, StorageDb.get, KvOp.slot, KvOp.left, Table.find?_delete, Prod.mk.injEq, true_and, KvSlot.record.injEq]
      split <;> rfl
  | setGlobal value =>
    cases slot with
    | global => simp [execute, StorageDb.get, KvOp.slot, KvOp.left, Table.find?_upsert]
    | record table' key' => rfl

@[simp] theorem encodeOp_parsed (op : KvOp Parsed) : encodeOp (op.map Parsed.value) = .ok op := by
  cases op <;> simp [encodeOp, KvOp.map, KvOp.traverse]

@[simp] theorem units_execute (u : SqliteKvUnit) (db : StorageDb) (op : KvOp Parsed) : (u.execute db op).units = db.units := by
  cases op <;> rfl

/-- What is loaded has, under each key, the value of the row with that key. -/
theorem get_loaded_record (u : SqliteKvUnit) (db : StorageDb) (table key : String) :
    (u.loaded db).get (.record table key) = (db.get u.name (.record table key)).map Parsed.value := by
  simp only [loaded, StorageDb.get]
  cases hfind : db.records.find? (u.name, table, key) with
  | none =>
    have hnone : ∀ r ∈ u.rowsOf db, ¬ (r.tbl = table ∧ r.key = key) := by
      rintro r hr ⟨rfl, rfl⟩
      obtain ⟨hr, hunit⟩ := List.mem_filter.mp hr
      have hsome : db.records.find? (u.name, r.tbl, r.key) = some r :=
        Table.find?_eq_some.mpr ⟨hr, by simpa [RecordRow.primary] using hunit⟩
      rw [hfind] at hsome
      cases hsome
    rw [KvContents.get_applyAll_of_ne]
    · rw [KvContents.get_declare]
      rfl
    · intro op hop
      obtain ⟨r, hr, rfl⟩ := List.mem_map.mp hop
      intro heq
      cases heq
      exact hnone r hr ⟨rfl, rfl⟩
  | some row =>
    obtain ⟨hrow, hprimary⟩ := Table.find?_eq_some.mp hfind
    obtain ⟨hunit, htable, hkey⟩ : row.unit = u.name ∧ row.tbl = table ∧ row.key = key := by
      simpa [RecordRow.primary] using hprimary
    subst htable hkey
    have hmem : row ∈ u.rowsOf db := List.mem_filter.mpr ⟨hrow, by simpa using hunit⟩
    obtain ⟨before, after, hsplit⟩ := List.append_of_mem hmem
    have hdistinct : ((u.rowsOf db).map RecordRow.primary).Nodup :=
      db.records.unique.sublist (List.filter_sublist.map RecordRow.primary)
    have hlater : ∀ later ∈ after, ¬ (later.tbl = row.tbl ∧ later.key = row.key) := by
      rintro later hlater ⟨htbl, hkey⟩
      have hunit' : later.unit = u.name := by
        have hin : later ∈ u.rowsOf db := by simp [hsplit, hlater]
        simpa using (List.mem_filter.mp hin).2
      rw [hsplit, List.map_append, List.map_cons, List.nodup_append'] at hdistinct
      refine (List.nodup_cons.mp hdistinct.2.1).1 (List.mem_map.mpr ⟨later, hlater, ?_⟩)
      simp [RecordRow.primary, htbl, hkey, hunit, hunit']
    rw [hsplit, List.map_append, List.map_cons]
    refine KvContents.get_applyAll_last _ _ (.putRecord row.tbl row.key row.value.value) (fun op hop => ?_)
    obtain ⟨later, hin, rfl⟩ := List.mem_map.mp hop
    intro heq
    exact hlater later hin (KvSlot.record.inj heq)

/-- The global value that is loaded, `None` where none was set. -/
theorem global_loaded (u : SqliteKvUnit) (db : StorageDb) :
    (u.loaded db).global = ((db.get u.name .global).map Parsed.value).getD .none := by
  have hget : (u.loaded db).get .global = some (u.globalOf db) := by
    rw [loaded, KvContents.get_applyAll_of_ne]
    · rfl
    · intro op hop
      obtain ⟨r, -, rfl⟩ := List.mem_map.mp hop
      intro heq
      cases heq
  have hglobal : (u.loaded db).global = u.globalOf db := Option.some.inj hget
  rw [hglobal, globalOf, StorageDb.get, Option.map_map]
  rfl

end SqliteKvUnit

end Pydsh
