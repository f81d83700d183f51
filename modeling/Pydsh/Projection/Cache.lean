import Pydsh.Lib.Dict
import Pydsh.Projection.Restore

/-!
# The cached read

`view_checkpoint` of `session/projection.py` and the read of `session/cache.py` that touches no log: the record under the id that
a header names, if its identity is that of the header, and what the units show of its rows.
-/

namespace Pydsh

variable {S V E : Type}

/-- `_record_for`: the record of the lifetime a header names. -/
def recordFor (table : Dict String (CacheRecord S)) (header : SessionHeader) : Option (CacheRecord S) :=
  match table.get? header.id with
  | none => none
  | some record => if record.identity ≠ identityOf header then none else some record

/-- The row of a unit, where its version still matches. -/
def matchingRow (rows : List (String × Row S)) (d : ProjectionDefinition S V E) : Option (Row S) :=
  (field? rows d.key).filter (fun row => row.ver == d.stateVersion)

/-- `view_checkpoint`: the values, each with the row it is the view of. -/
def viewCheckpoint (rows : List (String × Row S)) : List (ProjectionDefinition S V E) → Except E (List (String × V × Row S))
  | [] => .ok []
  | d :: ds =>
    match matchingRow rows d with
    | none => viewCheckpoint rows ds
    | some row => do
      let value ← d.validated row.val
      let values ← viewCheckpoint rows ds
      return (d.key, value, row) :: values

/-- `cached_snapshot`. The seq is the lowest of the rows served. -/
def cachedSnapshot (ds : List (ProjectionDefinition S V E)) (table : Dict String (CacheRecord S)) (header : SessionHeader) :
    Except E (Option (Snapshot V)) :=
  match recordFor table header with
  | none => .ok none
  | some record =>
    match viewCheckpoint record.rows ds with
    | .error exc => .error exc
    | .ok [] => .ok none
    | .ok ((key, value, row) :: values) =>
      .ok (some
        { asOfSeq := (values.map (·.2.2.seq)).foldl min row.seq
          values := (key, value) :: values.map (fun kept => (kept.1, kept.2.1)) })

/-- A record that is served is the one under the id, and of the lifetime. -/
theorem recordFor_eq_some {table : Dict String (CacheRecord S)} {header : SessionHeader} {record : CacheRecord S} :
    recordFor table header = some record ↔ table.get? header.id = some record ∧ record.identity = identityOf header := by
  unfold recordFor
  cases htable : table.get? header.id with
  | none => simp
  | some stored =>
    by_cases hid : stored.identity = identityOf header
    · simp only [hid, ne_eq, not_true_eq_false, if_false, Option.some.injEq]
      constructor
      · rintro rfl
        exact ⟨rfl, hid⟩
      · exact And.left
    · simp only [ne_eq, hid, not_false_eq_true, if_true, Option.some.injEq]
      constructor
      · exact nofun
      · rintro ⟨rfl, hrecord⟩
        exact absurd hrecord hid

end Pydsh
