import Pydsh.Persistence.RoundTrip
import Pydsh.Projection.Registry

/-!
# The cold read

`restore_floor` and `restore` of `session/projection.py` and the cold path of `session/cache.py`: from which seq a cold read
must have the log, how each unit is seeded from its row and folded over the rest, and when the rows are given up for the whole
log. Storage is the table of cache records by session id; the write-back of a cold read is what it returns beside the snapshot.
-/

namespace Pydsh

variable {S V E : Type}

/-! ## `SessionProjections` -/

/-- The first seq a unit needs, by its row. -/
def rowNeed (rows : List (String × Row S)) (d : ProjectionDefinition S V E) : Int :=
  match field? rows d.key with
  | some row => if row.ver = d.stateVersion then row.seq + 1 else firstSeq
  | none => firstSeq

/-- The loop of `restore_floor`. -/
def lowestNeed (rows : List (String × Row S)) : Option Int → List (ProjectionDefinition S V E) → Option Int
  | floor, [] => floor
  | none, d :: ds => lowestNeed rows (some (rowNeed rows d)) ds
  | some floor, d :: ds => lowestNeed rows (some (min floor (rowNeed rows d))) ds

/-- `restore_floor`. -/
def restoreFloor (ds : List (ProjectionDefinition S V E)) (rows : List (String × Row S)) : Option Int :=
  (lowestNeed rows none ds).map (fun floor => max (floor - 1) emptyWatermark)

/-- Why `restore` raises. -/
inductive RestoreError (E : Type) where
  /-- The row of a unit is unusable and only a tail was supplied. -/
  | unusable (key : String) (baseSeq : Int)
  /-- `apply` of a unit raised. -/
  | apply (exc : E)
  /-- The view or the validator of a unit raised. -/
  | view (exc : E)

/-- The seq of the end of the supplied events. -/
def endSeqOf (events : List SessionEvent) (baseSeq : Int) : Int :=
  match events.getLast? with
  | some event => event.seq
  | none => baseSeq - 1

/-- Whether the row of a unit can be folded forward. -/
def Row.usable (row : Row S) (version baseSeq endSeq : Int) : Bool :=
  row.ver == version && decide (row.seq ≥ baseSeq - 1) && decide (row.seq ≤ endSeq)

/-- The row a unit is seeded from, if it has one that is usable. -/
def seedRow (rows : List (String × Row S)) (d : ProjectionDefinition S V E) (baseSeq endSeq : Int) : Option (Row S) :=
  (field? rows d.key).filter (fun row => row.usable d.stateVersion baseSeq endSeq)

/-- One turn of the loop of `restore`: the unit's value, and its row. -/
def restoreUnit (rows : List (String × Row S)) (events : List SessionEvent) (baseSeq : Int) (d : ProjectionDefinition S V E) :
    Except (RestoreError E) ((String × V) × (String × Row S)) :=
  let endSeq := endSeqOf events baseSeq
  let seed := seedRow rows d baseSeq endSeq
  if seed.isNone && decide (baseSeq > firstSeq) then .error (.unusable d.key baseSeq)
  else
    let state := (seed.map (·.val)).getD d.init
    let fromSeq := (seed.map (·.seq)).getD (baseSeq - 1)
    match d.run state (events.filter (fun event => decide ((event.seq : Int) > fromSeq))) with
    | .error exc => .error (.apply exc)
    | .ok state =>
      match d.validated state with
      | .error exc => .error (.view exc)
      | .ok value => .ok ((d.key, value), (d.key, ⟨d.stateVersion, endSeq, state⟩))

/-- `restore`: the snapshot and the refreshed rows. -/
def restore (ds : List (ProjectionDefinition S V E)) (rows : List (String × Row S)) (events : List SessionEvent)
    (baseSeq : Int) : Except (RestoreError E) (Snapshot V × List (String × Row S)) := do
  let units ← ds.mapM (restoreUnit rows events baseSeq)
  return ({ asOfSeq := endSeqOf events baseSeq, values := units.map (·.1) }, units.map (·.2))

/-! ## `ProjectionCache` -/

/-- `_identity_of`: what ties a record to one session's lifetime. -/
structure Identity where
  id : String
  createdAt : Rat
  version : Int
  deriving DecidableEq

/-- `_identity_of`. -/
def identityOf (header : SessionHeader) : Identity := ⟨header.id, header.createdAt, header.version⟩

/-- The cache's record of one session: the identity witness and the checkpoint rows. -/
structure CacheRecord (S : Type) where
  identity : Identity
  rows : List (String × Row S)

/-- The rows of a record, if there is one. -/
def cachedRows (record : Option (CacheRecord S)) : List (String × Row S) := (record.map (·.rows)).getD []

/-- A record of this lifetime, or none. -/
def isRelated (record : Option (CacheRecord S)) (header : SessionHeader) : Bool :=
  match record with
  | none => true
  | some record => record.identity == identityOf header

variable (loadsText : String → Option (List (PyKey × PyValue)))

/-- The lowest need is a lower bound of all needs, and one of them. -/
theorem lowestNeed_some (rows : List (String × Row S)) (ds : List (ProjectionDefinition S V E)) (start : Int) :
    ∃ floor, lowestNeed rows (some start) ds = some floor ∧ floor ≤ start ∧ (∀ d ∈ ds, floor ≤ rowNeed rows d) ∧
      (floor = start ∨ ∃ d ∈ ds, floor = rowNeed rows d) := by
  induction ds generalizing start with
  | nil => exact ⟨start, rfl, Int.le_refl _, by simp, Or.inl rfl⟩
  | cons d ds ih =>
    obtain ⟨floor, hfloor, hle, hall, hone⟩ := ih (min start (rowNeed rows d))
    refine ⟨floor, hfloor, by omega, ?_, ?_⟩
    · intro d' hd'
      rcases List.mem_cons.mp hd' with rfl | hd'
      · omega
      · exact hall d' hd'
    · rcases hone with hone | ⟨d', hd', hone⟩
      · rcases Int.le_total start (rowNeed rows d) with hmin | hmin
        · exact Or.inl (by omega)
        · exact Or.inr ⟨d, List.mem_cons_self, by omega⟩
      · exact Or.inr ⟨d', List.mem_cons_of_mem d hd', hone⟩

/-- Some unit has seen nothing of the log, by its row: it has none of its version, or one that stands before the first seq. -/
def SomeUnseen (ds : List (ProjectionDefinition S V E)) (rows : List (String × Row S)) : Prop :=
  ∃ d ∈ ds, ∀ row, field? rows d.key = some row → row.ver = d.stateVersion → row.seq ≤ emptyWatermark

/-- A unit needs the whole log when it has seen nothing of it. -/
theorem rowNeed_le_iff {rows : List (String × Row S)} {d : ProjectionDefinition S V E} :
    rowNeed rows d ≤ firstSeq ↔ ∀ row, field? rows d.key = some row → row.ver = d.stateVersion → row.seq ≤ emptyWatermark := by
  unfold rowNeed
  cases hrow : field? rows d.key with
  | none => simp
  | some row =>
    by_cases hver : row.ver = d.stateVersion
    · simp only [hver, if_true, firstSeq, emptyWatermark, Option.some.injEq, forall_eq', forall_const]
      omega
    · simp [hver]

/-- With units, the floor is the lowest watermark, and at least the empty one. It is the empty one when some unit has seen
nothing. -/
theorem restoreFloor_spec {ds : List (ProjectionDefinition S V E)} (hds : ds ≠ []) (rows : List (String × Row S)) :
    ∃ floor, restoreFloor ds rows = some floor ∧ 0 ≤ floor ∧ (floor = 0 ↔ SomeUnseen ds rows) ∧
      ∀ d ∈ ds, 0 < floor → ∃ row, field? rows d.key = some row ∧ row.ver = d.stateVersion ∧ floor ≤ row.seq := by
  cases ds with
  | nil => exact absurd rfl hds
  | cons d ds =>
    obtain ⟨low, hlow, hle, hall, hone⟩ := lowestNeed_some rows ds (rowNeed rows d)
    have hneed : ∀ d' ∈ d :: ds, low ≤ rowNeed rows d' := by
      intro d' hd'
      rcases List.mem_cons.mp hd' with rfl | hd'
      · exact hle
      · exact hall d' hd'
    refine ⟨max (low - 1) emptyWatermark, ?_, ?_, ?_, ?_⟩
    · simp only [restoreFloor, lowestNeed, hlow, Option.map_some]
    · exact Int.le_max_right _ _
    · have hzero : max (low - 1) (emptyWatermark : Int) = 0 ↔ low ≤ firstSeq := by
        simp only [emptyWatermark, firstSeq]
        omega
      rw [hzero]
      constructor
      · intro hlow
        rcases hone with hone | ⟨d', hd', hone⟩
        · exact ⟨d, List.mem_cons_self, rowNeed_le_iff.mp (hone ▸ hlow)⟩
        · exact ⟨d', List.mem_cons_of_mem d hd', rowNeed_le_iff.mp (hone ▸ hlow)⟩
      · rintro ⟨d', hd', hunseen⟩
        exact Int.le_trans (hneed d' hd') (rowNeed_le_iff.mpr hunseen)
    · intro d' hd' hpos
      have hlow' := hneed d' hd'
      simp only [emptyWatermark] at hpos
      unfold rowNeed at hlow'
      cases hrow : field? rows d'.key with
      | none =>
        simp only [hrow, firstSeq] at hlow'
        omega
      | some row =>
        simp only [hrow] at hlow'
        split at hlow'
        · rename_i hver
          refine ⟨row, rfl, hver, ?_⟩
          simp only [emptyWatermark]
          omega
        · simp only [firstSeq] at hlow'
          omega

end Pydsh
