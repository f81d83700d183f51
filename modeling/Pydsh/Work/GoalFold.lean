import Pydsh.Python.Dynamic
import Pydsh.Session.Session

/-!
# Goal changes and what a log of them folds to

`work/goal_fold.py`: a change is decoded from whatever was logged, and follows the current goal by exactly one revision. A decoded
goal and a decoded reference carry what the decoder checked. An error keeps the values its message quotes; `GoalError.code` is its
code.
-/

namespace Pydsh

/-- A Python number that is not a bool. -/
inductive PyNumber where
  | int (i : Int)
  | float (f : PyFloat)
  deriving DecidableEq

namespace PyNumber

/-- `x < y`; a comparison with NaN is false. -/
def lt : PyNumber → PyNumber → Bool
  | .int i, .int k => decide (i < k)
  | .int i, .float (.finite q) => decide ((i : Rat) < q)
  | .float (.finite q), .int k => decide (q < (k : Rat))
  | .float (.finite q), .float (.finite r) => decide (q < r)
  | .float .nan, _ | _, .float .nan => false
  | .float (.inf negative), .float (.inf negative') => negative && !negative'
  | .float (.inf negative), _ => negative
  | _, .float (.inf negative) => !negative

end PyNumber

/-- A value as a number that is not a bool. -/
def PyValue.asNumber? : PyValue → Option PyNumber
  | .int i => some (.int i)
  | .float f => some (.float f)
  | _ => Option.none

/-- `GOAL_CHANGE_VERSION`. -/
def goalChangeVersion : Nat := 1

/-- `GOAL_STATUSES`. -/
inductive GoalStatus where
  | active | paused | completed | blocked
  deriving DecidableEq

/-- `FINISHED_STATUSES`. -/
def GoalStatus.finished : GoalStatus → Bool
  | .completed | .blocked => true
  | .active | .paused => false

/-- `SNAPSHOT_OPERATIONS`. -/
inductive SnapshotOperation where
  | create | edit | pause | resume | complete | block
  deriving DecidableEq

/-- `GoalError`, or the `TypeError` of a value that is in no dict or no sorted list, or what `session.append` raised. -/
inductive GoalError where
  | notObject (what : String)
  | keys (what : String) (missing extra : List String)
  | version (value : PyValue)
  | unknownOperation (value : PyValue)
  | emptyId (what : String)
  | unknownStatus (value : PyValue)
  | emptyText
  | notPositive (field : String) (value : PyValue)
  | negative (field : String) (value : PyValue)
  | updatedBeforeCreated
  | alreadyActive (id : String) (revision : Int)
  | createdRevision
  | noGoal (what : String)
  | otherGoal (named current : String)
  | staleRevision (follows current : Int)
  | typeError
  | append (e : SessionError)

/-- The code of a `GoalError`. -/
def GoalError.code : GoalError → Option String
  | .alreadyActive _ _ => some "GOAL_ALREADY_ACTIVE"
  | .noGoal _ | .otherGoal _ _ => some "GOAL_NOT_FOUND"
  | .staleRevision _ _ => some "GOAL_STALE_REVISION"
  | .typeError | .append _ => none
  | _ => some "GOAL_INVALID_CHANGE"

/-- One complete goal snapshot. -/
structure Goal where
  id : String
  revision : Int
  status : GoalStatus
  text : String
  createdAt : PyNumber
  updatedAt : PyNumber
  named : id ≠ ""
  positive : 1 ≤ revision
  notEarlier : updatedAt.lt createdAt = false

/-- The revision identity a change carries. -/
structure GoalRef where
  id : String
  revision : Int
  deriving DecidableEq

/-- A decoded change: a snapshot, or a tombstone. -/
inductive GoalChange where
  | snapshot (operation : SnapshotOperation) (goal : Goal)
  | clear (cleared : GoalRef) (clearedAt : PyNumber) (positive : 1 ≤ cleared.revision)

/-- `goal_change_ref`. -/
def GoalChange.ref : GoalChange → GoalRef
  | .snapshot _ goal => ⟨goal.id, goal.revision⟩
  | .clear cleared _ _ => cleared

/-- `{"current": ..., "history": [...]}`. -/
structure GoalState where
  current : Option Goal := none
  history : List GoalChange := []

/-! ## Decoding -/

/-- The string keys of a dict, and whether it has any other key. -/
def PyDict.names (d : PyDict) : List String × Bool :=
  (d.filterMap (fun kv =>
    match kv.1 with
    | .str s => some s
    | _ => none),
   d.any (fun kv =>
    match kv.1 with
    | .str _ => false
    | _ => true))

/-- `sorted` of some strings. -/
def sortedNames (names : List String) : List String := names.mergeSort (fun x y => decide (x ≤ y))

/-- `_exact_keys`. A key that is no string makes the message, and so the call, raise `TypeError`. -/
def exactKeys (d : PyDict) (expected : List String) (what : String) : Except GoalError Unit :=
  let (names, others) := PyDict.names d
  let missing := expected.filter (fun name => decide (name ∉ names))
  let extra := names.filter (fun name => decide (name ∉ expected))
  if others then .error .typeError
  else if missing.isEmpty && extra.isEmpty then .ok ()
  else .error (.keys what (sortedNames missing) (sortedNames extra))

/-- `d[key]`, where the key is there. -/
def PyDict.item (d : PyDict) (key : String) : PyValue := (PyDict.get? d key).getD .none

/-- `_positive_int`. -/
def positiveInt (value : PyValue) (field : String) : Except GoalError { i : Int // 1 ≤ i } :=
  match value with
  | .int i => if h : 1 ≤ i then .ok ⟨i, h⟩ else .error (.notPositive field value)
  | _ => .error (.notPositive field value)

/-- `_non_negative`. -/
def nonNegative (value : PyValue) (field : String) : Except GoalError PyNumber :=
  match value.asNumber? with
  | some number => if number.lt (.int 0) then .error (.negative field value) else .ok number
  | none => .error (.negative field value)

/-- A non-empty string. -/
def goalId (value : PyValue) (what : String) : Except GoalError { s : String // s ≠ "" } :=
  match value with
  | .str s => if h : s ≠ "" then .ok ⟨s, h⟩ else .error (.emptyId what)
  | _ => .error (.emptyId what)

/-- `status in GOAL_STATUSES`. -/
def goalStatus (value : PyValue) : Except GoalError GoalStatus :=
  match value with
  | .str "active" => .ok .active
  | .str "paused" => .ok .paused
  | .str "completed" => .ok .completed
  | .str "blocked" => .ok .blocked
  | _ => .error (.unknownStatus value)

/-- A text that is not blank. -/
def goalText (value : PyValue) : Except GoalError String :=
  match value with
  | .str s => if pyStrip s = "" then .error .emptyText else .ok s
  | _ => .error .emptyText

/-- The dict that a value is. -/
def goalObject (value : PyValue) (what : String) : Except GoalError PyDict :=
  match value with
  | .dict kvs => .ok kvs
  | _ => .error (.notObject what)

/-- `_decode_goal`. -/
def decodeGoal (value : PyValue) : Except GoalError Goal := do
  let d ← goalObject value "goal"
  exactKeys d ["id", "revision", "status", "text", "created_at", "updated_at"] "snapshot"
  let id ← goalId (PyDict.item d "id") "goal"
  let status ← goalStatus (PyDict.item d "status")
  let text ← goalText (PyDict.item d "text")
  let createdAt ← nonNegative (PyDict.item d "created_at") "created_at"
  let updatedAt ← nonNegative (PyDict.item d "updated_at") "updated_at"
  if h : updatedAt.lt createdAt = false then
    let revision ← positiveInt (PyDict.item d "revision") "revision"
    return {
      id := id.val
      revision := revision.val
      status
      text
      createdAt
      updatedAt
      named := id.property
      positive := revision.property
      notEarlier := h }
  else throw .updatedBeforeCreated

/-- `_decode_ref`. -/
def decodeRef (value : PyValue) (what : String) : Except GoalError { r : GoalRef // 1 ≤ r.revision } := do
  let d ← goalObject value what
  exactKeys d ["id", "revision"] what
  let id ← goalId (PyDict.item d "id") what
  let revision ← positiveInt (PyDict.item d "revision") (what ++ ".revision")
  return ⟨⟨id.val, revision.val⟩, revision.property⟩

/-- `operation in GOAL_OPERATIONS`; `none` for `clear`. -/
def goalOperation (value : PyValue) : Except GoalError (Option SnapshotOperation) :=
  match value with
  | .str "create" => .ok (some .create)
  | .str "edit" => .ok (some .edit)
  | .str "pause" => .ok (some .pause)
  | .str "resume" => .ok (some .resume)
  | .str "complete" => .ok (some .complete)
  | .str "block" => .ok (some .block)
  | .str "clear" => .ok none
  | .list _ | .dict _ => .error .typeError
  | _ => .error (.unknownOperation value)

/-- `decode_goal_change`. -/
def decodeGoalChange (value : PyValue) : Except GoalError GoalChange := do
  let d ← goalObject value "a goal change"
  if ¬ (PyDict.item d "version").eqNode goalChangeVersion then throw (.version (PyDict.item d "version"))
  let operation ← goalOperation (PyDict.item d "operation")
  match operation with
  | none =>
    exactKeys d ["version", "operation", "cleared", "cleared_at"] "clear change"
    let cleared ← decodeRef (PyDict.item d "cleared") "cleared"
    let clearedAt ← nonNegative (PyDict.item d "cleared_at") "cleared_at"
    return .clear cleared.val clearedAt cleared.property
  | some operation =>
    exactKeys d ["version", "operation", "goal"] "snapshot change"
    let goal ← decodeGoal (PyDict.item d "goal")
    return .snapshot operation goal

/-! ## Folding -/

/-- What a change that follows the current goal leaves as the current goal. -/
def GoalChange.next : GoalChange → Option Goal
  | .snapshot _ goal => some goal
  | .clear _ _ _ => none

/-- A change that follows the current goal, by one revision. -/
def GoalState.succeed (state : GoalState) (change : GoalChange) : Except GoalError GoalState :=
  match state.current with
  | none => .error (.noGoal "change")
  | some current =>
    if change.ref.id ≠ current.id then .error (.otherGoal change.ref.id current.id)
    else if change.ref.revision ≠ current.revision + 1 then
      .error (.staleRevision (change.ref.revision - 1) current.revision)
    else .ok { current := change.next, history := state.history ++ [change] }

/-- `apply_goal_change`, from the decoded change on. -/
def GoalState.follow (state : GoalState) (change : GoalChange) : Except GoalError GoalState :=
  match change with
  | .snapshot .create goal =>
    match state.current.filter (fun current => !current.status.finished) with
    | some current => .error (.alreadyActive current.id current.revision)
    | none =>
      if goal.revision ≠ 1 then .error .createdRevision
      else .ok { current := some goal, history := state.history ++ [change] }
  | change => state.succeed change

/-- `apply_goal_change`. -/
def applyGoalChange (state : GoalState) (raw : PyValue) : Except GoalError GoalState := do
  let change ← decodeGoalChange raw
  state.follow change

/-- `fold_goals`. -/
def foldGoals (changes : List PyValue) : Except GoalError GoalState := changes.foldlM applyGoalChange {}

/-! ## What a change that is accepted does -/

/-- What an accepted change makes of a state: it is the last of the history and decides the current goal. -/
structure GoalState.Takes (state : GoalState) (change : GoalChange) (state' : GoalState) : Prop where
  history : state'.history = state.history ++ [change]
  current : state'.current = change.next

theorem GoalState.succeed_ok {state state' : GoalState} {change : GoalChange} (h : state.succeed change = .ok state') :
    state.Takes change state' ∧ ∃ current, state.current = some current ∧ change.ref.id = current.id ∧
      change.ref.revision = current.revision + 1 := by
  unfold GoalState.succeed at h
  split at h
  · cases h
  · rename_i current hcurrent
    split at h
    · cases h
    · rename_i hid
      split at h
      · cases h
      · rename_i hrevision
        cases h
        exact ⟨⟨rfl, rfl⟩, current, hcurrent, not_not.mp hid, not_not.mp hrevision⟩

/-- A change is accepted where it creates a goal at revision 1 and the current one, if any, is finished; or where it follows the
current goal by one revision. -/
theorem GoalState.follow_ok {state state' : GoalState} {change : GoalChange} (h : state.follow change = .ok state') :
    state.Takes change state' ∧
      ((∃ goal, change = .snapshot .create goal ∧ goal.revision = 1 ∧
          ∀ current, state.current = some current → current.status.finished = true) ∨
        ∃ current, state.current = some current ∧ change.ref.id = current.id ∧ change.ref.revision = current.revision + 1) := by
  unfold GoalState.follow at h
  split at h
  · rename_i goal
    split at h
    · cases h
    · rename_i hnone
      split at h
      · cases h
      · rename_i hrevision
        cases h
        refine ⟨⟨rfl, rfl⟩, Or.inl ⟨goal, rfl, not_not.mp hrevision, fun current hcurrent => ?_⟩⟩
        rw [hcurrent] at hnone
        simpa [Option.filter] using hnone
  · obtain ⟨htakes, hcurrent⟩ := GoalState.succeed_ok h
    exact ⟨htakes, Or.inr hcurrent⟩

theorem applyGoalChange_ok {state state' : GoalState} {raw : PyValue} (h : applyGoalChange state raw = .ok state') :
    ∃ change, decodeGoalChange raw = .ok change ∧ state.follow change = .ok state' := by
  unfold applyGoalChange at h
  cases hdecode : decodeGoalChange raw with
  | error e =>
    rw [hdecode] at h
    cases h
  | ok change =>
    rw [hdecode] at h
    exact ⟨change, rfl, h⟩

theorem foldGoals_concat (changes : List PyValue) (raw : PyValue) :
    foldGoals (changes ++ [raw]) = (foldGoals changes).bind (fun state => applyGoalChange state raw) := by
  unfold foldGoals
  rw [List.foldlM_append]
  cases List.foldlM applyGoalChange {} changes with
  | error e => rfl
  | ok state =>
    change (applyGoalChange state raw).bind pure = applyGoalChange state raw
    cases applyGoalChange state raw <;> rfl

end Pydsh
