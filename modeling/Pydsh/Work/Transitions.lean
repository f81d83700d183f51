import Pydsh.Lib.Result
import Pydsh.Work.Goals

/-!
# What a goal transition says and what the fold checks of it

`apply_goal_change` compares the id and the revision of a change with the current goal. The status, `created_at` and `updated_at` that a
change carries it takes over as they stand, whatever the operation. So a change that is accepted makes the transition its operation
names exactly where it says so itself (`applyGoalChange_moves_iff`).
-/

namespace Pydsh

/-- The value of a number: `1` and `1.0` have one. -/
def PyNumber.value : PyNumber → PyFloat
  | .int i => .finite i
  | .float f => f

/-- The status an operation prescribes from the current goal; `none` where no goal is left. -/
def prescribedStatus (current : Option Goal) : Option SnapshotOperation → Option GoalStatus
  | none => none
  | some .create => some .active
  | some operation => current.bind (fun goal => nextStatus goal operation)

/-- The transition of an operation: the goal after it has the status prescribed; and unless it is a new goal, it has the id and the
`created_at` of the one before, and its `updated_at` is not before that one's. -/
structure GoalState.Moves (state : GoalState) (operation : Option SnapshotOperation) (state' : GoalState) : Prop where
  status : state'.current.map (·.status) = prescribedStatus state.current operation
  keeps : operation ≠ some .create → ∀ current goal, state.current = some current → state'.current = some goal →
    goal.id = current.id ∧ goal.createdAt.value = current.createdAt.value ∧ goal.updatedAt.lt current.updatedAt = false

/-- The entries of a dict. -/
def PyValue.entries : PyValue → PyDict
  | .dict kvs => kvs
  | _ => []

/-- What is logged as the operation of a change. -/
def saidOperation (raw : PyValue) : PyValue := PyDict.item raw.entries "operation"

/-- What a change says of the goal it carries. -/
def saidOfGoal (raw : PyValue) (field : String) : PyValue := PyDict.item (PyDict.item raw.entries "goal").entries field

/-- A change says the transition of its operation: the goal it carries is given the status prescribed and, unless it is a new one, the
current goal's `created_at` and an `updated_at` that is not before the current goal's. A tombstone says nothing more. -/
structure GoalState.Says (state : GoalState) (raw : PyValue) (operation : SnapshotOperation) : Prop where
  status : some (saidOfGoal raw "status") = (prescribedStatus state.current operation).map GoalStatus.toPy
  createdAt : operation ≠ .create → ∀ current, state.current = some current →
    ((saidOfGoal raw "created_at").asNumber?.map PyNumber.value) = some current.createdAt.value
  updatedAt : operation ≠ .create → ∀ current, state.current = some current →
    ((saidOfGoal raw "updated_at").asNumber?.map (fun at_ => at_.lt current.updatedAt)) = some false

/-! ## What the decoder reads -/

theorem GoalStatus.toPy_injective {x y : GoalStatus} (h : x.toPy = y.toPy) : x = y := by
  cases x <;> cases y <;> first | rfl | simp [GoalStatus.toPy] at h

theorem goalObject_ok {value : PyValue} {what : String} {d : PyDict} (h : goalObject value what = .ok d) : value.entries = d := by
  unfold goalObject at h
  split at h
  · cases h
    rfl
  · cases h

theorem goalStatus_ok {value : PyValue} {status : GoalStatus} (h : goalStatus value = .ok status) : value = status.toPy := by
  unfold goalStatus at h
  split at h <;> cases h <;> rfl

theorem nonNegative_ok {value : PyValue} {field : String} {number : PyNumber} (h : nonNegative value field = .ok number) :
    value.asNumber? = some number := by
  unfold nonNegative at h
  split at h
  · rename_i number' hnumber
    split at h
    · cases h
    · cases h
      exact hnumber
  · cases h

theorem decodeGoal_ok {value : PyValue} {goal : Goal} (h : decodeGoal value = .ok goal) :
    PyDict.item value.entries "status" = goal.status.toPy ∧
      (PyDict.item value.entries "created_at").asNumber? = some goal.createdAt ∧
      (PyDict.item value.entries "updated_at").asNumber? = some goal.updatedAt := by
  unfold decodeGoal at h
  obtain ⟨d, hd, h⟩ := Except.bind_eq_ok_iff.mp h
  obtain ⟨-, -, h⟩ := Except.bind_eq_ok_iff.mp h
  obtain ⟨id, -, h⟩ := Except.bind_eq_ok_iff.mp h
  obtain ⟨status, hstatus, h⟩ := Except.bind_eq_ok_iff.mp h
  obtain ⟨text, -, h⟩ := Except.bind_eq_ok_iff.mp h
  obtain ⟨createdAt, hcreated, h⟩ := Except.bind_eq_ok_iff.mp h
  obtain ⟨updatedAt, hupdated, h⟩ := Except.bind_eq_ok_iff.mp h
  rw [goalObject_ok hd]
  split at h
  · obtain ⟨revision, -, h⟩ := Except.bind_eq_ok_iff.mp h
    cases h
    exact ⟨goalStatus_ok hstatus, nonNegative_ok hcreated, nonNegative_ok hupdated⟩
  · cases h

/-- A decoded change has the operation it says and the goal it says. -/
theorem decodeGoalChange_ok {raw : PyValue} {change : GoalChange} (h : decodeGoalChange raw = .ok change) :
    (goalOperation (saidOperation raw) = .ok none ∧ change.next = none) ∨
      ∃ operation goal, goalOperation (saidOperation raw) = .ok (some operation) ∧ change = .snapshot operation goal ∧
        decodeGoal (PyDict.item raw.entries "goal") = .ok goal := by
  unfold decodeGoalChange at h
  obtain ⟨d, hd, h⟩ := Except.bind_eq_ok_iff.mp h
  split at h
  · cases h
  · obtain ⟨-, -, h⟩ := Except.bind_eq_ok_iff.mp h
    obtain ⟨operation, hoperation, h⟩ := Except.bind_eq_ok_iff.mp h
    unfold saidOperation
    rw [goalObject_ok hd]
    cases operation with
    | none =>
      obtain ⟨-, -, h⟩ := Except.bind_eq_ok_iff.mp h
      obtain ⟨cleared, -, h⟩ := Except.bind_eq_ok_iff.mp h
      obtain ⟨clearedAt, -, h⟩ := Except.bind_eq_ok_iff.mp h
      cases h
      exact Or.inl ⟨hoperation, rfl⟩
    | some operation =>
      obtain ⟨-, -, h⟩ := Except.bind_eq_ok_iff.mp h
      obtain ⟨goal, hgoal, h⟩ := Except.bind_eq_ok_iff.mp h
      cases h
      exact Or.inr ⟨operation, goal, hoperation, rfl, hgoal⟩

/-! ## What is accepted -/

theorem GoalState.Moves.cleared {state state' : GoalState} (h : state'.current = none) : state.Moves none state' := by
  refine ⟨by rw [h]; rfl, fun _ current goal _ hgoal => ?_⟩
  rw [h] at hgoal
  cases hgoal

/-- A goal that replaces the current one, where ids are checked: the transition is the operation's exactly if the change says so. -/
theorem GoalState.moves_iff_says {state state' : GoalState} {raw : PyValue} {operation : SnapshotOperation} {goal : Goal}
    (hgoal : decodeGoal (PyDict.item raw.entries "goal") = .ok goal) (hnext : state'.current = some goal)
    (hid : operation ≠ .create → ∀ current, state.current = some current → goal.id = current.id) :
    state.Moves (some operation) state' ↔ state.Says raw operation := by
  obtain ⟨hstatus, hcreated, hupdated⟩ := decodeGoal_ok hgoal
  constructor
  · intro h
    have hkeeps : operation ≠ .create → ∀ current, state.current = some current →
        goal.createdAt.value = current.createdAt.value ∧ goal.updatedAt.lt current.updatedAt = false := by
      intro hop current hcurrent
      exact (h.keeps (by simpa using hop) current goal hcurrent hnext).2
    refine ⟨?_, fun hop current hcurrent => ?_, fun hop current hcurrent => ?_⟩
    · rw [← h.status, hnext]
      exact congrArg some hstatus
    · rw [saidOfGoal, hcreated]
      exact congrArg some (hkeeps hop current hcurrent).1
    · rw [saidOfGoal, hupdated]
      exact congrArg some (hkeeps hop current hcurrent).2
  · intro h
    have hprescribed : prescribedStatus state.current operation = some goal.status := by
      have hsaid := h.status
      rw [saidOfGoal, hstatus] at hsaid
      obtain ⟨status, hpre, heq⟩ := Option.map_eq_some_iff.mp hsaid.symm
      rw [hpre, GoalStatus.toPy_injective heq]
    refine ⟨by rw [hnext, hprescribed]; rfl, fun hop current goal' hcurrent hgoal' => ?_⟩
    cases hnext.symm.trans hgoal'
    have hop : operation ≠ .create := by simpa using hop
    have hcreatedAt := h.createdAt hop current hcurrent
    have hupdatedAt := h.updatedAt hop current hcurrent
    rw [saidOfGoal, hcreated] at hcreatedAt
    rw [saidOfGoal, hupdated] at hupdatedAt
    exact ⟨hid hop current hcurrent, Option.some.inj hcreatedAt, Option.some.inj hupdatedAt⟩

/-- A change that is accepted makes the transition of its operation exactly where it is a tombstone or says that transition itself. -/
theorem applyGoalChange_moves_iff {state state' : GoalState} {raw : PyValue} (h : applyGoalChange state raw = .ok state') :
    (∃ operation, goalOperation (saidOperation raw) = .ok operation ∧ state.Moves operation state') ↔
      ∀ operation, goalOperation (saidOperation raw) = .ok (some operation) → state.Says raw operation := by
  obtain ⟨change, hdecode, hfollow⟩ := applyGoalChange_ok h
  obtain ⟨htakes, hwhy⟩ := GoalState.follow_ok hfollow
  rcases decodeGoalChange_ok hdecode with ⟨hoperation, hnone⟩ | ⟨operation, goal, hoperation, rfl, hgoal⟩
  · refine iff_of_true ⟨none, hoperation, .cleared (htakes.current.trans hnone)⟩ ?_
    intro operation hsome
    rw [hoperation] at hsome
    cases hsome
  · have hid : operation ≠ .create → ∀ current, state.current = some current → goal.id = current.id := by
      intro hop current hcurrent
      rcases hwhy with ⟨goal', hcreate, -⟩ | ⟨current', hcurrent', hid, -⟩
      · cases hcreate
        exact absurd rfl hop
      · cases hcurrent.symm.trans hcurrent'
        exact hid
    rw [hoperation]
    have hiff := GoalState.moves_iff_says hgoal htakes.current hid
    constructor
    · rintro ⟨operation', heq, hmoves⟩ operation'' heq'
      cases heq
      cases heq'
      exact hiff.mp hmoves
    · intro hall
      exact ⟨some operation, rfl, hiff.mpr (hall operation rfl)⟩

/-- A goal that was paused. -/
def pausedGoal : Goal :=
  { id := "g1"
    revision := 2
    status := .paused
    text := "write the report"
    createdAt := .int 1
    updatedAt := .int 5
    named := by decide
    positive := by decide
    notEarlier := by decide }

/-- A change that resumes `pausedGoal`, with a status and times of its own. -/
def resumption (status : String) (createdAt updatedAt : Int) : PyValue :=
  .record [("version", .int 1), ("operation", .str "resume"),
    ("goal", .record [("id", .str "g1"), ("revision", .int 3), ("status", .str status), ("text", .str "write the report"),
      ("created_at", .int createdAt), ("updated_at", .int updatedAt)])]

/-- `pausedGoal`, resumed. -/
def resumedGoal : Goal :=
  { id := "g1"
    revision := 3
    status := .active
    text := "write the report"
    createdAt := .int 1
    updatedAt := .int 6
    named := by decide
    positive := by decide
    notEarlier := by decide }

theorem applyGoalChange_moves_iff_resumption :
    ∃ operation, goalOperation (saidOperation (resumption "active" 1 6)) = .ok operation ∧
      GoalState.Moves { current := some pausedGoal } operation
        { current := some resumedGoal, history := [.snapshot .resume resumedGoal] } := by
  refine (applyGoalChange_moves_iff rfl).mpr ?_
  intro operation h
  cases h
  refine ⟨rfl, ?_, ?_⟩
  · rintro - current hcurrent
    cases hcurrent
    rfl
  · rintro - current hcurrent
    cases hcurrent
    rfl

/-- A resumption that says the goal was completed, was created later and updated earlier is accepted as it is. -/
theorem applyGoalChange_other_transition :
    ¬∀ state raw state', applyGoalChange state raw = .ok state' →
      ∃ operation, goalOperation (saidOperation raw) = .ok operation ∧ state.Moves operation state' := by
  intro h
  obtain ⟨state', happly, hstatus⟩ : ∃ state', applyGoalChange { current := some pausedGoal } (resumption "completed" 2 3) = .ok state' ∧
      state'.current.map (·.status) = some .completed := ⟨_, rfl, rfl⟩
  obtain ⟨operation, hoperation, hmoves⟩ := h _ _ _ happly
  cases hoperation
  have hactive := hmoves.status
  rw [hstatus] at hactive
  cases hactive

end Pydsh
