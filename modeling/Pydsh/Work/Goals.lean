import Mathlib.Data.List.Nodup
import Pydsh.Lib.Machine
import Pydsh.Projection.Registry
import Pydsh.Session.Logged
import Pydsh.Work.GoalFold

/-!
# Goals are compare-and-set

`work/goals.py` over one session: a writer builds a change from whatever it read, at any time before, and `apply` folds the log, checks
the change against the fold and appends it. So the changes of a goal id carry revisions 1, 2, ... in order, one goal is live, and the
fold of the log never raises and is what the projection of the same log holds event by event (`goals_compare_and_set`). The ids of
created goals are assumed new.
-/

namespace Pydsh

/-- A number, as a value. -/
def PyNumber.toPy : PyNumber → PyValue
  | .int i => .int i
  | .float f => .float f

/-- A status, as a value. -/
def GoalStatus.toPy : GoalStatus → PyValue
  | .active => .str "active"
  | .paused => .str "paused"
  | .completed => .str "completed"
  | .blocked => .str "blocked"

/-- An operation, as a value. -/
def SnapshotOperation.toPy : SnapshotOperation → PyValue
  | .create => .str "create"
  | .edit => .str "edit"
  | .pause => .str "pause"
  | .resume => .str "resume"
  | .complete => .str "complete"
  | .block => .str "block"

/-- `create_change`, with the new id and the time it takes. -/
def createGoalChange (text id : String) (now : Int) : PyValue :=
  .record [("version", .int goalChangeVersion), ("operation", .str "create"),
    ("goal", .record [("id", .str id), ("revision", .int 1), ("status", .str "active"), ("text", .str text),
      ("created_at", .int now), ("updated_at", .int now)])]

/-- The status after an operation; `none` where `next_change` raises `KeyError`. -/
def nextStatus (current : Goal) : SnapshotOperation → Option GoalStatus
  | .create => none
  | .edit => some current.status
  | .pause => some .paused
  | .resume => some .active
  | .complete => some .completed
  | .block => some .blocked

/-- `next_change`. -/
def nextGoalChange (current : Goal) (operation : SnapshotOperation) (text : Option String) (now : Int) : Except GoalError PyValue :=
  match nextStatus current operation with
  | none => .error .typeError
  | some status => .ok (.record [("version", .int goalChangeVersion), ("operation", operation.toPy),
    ("goal", .record [("id", .str current.id), ("revision", .int (current.revision + 1)), ("status", status.toPy),
      ("text", .str (text.getD current.text)), ("created_at", current.createdAt.toPy), ("updated_at", .int now)])])

/-- `clear_change`. -/
def clearGoalChange (current : Goal) (now : Int) : PyValue :=
  .record [("version", .int goalChangeVersion), ("operation", .str "clear"),
    ("cleared", .record [("id", .str current.id), ("revision", .int (current.revision + 1))]), ("cleared_at", .int now)]

/-- `_apply_projection`; an event of another type leaves the same state. -/
def applyGoalProjection (state : GoalState) (event : SessionEvent) : Except GoalError (Option GoalState) :=
  if event.type = .goalChange then (applyGoalChange state event.data.loads).map some else .ok none

/-- `GOAL_PROJECTION`. -/
def goalProjection : ProjectionDefinition GoalState (Option Goal × Int) GoalError :=
  { key := "goal"
    init := {}
    apply := applyGoalProjection
    view := fun state => .ok (state.current, (state.current.map (·.revision)).getD 0) }

/-- The changes of a log. -/
def goalChanges (s : Session) : List PyValue := dataOf .goalChange s.events

/-- `GoalService.state`. -/
def goalState (s : Session) : Except GoalError GoalState := foldGoals (goalChanges s)

/-- The call that puts a change into the log. -/
def goalCall (change : PyValue) (time : Rat) : AppendCall :=
  { eventType := .goalChange
    data := change
    time }

/-- `GoalService.apply`. -/
def applyGoal (s : Session) (change : PyValue) (time : Rat) : Except GoalError (Option Goal) × Session :=
  match goalState s with
  | .error e => (.error e, s)
  | .ok state =>
    match applyGoalChange state change with
    | .error e => (.error e, s)
    | .ok applied =>
      match s.append (goalCall change time) with
      | (.error e, s) => (.error (.append e), s)
      | (.ok _, s) => (.ok applied.current, s)

/-! ## Runs -/

/-- A session, the projection's cell for it, and how the call that just ended did. -/
structure GoalRun where
  session : Session
  cell : Cell GoalState GoalError
  answer : Option (Except GoalError (Option Goal)) := none

/-- A call of the service: a change that some writer built is applied; `set`, `transition` and `clear` build one. The time is the clock's
where the event is made, `now` where the change is. -/
inductive GoalCall where
  | apply (change : PyValue) (time : Rat)
  | set (text id : String) (now : Int) (time : Rat)
  | transition (operation : SnapshotOperation) (now : Int) (time : Rat)
  | clear (now : Int) (time : Rat)

/-- The change a call applies, with the time of its event. -/
def GoalCall.change (state : GoalState) : GoalCall → Except GoalError PyValue × Rat
  | .apply change time => (.ok change, time)
  | .set text id now time =>
    match state.current.filter (fun current => !current.status.finished) with
    | none => (.ok (createGoalChange text id now), time)
    | some current => (nextGoalChange current .edit (some text) now, time)
  | .transition operation now time =>
    match state.current with
    | none => (.error (.noGoal "change"), time)
    | some current => (nextGoalChange current operation none now, time)
  | .clear now time =>
    match state.current with
    | none => (.error (.noGoal "clear"), time)
    | some current => (.ok (clearGoalChange current now), time)

/-- What happens: the service is called; other code appends; a new process goes on from the stored session. -/
inductive GoalAction where
  | call (c : GoalCall)
  | append (call : AppendCall)
  | resume

namespace GoalRun

/-- A new session. -/
def start (id : String) (header : SessionHeader) : GoalRun :=
  { session := .new id header
    cell := goalProjection.fold [] }

/-- The cell after the projection was driven with an event; a faulted cell stays as it is. -/
def drive (cell : Cell GoalState GoalError) (event : SessionEvent) : Cell GoalState GoalError :=
  if cell.fault.isSome then cell else goalProjection.foldFrom cell.state cell.watermark [event]

/-- A call of the service ends: the cell is driven with the event it appended, if it did. -/
def ends (s : GoalRun) (result : Except GoalError (Option Goal) × Session) : GoalRun :=
  { session := result.2
    cell := (result.2.events.drop s.session.events.length).foldl drive s.cell
    answer := some result.1 }

/-- The service is called. -/
def serve (s : GoalRun) (c : GoalCall) : GoalRun :=
  match goalState s.session with
  | .error e => s.ends (.error e, s.session)
  | .ok state =>
    match c.change state with
    | (.error e, _) => s.ends (.error e, s.session)
    | (.ok change, time) => s.ends (applyGoal s.session change time)

/-- What an action does; `none` where it cannot happen. -/
def step (s : GoalRun) : GoalAction → Option GoalRun
  | .call c => some (s.serve c)
  | .append call =>
    if call.eventType = .goalChange then none
    else
      match s.session.append call with
      | (.ok event, session) => some { session, cell := drive s.cell event }
      | (.error _, session) => some { s with session, answer := none }
  | .resume =>
    match Session.fromJson s.session.toJson with
    | .ok session => some { session, cell := goalProjection.fold session.events }
    | .error _ => none

end GoalRun

/-! ## What a history of accepted changes satisfies -/

/-- The revisions that the changes of a goal id carry, in their order. -/
def revisions (history : List GoalChange) (id : String) : List Int :=
  (history.filter (fun c => c.ref.id = id)).map (fun c => c.ref.revision)

/-- `1, ..., n`. -/
def oneTo (n : Nat) : List Int := (List.range n).map (fun (i : Nat) => (i : Int) + 1)

/-- The last change of a goal id. -/
def lastChange (history : List GoalChange) (id : String) : Option GoalChange :=
  (history.filter (fun c => c.ref.id = id)).getLast?

/-- A goal id is live: its last change leaves a goal that is not finished. -/
def LiveGoal (history : List GoalChange) (id : String) : Prop :=
  ∃ change goal, lastChange history id = some change ∧ change.next = some goal ∧ goal.status.finished = false

/-- What a folded state satisfies. -/
structure GoalState.Lawful (state : GoalState) : Prop where
  inOrder : ∀ id, ∃ n, revisions state.history id = oneTo n
  once : (state.history.map GoalChange.ref).Nodup
  current : ∀ goal, state.current = some goal → revisions state.history goal.id = oneTo goal.revision.toNat ∧
    ∃ change, lastChange state.history goal.id = some change ∧ change.next = some goal
  live : ∀ id, LiveGoal state.history id → ∃ goal, state.current = some goal ∧ goal.id = id

theorem revisions_concat (history : List GoalChange) (c : GoalChange) (id : String) :
    revisions (history ++ [c]) id = revisions history id ++ if c.ref.id = id then [c.ref.revision] else [] := by
  by_cases h : c.ref.id = id <;> simp [revisions, h]

theorem lastChange_concat (history : List GoalChange) (c : GoalChange) (id : String) :
    lastChange (history ++ [c]) id = if c.ref.id = id then some c else lastChange history id := by
  by_cases h : c.ref.id = id <;> simp [lastChange, h]

theorem oneTo_succ (n : Nat) : oneTo (n + 1) = oneTo n ++ [(n : Int) + 1] := by
  simp [oneTo, List.range_succ]

theorem mem_oneTo {n : Nat} {r : Int} : r ∈ oneTo n ↔ 1 ≤ r ∧ r ≤ n := by
  simp only [oneTo, List.mem_map, List.mem_range]
  constructor
  · rintro ⟨i, hi, rfl⟩
    omega
  · rintro ⟨hone, hle⟩
    exact ⟨(r - 1).toNat, by omega, by omega⟩

theorem mem_revisions {history : List GoalChange} {ref : GoalRef} (h : ref ∈ history.map GoalChange.ref) :
    ref.revision ∈ revisions history ref.id := by
  obtain ⟨c, hc, rfl⟩ := List.mem_map.mp h
  exact List.mem_map.mpr ⟨c, List.mem_filter.mpr ⟨hc, by simp⟩, rfl⟩

theorem GoalChange.ref_of_next {c : GoalChange} {goal : Goal} (h : c.next = some goal) :
    c.ref = ⟨goal.id, goal.revision⟩ := by
  cases c with
  | snapshot operation goal' =>
    cases h
    rfl
  | clear cleared at_ positive => cases h

namespace GoalState

variable {state state' : GoalState} {change : GoalChange}

theorem Lawful.empty : GoalState.Lawful {} := by
  refine ⟨fun id => ⟨0, rfl⟩, List.nodup_nil, ?_, ?_⟩
  · intro goal hgoal
    cases hgoal
  · rintro id ⟨change, goal, hlast, -⟩
    cases hlast

theorem Lawful.takes (h : state.Lawful) (htakes : state.Takes change state') {n : Nat}
    (hbefore : revisions state.history change.ref.id = oneTo n) (hnext : change.ref.revision = n + 1)
    (hlive : ∀ id, LiveGoal state.history id → id = change.ref.id) : state'.Lawful := by
  have hrevisions : ∀ id, revisions state'.history id =
      revisions state.history id ++ if change.ref.id = id then [change.ref.revision] else [] := by
    intro id
    rw [htakes.history, revisions_concat]
  have hafter : revisions state'.history change.ref.id = oneTo (n + 1) := by
    rw [hrevisions, hbefore, if_pos rfl, oneTo_succ, hnext]
  refine ⟨fun id => ?_, ?_, fun goal hgoal => ?_, fun id hid => ?_⟩
  · by_cases hid : change.ref.id = id
    · subst hid
      exact ⟨n + 1, hafter⟩
    · rw [hrevisions, if_neg hid, List.append_nil]
      exact h.inOrder id
  · rw [htakes.history, List.map_append, List.nodup_append']
    refine ⟨h.once, List.nodup_singleton _, ?_⟩
    intro ref hold hnew
    obtain rfl : ref = change.ref := by simpa using hnew
    have hmem := mem_revisions hold
    rw [hbefore, mem_oneTo] at hmem
    omega
  · rw [htakes.current] at hgoal
    have href := GoalChange.ref_of_next hgoal
    have hid : change.ref.id = goal.id := congrArg GoalRef.id href
    have hrevision : change.ref.revision = goal.revision := congrArg GoalRef.revision href
    refine ⟨?_, change, ?_, hgoal⟩
    · rw [← hid, hafter]
      congr 1
      omega
    · rw [htakes.history, lastChange_concat, if_pos hid]
  · obtain ⟨last, goal, hlast, hgoal, hfinished⟩ := hid
    rw [htakes.history, lastChange_concat] at hlast
    split at hlast
    · rename_i heq
      cases hlast
      refine ⟨goal, by rw [htakes.current, hgoal], ?_⟩
      rw [← heq]
      exact (congrArg GoalRef.id (GoalChange.ref_of_next hgoal)).symm
    · rename_i hne
      exact absurd (hlive id ⟨last, goal, hlast, hgoal, hfinished⟩).symm hne

/-- An accepted change keeps the law, when the id of a created goal is new. -/
theorem Lawful.follow (h : state.Lawful) (hfollow : state.follow change = .ok state')
    (hfresh : ∀ goal, change = .snapshot .create goal → ∀ c ∈ state.history, c.ref.id ≠ goal.id) : state'.Lawful := by
  obtain ⟨htakes, hwhy⟩ := GoalState.follow_ok hfollow
  rcases hwhy with ⟨goal, rfl, hone, hfinished⟩ | ⟨current, hcurrent, hid, hrevision⟩
  · have hnone : revisions state.history goal.id = oneTo 0 := by
      have hfilter : state.history.filter (fun c => c.ref.id = goal.id) = [] := by
        rw [List.filter_eq_nil_iff]
        intro c hc
        simpa using hfresh goal rfl c hc
      simp [revisions, hfilter, oneTo]
    refine h.takes htakes hnone (by simpa [GoalChange.ref] using hone) (fun id hid => ?_)
    obtain ⟨current, hcurrent, rfl⟩ := h.live id hid
    obtain ⟨last, goal', hlast, hgoal', hopen⟩ := hid
    obtain ⟨-, change, hchange, hnext⟩ := h.current current hcurrent
    rw [hchange] at hlast
    cases hlast
    rw [hnext] at hgoal'
    cases hgoal'
    rw [hfinished _ hcurrent] at hopen
    cases hopen
  · obtain ⟨hbefore, -⟩ := h.current current hcurrent
    refine h.takes htakes (n := current.revision.toNat) (by rw [hid, hbefore]) ?_ (fun id hlive => ?_)
    · have := current.positive
      omega
    · obtain ⟨goal, hgoal, rfl⟩ := h.live id hlive
      cases hcurrent.symm.trans hgoal
      exact hid.symm

end GoalState

theorem GoalState.Lawful.oneLive {state : GoalState} (h : state.Lawful) {id id' : String} (hid : LiveGoal state.history id)
    (hid' : LiveGoal state.history id') : id = id' := by
  obtain ⟨goal, hgoal, rfl⟩ := h.live id hid
  obtain ⟨goal', hgoal', rfl⟩ := h.live id' hid'
  cases hgoal.symm.trans hgoal'
  rfl

/-! ## What the service keeps -/

/-- The id of a created goal is new: a `create` that a call applies names no goal of the log. -/
def GoalRun.Fresh (s : GoalRun) (a : GoalAction) : Prop :=
  ∀ c state change time goal, a = .call c → goalState s.session = .ok state → c.change state = (.ok change, time) →
    decodeGoalChange change = .ok (.snapshot .create goal) → ∀ c ∈ state.history, c.ref.id ≠ goal.id

/-- The law of a session's goals: the fold does not raise; the projection, driven event by event or run over the log, holds the same;
the history is the changes of the log; no two of them have one id and revision; those of an id carry the revisions 1, 2, ... in
order; and one goal is live. -/
structure GoalRun.Law (s : GoalRun) (state : GoalState) : Prop where
  folds : goalState s.session = .ok state
  incremental : s.cell.fault = none ∧ s.cell.state = state
  projects : goalProjection.run {} s.session.events = .ok state
  accepted : (goalChanges s.session).map decodeGoalChange = state.history.map .ok
  once : (state.history.map GoalChange.ref).Nodup
  inOrder : ∀ id, ∃ n, revisions state.history id = oneTo n
  oneLive : ∀ id id', LiveGoal state.history id → LiveGoal state.history id' → id = id'

/-- What every run keeps. -/
structure GoalRun.Inv (s : GoalRun) (state : GoalState) : Prop where
  folds : goalState s.session = .ok state
  projects : goalProjection.run {} s.session.events = .ok state
  incremental : s.cell.fault = none ∧ s.cell.state = state
  accepted : (goalChanges s.session).map decodeGoalChange = state.history.map .ok
  lawful : state.Lawful

theorem GoalRun.Inv.law {s : GoalRun} {state : GoalState} (h : s.Inv state) : s.Law state :=
  ⟨h.folds, h.incremental, h.projects, h.accepted, h.lawful.once, h.lawful.inOrder, fun _ _ => h.lawful.oneLive⟩

theorem goalProjection_next_other (state : GoalState) {event : SessionEvent} (h : event.type ≠ .goalChange) :
    goalProjection.next state event = .ok state := by
  have happly : goalProjection.apply state event = .ok none := if_neg h
  simp [ProjectionDefinition.next, happly, Except.map]

theorem goalProjection_next_change {state state' : GoalState} {event : SessionEvent} (h : event.type = .goalChange)
    (happlied : applyGoalChange state event.data.loads = .ok state') : goalProjection.next state event = .ok state' := by
  have happly : goalProjection.apply state event = .ok (some state') := by
    have heq : goalProjection.apply state event = (applyGoalChange state event.data.loads).map some := if_pos h
    rw [heq, happlied]
    rfl
  simp [ProjectionDefinition.next, happly, Except.map]

/-- A cell without a fault, driven with an event that its unit takes. -/
theorem drive_ok {cell : Cell GoalState GoalError} {event : SessionEvent} {state' : GoalState} (hfault : cell.fault = none)
    (hnext : goalProjection.next cell.state event = .ok state') :
    (GoalRun.drive cell event).fault = none ∧ (GoalRun.drive cell event).state = state' := by
  have hrun : goalProjection.run cell.state [event] = .ok state' := by
    rw [ProjectionDefinition.run_cons, hnext]
    rfl
  unfold GoalRun.drive
  rw [hfault, Option.isSome_none, if_neg Bool.false_ne_true, goalProjection.foldFrom_ok hrun]
  exact ⟨rfl, rfl⟩

theorem goalProjection_run_concat {events : List SessionEvent} {event : SessionEvent} {state state' : GoalState}
    (hrun : goalProjection.run {} events = .ok state) (hnext : goalProjection.next state event = .ok state') :
    goalProjection.run {} (events ++ [event]) = .ok state' := by
  rw [ProjectionDefinition.run_append, hrun]
  change goalProjection.run state [event] = .ok state'
  rw [ProjectionDefinition.run_cons, hnext]
  rfl

/-- What `apply` does: it raises and changes nothing, or the change was decoded, follows the folded state, and its event is the next of
the log. -/
theorem applyGoal_cases (s : Session) (change : PyValue) (time : Rat) :
    (∃ e, applyGoal s change time = (.error e, s)) ∨
      ∃ state state' event s', goalState s = .ok state ∧ applyGoalChange state change = .ok state' ∧
        applyGoal s change time = (.ok state'.current, s') ∧ s'.events = s.events ++ [event] ∧ event.type = .goalChange ∧
        event.data.loads = change := by
  unfold applyGoal
  cases hstate : goalState s with
  | error e => exact Or.inl ⟨e, rfl⟩
  | ok state =>
    cases happly : applyGoalChange state change with
    | error e => exact Or.inl ⟨e, by simp [happly]⟩
    | ok state' =>
      rcases append_logOnly_cases s (c := goalCall change time) rfl rfl rfl with ⟨e, happend⟩ | ⟨j, hdata, happend⟩
      · exact Or.inl ⟨.append e, by simp [happly, happend]⟩
      · refine Or.inr ⟨state, state', (goalCall change time).event s j, s.commit ((goalCall change time).event s j), rfl, happly,
          by simp [happly, happend], rfl, rfl, ?_⟩
        exact hdata.symm

theorem goalChanges_concat {s session : Session} {event : SessionEvent} (hevents : session.events = s.events ++ [event])
    (htype : event.type = .goalChange) : goalChanges session = goalChanges s ++ [event.data.loads] := by
  rw [goalChanges, hevents, dataOf_append, dataOf_singleton, if_pos htype, goalChanges]

theorem goalChanges_other {s session : Session} {event : SessionEvent} (hevents : session.events = s.events ++ [event])
    (htype : event.type ≠ .goalChange) : goalChanges session = goalChanges s := by
  rw [goalChanges, hevents, dataOf_append, dataOf_singleton, if_neg htype, List.append_nil, goalChanges]

/-- The fold of a log that ends with a change is the fold before it with the change applied. -/
theorem goalState_concat {s session : Session} {event : SessionEvent} {state : GoalState}
    (hevents : session.events = s.events ++ [event]) (htype : event.type = .goalChange) (hstate : goalState s = .ok state) :
    goalState session = applyGoalChange state event.data.loads := by
  have hfold : foldGoals (goalChanges s) = .ok state := hstate
  rw [goalState, goalChanges_concat hevents htype, foldGoals_concat, hfold]
  rfl

namespace GoalRun

variable {s s' : GoalRun} {state : GoalState}

theorem ends_error (s : GoalRun) (e : GoalError) : (s.ends (.error e, s.session)).session = s.session ∧
    (s.ends (.error e, s.session)).cell = s.cell := by
  simp [ends]

/-- Events of another type leave what the invariant speaks of. -/
theorem Inv.other (h : s.Inv state) {session : Session} {event : SessionEvent} (hevents : session.events = s.session.events ++ [event])
    (htype : event.type ≠ .goalChange) : goalState session = .ok state ∧ goalProjection.run {} session.events = .ok state ∧
      (goalChanges session).map decodeGoalChange = state.history.map .ok := by
  have hchanges := goalChanges_other hevents htype
  refine ⟨?_, ?_, ?_⟩
  · rw [goalState, hchanges]
    exact h.folds
  · rw [hevents]
    exact goalProjection_run_concat h.projects (goalProjection_next_other state htype)
  · rw [hchanges]
    exact h.accepted

theorem Inv.append (h : s.Inv state) {call : AppendCall} (hstep : s.step (.append call) = some s') : s'.Inv state := by
  simp only [step] at hstep
  split at hstep
  · cases hstep
  · rename_i htype
    split at hstep
    · rename_i event session happend
      obtain rfl := Option.some.inj hstep
      obtain ⟨hevents, -⟩ := append_ok_events happend
      obtain ⟨j, -, rfl, -⟩ := append_ok_cases happend
      obtain ⟨hfolds, hprojects, haccepted⟩ := h.other hevents htype
      have hnext : goalProjection.next s.cell.state (call.event s.session j) = .ok s.cell.state :=
        goalProjection_next_other s.cell.state htype
      obtain ⟨hfault, hstate⟩ := drive_ok h.incremental.1 hnext
      exact ⟨hfolds, hprojects, ⟨hfault, hstate.trans h.incremental.2⟩, haccepted, h.lawful⟩
    · rename_i e session happend
      obtain rfl := Option.some.inj hstep
      have hsession : session = (s.session.append call).2 := by rw [happend]
      rcases append_events s.session call with hsame | ⟨j, hgrown⟩
      · rw [← hsession] at hsame
        refine ⟨?_, ?_, h.incremental, ?_, h.lawful⟩
        · rw [goalState, goalChanges, hsame]
          exact h.folds
        · rw [hsame]
          exact h.projects
        · rw [goalChanges, hsame]
          exact h.accepted
      · rw [← hsession] at hgrown
        obtain ⟨hfolds, hprojects, haccepted⟩ := h.other hgrown htype
        exact ⟨hfolds, hprojects, h.incremental, haccepted, h.lawful⟩

theorem Inv.resume (h : s.Inv state) (hstep : s.step .resume = some s') : s'.Inv state := by
  simp only [step] at hstep
  split at hstep
  · rename_i session hload
    obtain rfl := Option.some.inj hstep
    obtain ⟨hevents, -⟩ := seedAll_ok hload
    have hevents : session.events = s.session.events := by
      rw [hevents]
      rfl
    have hprojects : goalProjection.run {} session.events = .ok state := by
      rw [hevents]
      exact h.projects
    have hfold : goalProjection.fold session.events = { state := state, watermark := lastSeq emptyWatermark session.events } :=
      goalProjection.foldFrom_ok hprojects
    refine ⟨?_, hprojects, by rw [hfold]; exact ⟨rfl, rfl⟩, ?_, h.lawful⟩
    · rw [goalState, goalChanges, hevents]
      exact h.folds
    · rw [goalChanges, hevents]
      exact h.accepted
  · cases hstep

/-- What a call of the service does: it changes nothing and raises, or it applies a change to the log. -/
theorem serve_cases (s : GoalRun) (c : GoalCall) :
    (∃ e, s.serve c = s.ends (.error e, s.session)) ∨
      ∃ state change time, goalState s.session = .ok state ∧ c.change state = (.ok change, time) ∧
        s.serve c = s.ends (applyGoal s.session change time) := by
  unfold serve
  split
  · exact Or.inl ⟨_, rfl⟩
  · rename_i state hstate
    split
    · exact Or.inl ⟨_, rfl⟩
    · rename_i change time hchange
      exact Or.inr ⟨state, change, time, hstate, hchange, rfl⟩

theorem Inv.service (h : s.Inv state) {c : GoalCall} (hfresh : s.Fresh (.call c)) : ∃ state', (s.serve c).Inv state' := by
  have hkept : ∀ e, (s.ends (.error e, s.session)).Inv state := by
    intro e
    obtain ⟨hsession, hcell⟩ := ends_error s e
    exact ⟨h.folds, h.projects, by rw [hcell]; exact h.incremental, h.accepted, h.lawful⟩
  rcases serve_cases s c with ⟨e, hserve⟩ | ⟨state₁, change, time, hstate, hchange, hserve⟩
  · rw [hserve]
    exact ⟨state, hkept e⟩
  · rw [hserve]
    cases h.folds.symm.trans hstate
    rcases applyGoal_cases s.session change time with ⟨e, happly⟩ |
      ⟨state₂, state', event, session, hstate₂, happlied, happly, hevents, htype, hdata⟩
    · rw [happly]
      exact ⟨state, hkept e⟩
    · cases hstate.symm.trans hstate₂
      obtain ⟨decoded, hdecode, hfollow⟩ := applyGoalChange_ok happlied
      have hchanges : goalChanges session = goalChanges s.session ++ [change] := by
        rw [goalChanges_concat hevents htype, hdata]
      have hdrop : session.events.drop s.session.events.length = [event] := by rw [hevents, List.drop_left]
      have hnext : ∀ cell : Cell GoalState GoalError, cell.state = state → goalProjection.next cell.state event = .ok state' := by
        rintro cell rfl
        exact goalProjection_next_change htype (by rw [hdata]; exact happlied)
      refine ⟨state', ?_, ?_, ?_, ?_, ?_⟩
      · rw [happly]
        change goalState session = .ok state'
        rw [goalState_concat hevents htype hstate, hdata]
        exact happlied
      · rw [happly]
        change goalProjection.run {} session.events = .ok state'
        rw [hevents]
        exact goalProjection_run_concat h.projects (goalProjection_next_change htype (by rw [hdata]; exact happlied))
      · rw [happly]
        simp only [ends, hdrop, List.foldl_cons, List.foldl_nil]
        exact drive_ok h.incremental.1 (hnext s.cell h.incremental.2)
      · rw [happly]
        change (goalChanges session).map decodeGoalChange = state'.history.map .ok
        obtain ⟨htakes, -⟩ := GoalState.follow_ok hfollow
        rw [hchanges, htakes.history, List.map_append, List.map_append, h.accepted]
        simp [hdecode]
      · refine h.lawful.follow hfollow (fun goal hgoal => ?_)
        subst hgoal
        exact hfresh c state change time goal rfl hstate hchange hdecode

theorem Inv.step (h : s.Inv state) {a : GoalAction} (hfresh : s.Fresh a) (hstep : s.step a = some s') :
    ∃ state', s'.Inv state' := by
  cases a with
  | call c =>
    obtain rfl := Option.some.inj hstep
    exact h.service hfresh
  | append call => exact ⟨state, h.append hstep⟩
  | resume => exact ⟨state, h.resume hstep⟩

end GoalRun

/-- Whether the last call was refused for a revision that is not the current one. -/
def GoalRun.refused (s : GoalRun) : Bool :=
  match s.answer with
  | some (.error (.staleRevision _ _)) => true
  | _ => false

end Pydsh
