import Pydsh.Lib.Machine
import Pydsh.Projection.Registry

/-!
# The driver

`_drive` of `session/projection.py` as a machine. An append broadcasts `session/event`: the listeners in their order, with the
driver among them, and the driver in turn publishes to the change listeners. A listener is code of someone else: while it runs it
may append, read, register and dispose, so that the broadcasts in progress form a stack. `emit_contained` and `_publish` contain
what a listener raises, so that one that raises is one that returns.
-/

namespace Pydsh

variable {S V E : Type}

namespace Projections

/-- The cell a turn of `_drive` starts from. A unit registered mid-stream folds everything strictly before the event, and then
takes the normal path. -/
def cellBefore (p : Projections S V E) (rid sid : Nat) (s : Session) (event : SessionEvent) (reg : Registration S V E) :
    Cell S E × Projections S V E :=
  match reg.cells sid with
  | some cell => (cell, p)
  | none =>
    let cell := reg.definition.fold (s.events.filter (fun e => decide (e.seq < event.seq)))
    (cell, p.setCell rid sid cell)

/-- One turn of the loop of `_drive`: the registry, and the new state when it is another object. -/
def driveUnit (p : Projections S V E) (sid : Nat) (s : Session) (event : SessionEvent) (rid : Nat) :
    Projections S V E × Option S :=
  match p.heap rid with
  | none => (p, none)
  | some reg =>
    let (cell, p) := p.cellBefore rid sid s event reg
    match cell.fault with
    | some _ => (p, none)
    | none =>
      match reg.definition.apply cell.state event with
      | .error exc => (p.setCell rid sid { cell with fault := some exc }, none)
      | .ok changed => (p.setCell rid sid { state := changed.getD cell.state, watermark := event.seq }, changed)

/-- The value a change carries, or `none` where the view or the validator raises. -/
def published (p : Projections S V E) (rid : Nat) (state : S) : Option V :=
  (p.heap rid).bind (fun reg => (reg.definition.validated state).toOption)

end Projections

/-- A broadcast in progress. -/
inductive Frame where
  /-- `session/event` before the driver: how many listeners are left, and how many come after the driver. -/
  | early (sid : Nat) (event : SessionEvent) (left late : Nat)
  /-- `_drive`, with the registrations that are left. -/
  | drive (sid : Nat) (event : SessionEvent) (rids : List Nat)
  /-- Listeners that are left, of `session/event` after the driver or of the change stream. -/
  | listeners (left : Nat)
  /-- A listener that runs. -/
  | code

/-- What a read returned to its caller. -/
inductive Report (S V E : Type) where
  | snapshot (sid : Nat) (result : Except (ReadError E) (Snapshot V))
  | checkpoint (sid : Nat) (result : Except (ReadError E) (List (String × Row S)))

/-- The sessions, the registry, the numbers of listeners, the broadcasts in progress, and what the last action read. -/
structure Driver (S V E : Type) where
  sessions : Nat → Session
  projections : Projections S V E
  early : Nat
  late : Nat
  observers : Nat
  stack : List Frame
  report : Option (Report S V E)

/-- What can happen: a call of someone's code, where code runs, or the next step of the broadcast in progress. -/
inductive DriverAction (S V E : Type) where
  | append (sid : Nat) (call : AppendCall)
  | snapshot (sid : Nat)
  | checkpoint (sid : Nat)
  | register (definition : ProjectionDefinition S V E)
  | dispose (key : String)
  /-- Listeners of `session/event` came or went. -/
  | listen (early late : Nat)
  /-- Listeners of the change stream came or went. -/
  | observe (observers : Nat)
  | next

namespace Driver

/-- Some sessions, and nothing registered. -/
def start (sessions : Nat → Session) : Driver S V E :=
  { sessions, projections := .empty, early := 0, late := 0, observers := 0, stack := [], report := none }

/-- No broadcast is in progress, or one of its listeners runs. -/
def codeRuns (st : Driver S V E) : Bool :=
  match st.stack with
  | [] => true
  | .code :: _ => true
  | _ => false

/-- `append`, and the broadcast of what it committed. -/
def append (st : Driver S V E) (sid : Nat) (call : AppendCall) : Driver S V E :=
  match (st.sessions sid).append call with
  | (.error _, s) => { st with sessions := Function.update st.sessions sid s }
  | (.ok event, s) =>
    { st with
      sessions := Function.update st.sessions sid s
      stack := .early sid event st.early st.late :: st.stack }

/-- The next step of the loop of `_drive`: one more unit, and its change published. -/
def drive (st : Driver S V E) (sid : Nat) (event : SessionEvent) (rid : Nat) (rids : List Nat) (stack : List Frame) :
    Driver S V E :=
  match st.projections.driveUnit sid (st.sessions sid) event rid with
  | (projections, none) => { st with projections, stack := .drive sid event rids :: stack }
  | (projections, some state) =>
    if st.observers = 0 then { st with projections, stack := .drive sid event rids :: stack }
    else
      match projections.published rid state with
      -- what the view raises leaves `_drive`, and the units that are left are not driven
      | none => { st with projections, stack }
      | some _ => { st with projections, stack := .listeners st.observers :: .drive sid event rids :: stack }

/-- The next step of the broadcast on top of the stack. -/
def next (st : Driver S V E) : Option (Driver S V E) :=
  match st.stack with
  | [] => none
  | .code :: stack => some { st with stack }
  | .listeners 0 :: stack => some { st with stack }
  | .listeners (left + 1) :: stack => some { st with stack := .code :: .listeners left :: stack }
  | .early sid event (left + 1) late :: stack => some { st with stack := .code :: .early sid event left late :: stack }
  | .early sid event 0 late :: stack =>
    some { st with stack := .drive sid event st.projections.live :: .listeners late :: stack }
  | .drive _ _ [] :: stack => some { st with stack }
  | .drive sid event (rid :: rids) :: stack => some (st.drive sid event rid rids stack)

/-- A call of someone's code. -/
def call (st : Driver S V E) : DriverAction S V E → Driver S V E
  | .append sid call => st.append sid call
  | .snapshot sid =>
    match st.projections.snapshot sid (st.sessions sid) with
    | (result, projections) => { st with projections, report := some (.snapshot sid result) }
  | .checkpoint sid =>
    match st.projections.checkpoint sid (st.sessions sid) with
    | (result, projections) => { st with projections, report := some (.checkpoint sid result) }
  | .register definition =>
    match st.projections.register definition with
    | .error _ => st
    | .ok projections => { st with projections }
  | .dispose key => { st with projections := st.projections.dispose key }
  | .listen early late => { st with early, late }
  | .observe observers => { st with observers }
  | .next => st

/-- One step. What was read stays no longer than the step that read it. -/
def step (st : Driver S V E) (action : DriverAction S V E) : Option (Driver S V E) :=
  match action with
  | .next => { st with report := none }.next
  | action => if st.codeRuns then some ({ st with report := none }.call action) else none

end Driver

end Pydsh
