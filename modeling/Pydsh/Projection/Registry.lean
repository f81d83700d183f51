import Pydsh.Session.Log
import Mathlib.Logic.Function.Basic

/-!
# Units, cells and reads

`session/projection.py`: a unit folds the log into a state and shows a view of it; the registry keeps a cell for each unit and
session. The states, the views and what a unit may raise are parameters. `apply` returns the same object for an event that does
not concern the unit, which is `none` here. A registration is an object of its own, so that a key that is disposed and registered
again gets new cells; `heap` holds the registrations ever made and `live` those of the table, in its order.
-/

namespace Pydsh

variable {S V E : Type}

/-- `ProjectionDefinition`. -/
structure ProjectionDefinition (S V E : Type) where
  key : String
  init : S
  apply : S → SessionEvent → Except E (Option S)
  view : S → Except E V
  validate : Option (V → Except E V) := none
  stateVersion : Int := 1

namespace ProjectionDefinition

/-- The state after an event. -/
def next (d : ProjectionDefinition S V E) (state : S) (event : SessionEvent) : Except E S :=
  (d.apply state event).map (fun changed => changed.getD state)

/-- The reducer folded over some events: the meaning of the unit. -/
def run (d : ProjectionDefinition S V E) (state : S) (events : List SessionEvent) : Except E S := events.foldlM d.next state

/-- `_validated`. -/
def validated (d : ProjectionDefinition S V E) (state : S) : Except E V := do
  let view ← d.view state
  match d.validate with
  | some validate => validate view
  | none => return view

end ProjectionDefinition

/-- One unit's folded state for one session, and how far it has seen. -/
structure Cell (S E : Type) where
  state : S
  watermark : Nat := emptyWatermark
  fault : Option E := none

/-- One key's unit, its cells by session, and how many registrants share it. -/
structure Registration (S V E : Type) where
  definition : ProjectionDefinition S V E
  cells : Nat → Option (Cell S E) := fun _ => none
  refs : Nat := 1

/-- The registry. -/
structure Projections (S V E : Type) where
  heap : Nat → Option (Registration S V E)
  live : List Nat
  fresh : Nat

/-- The registry without units. -/
def Projections.empty : Projections S V E := { heap := fun _ => none, live := [], fresh := 0 }

/-! ## Registration -/

/-- Why `register` raises `ValueError`. -/
inductive RegisterError where
  | badVersion (key : String) (version : Int)
  | differs (key : String) (registered version : Int)

namespace Projections

/-- The live registration of a key. -/
def registered? (p : Projections S V E) (key : String) : Option (Nat × Registration S V E) :=
  p.live.findSome? (fun rid => (p.heap rid).bind (fun reg => if reg.definition.key = key then some (rid, reg) else none))

/-- `register`. -/
def register (p : Projections S V E) (d : ProjectionDefinition S V E) : Except RegisterError (Projections S V E) :=
  if d.stateVersion < 0 then .error (.badVersion d.key d.stateVersion)
  else
    match p.registered? d.key with
    | none => .ok
      { heap := Function.update p.heap p.fresh (some { definition := d }), live := p.live ++ [p.fresh], fresh := p.fresh + 1 }
    | some (rid, reg) =>
      if reg.definition.stateVersion ≠ d.stateVersion then
        .error (.differs d.key reg.definition.stateVersion d.stateVersion)
      else .ok { p with heap := Function.update p.heap rid (some { reg with refs := reg.refs + 1 }) }

/-- The disposer of one registration of a key, called for the first time. -/
def dispose (p : Projections S V E) (key : String) : Projections S V E :=
  match p.registered? key with
  | none => p
  | some (rid, reg) =>
    { p with
      heap := Function.update p.heap rid (some { reg with refs := reg.refs - 1 })
      live := if reg.refs - 1 = 0 then p.live.erase rid else p.live }

/-- The cell of a registration for a session, set. -/
def setCell (p : Projections S V E) (rid sid : Nat) (cell : Cell S E) : Projections S V E :=
  { p with
    heap := Function.update p.heap rid
      ((p.heap rid).map (fun reg => { reg with cells := Function.update reg.cells sid (some cell) })) }

/-- The cell of a registration for a session, if it has one. -/
def cell? (p : Projections S V E) (rid sid : Nat) : Option (Cell S E) := (p.heap rid).bind (fun reg => reg.cells sid)

end Projections

/-! ## Folding -/

/-- The loop of `_fold`, from a state and a watermark on. -/
def ProjectionDefinition.foldFrom (d : ProjectionDefinition S V E) : S → Nat → List SessionEvent → Cell S E
  | state, watermark, [] => { state, watermark }
  | state, watermark, event :: events =>
    match d.next state event with
    | .error exc => { state, watermark, fault := some exc }
    | .ok state => d.foldFrom state event.seq events

/-- `_fold`: the cell of a unit that has seen some events. -/
def ProjectionDefinition.fold (d : ProjectionDefinition S V E) (events : List SessionEvent) : Cell S E :=
  d.foldFrom d.init emptyWatermark events

/-! ## Reading -/

/-- Why a read raises. -/
inductive ReadError (E : Type) where
  /-- `ProjectionFaultError`. -/
  | fault (key : String) (exc : E)
  /-- The view or the validator of a unit raised. -/
  | view (exc : E)

/-- What a snapshot reports. -/
structure Snapshot (V : Type) where
  asOfSeq : Int
  values : List (String × V)

/-- A row of a checkpoint. -/
structure Row (S : Type) where
  ver : Int
  seq : Int
  val : S

namespace Projections

/-- `_cell_for`: the cell of a registration, folded over the whole log on first touch. -/
def cellFor (p : Projections S V E) (rid sid : Nat) (s : Session) (reg : Registration S V E) :
    Except (ReadError E) (Cell S E) × Projections S V E :=
  let (cell, p) :=
    match reg.cells sid with
    | some cell => (cell, p)
    | none => (reg.definition.fold s.events, p.setCell rid sid (reg.definition.fold s.events))
  match cell.fault with
  | some exc => (.error (.fault reg.definition.key exc), p)
  | none => (.ok cell, p)

/-- The loop of `snapshot`. -/
def snapshotValues (sid : Nat) (s : Session) : List Nat → Projections S V E →
    Except (ReadError E) (List (String × V)) × Projections S V E
  | [], p => (.ok [], p)
  | rid :: rids, p =>
    match p.heap rid with
    | none => snapshotValues sid s rids p
    | some reg =>
      match p.cellFor rid sid s reg with
      | (.error e, p) => (.error e, p)
      | (.ok cell, p) =>
        match reg.definition.validated cell.state with
        | .error exc => (.error (.view exc), p)
        | .ok value =>
          match snapshotValues sid s rids p with
          | (.error e, p) => (.error e, p)
          | (.ok values, p) => (.ok ((reg.definition.key, value) :: values), p)

/-- `snapshot`. -/
def snapshot (p : Projections S V E) (sid : Nat) (s : Session) : Except (ReadError E) (Snapshot V) × Projections S V E :=
  match snapshotValues sid s p.live p with
  | (.error e, p) => (.error e, p)
  | (.ok values, p) => (.ok { asOfSeq := s.seq, values }, p)

/-- The loop of `checkpoint`. -/
def checkpointRows (sid : Nat) (s : Session) : List Nat → Projections S V E →
    Except (ReadError E) (List (String × Row S)) × Projections S V E
  | [], p => (.ok [], p)
  | rid :: rids, p =>
    match p.heap rid with
    | none => checkpointRows sid s rids p
    | some reg =>
      match p.cellFor rid sid s reg with
      | (.error e, p) => (.error e, p)
      | (.ok cell, p) =>
        match checkpointRows sid s rids p with
        | (.error e, p) => (.error e, p)
        | (.ok rows, p) =>
          (.ok ((reg.definition.key, ⟨reg.definition.stateVersion, cell.watermark, cell.state⟩) :: rows), p)

/-- `checkpoint`. -/
def checkpoint (p : Projections S V E) (sid : Nat) (s : Session) :
    Except (ReadError E) (List (String × Row S)) × Projections S V E :=
  checkpointRows sid s p.live p

end Projections

/-! ## What the units show of a log -/

/-- What a unit shows of the run over some events, unless it raises. -/
def ProjectionDefinition.valueOf (d : ProjectionDefinition S V E) (events : List SessionEvent) : Option V :=
  (d.run d.init events).toOption.bind (fun state => (d.validated state).toOption)

/-- What the units show of the run over some events, unless one raises. -/
def unitValues (ds : List (ProjectionDefinition S V E)) (events : List SessionEvent) : Option (List (String × V)) :=
  ds.mapM (fun d => (d.valueOf events).map (fun value => (d.key, value)))

theorem unitValues_cons (d : ProjectionDefinition S V E) (ds : List (ProjectionDefinition S V E)) (events : List SessionEvent) :
    unitValues (d :: ds) events =
      (d.valueOf events).bind (fun value => (unitValues ds events).map (fun values => (d.key, value) :: values)) := by
  unfold unitValues
  rw [List.mapM_cons]
  cases d.valueOf events with
  | none => rfl
  | some value => cases ds.mapM (fun d => (d.valueOf events).map (fun value => (d.key, value))) <;> rfl

/-- The definition of a registration. -/
def Projections.definition? (p : Projections S V E) (rid : Nat) : Option (ProjectionDefinition S V E) :=
  (p.heap rid).map (·.definition)

/-- The definitions of some registrations. -/
def Projections.definitionsAt (p : Projections S V E) (rids : List Nat) : List (ProjectionDefinition S V E) :=
  rids.filterMap p.definition?

/-- The registered definitions, in the order of registration. -/
def Projections.definitions (p : Projections S V E) : List (ProjectionDefinition S V E) := p.definitionsAt p.live

/-! ## What a fold holds -/

namespace ProjectionDefinition

variable (d : ProjectionDefinition S V E)

/-- A run is a run over the first part and then over the rest. -/
theorem run_append (state : S) (xs ys : List SessionEvent) :
    d.run state (xs ++ ys) = (d.run state xs).bind (fun state => d.run state ys) :=
  List.foldlM_append

theorem run_cons (state : S) (e : SessionEvent) (events : List SessionEvent) :
    d.run state (e :: events) = (d.next state e).bind (fun state => d.run state events) :=
  rfl

/-- A fold whose run succeeds holds its result, and has seen the last event. -/
theorem foldFrom_ok {state state' : S} {watermark : Nat} {events : List SessionEvent}
    (h : d.run state events = .ok state') :
    d.foldFrom state watermark events = { state := state', watermark := lastSeq watermark events } := by
  induction events generalizing state watermark with
  | nil =>
    cases h
    rfl
  | cons e events ih =>
    rw [run_cons] at h
    unfold foldFrom
    cases hnext : d.next state e with
    | error exc =>
      rw [hnext] at h
      cases h
    | ok next =>
      rw [hnext] at h
      rw [lastSeq_cons]
      exact ih h

theorem foldFrom_error {state : S} {watermark : Nat} {events : List SessionEvent} {exc : E}
    (h : d.run state events = .error exc) : (d.foldFrom state watermark events).fault = some exc := by
  induction events generalizing state watermark with
  | nil => cases h
  | cons e events ih =>
    rw [run_cons] at h
    unfold foldFrom
    cases hnext : d.next state e with
    | error exc' =>
      rw [hnext] at h
      cases h
      rfl
    | ok next =>
      rw [hnext] at h
      exact ih h

theorem run_of_fold {events : List SessionEvent} (h : (d.fold events).fault = none) :
    d.run d.init events = .ok (d.fold events).state := by
  cases hrun : d.run d.init events with
  | error exc =>
    rw [fold, foldFrom_error d hrun] at h
    cases h
  | ok state => rw [fold, foldFrom_ok d hrun]

end ProjectionDefinition

namespace CountUnit

/-- A unit that counts events. -/
def counter : ProjectionDefinition Nat Nat Unit :=
  { key := "count", init := 0, apply := fun n _ => .ok (some (n + 1)), view := .ok }

end CountUnit

end Pydsh
