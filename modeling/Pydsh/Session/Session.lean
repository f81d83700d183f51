import Pydsh.Session.Events
import Pydsh.Lib.Splice

/-!
# The append-only session log

`session/session.py`, function by function. `append` mutates the session and may raise, so it returns both: the result or the
error, and the session as it stands afterwards. A raise does not undo a mutation. The broadcast that ends an append is
contained and changes nothing of the session, so it is left to the models of the services that listen.
-/

namespace Pydsh

/-- What the session module raises, with the values its message quotes. -/
inductive SessionError where
  /-- A replacement by an event that has no place in the projection. -/
  | notSurface (type : EventType)
  /-- `UnknownEventType`. -/
  | unknownEventType (type : EventType)
  /-- `InvalidEventData`: `json.dumps` raised. -/
  | notLossless
  /-- `InvalidEventData`: the value is not its own parse. -/
  | notRoundTrip
  /-- `KeyError`: `surface_op["start"]` or `surface_op["end"]`. -/
  | missingKey (key : String)
  /-- A replacement that names a node not on the surface. -/
  | notOnSurface (node : PyValue) (surface : List Nat)
  /-- A replacement whose end stands before its start. -/
  | notRun (start stop : PyValue) (surface : List Nat)
  /-- A surface node without a log event. -/
  | corruptSurface (seq : Nat)
  /-- `AttributeError`: `.get` on event data that is not a dict. -/
  | noAttribute

/-- `_validate_lossless_json`. A value that passes is the parse of exactly one document, which is what the log keeps. -/
def validateLosslessJson (value : PyValue) : Except SessionError Json :=
  match value.dumps with
  | none => .error .notLossless
  | some parsed => if !value.eqJson parsed || value.hasNonFinite then .error .notRoundTrip else .ok parsed

/-- Provenance: which node replaced which. -/
structure Replacement where
  newSeq : Nat
  shadowedSeqs : List Nat
  deriving DecidableEq

/-- One conversation's append-only event log and the surface derived from it. -/
structure Session where
  id : String
  header : SessionHeader
  events : List SessionEvent := []
  seq : Nat := 0
  surfaceNodes : List Nat := []
  replaceGeneration : Nat := 0
  replacements : List Replacement := []

/-- `Session(ctx, id, header)` with no seed events. -/
def Session.new (id : String) (header : SessionHeader) : Session := { id, header }

/-! ## Writing -/

/-- `node == value` for a surface node, an int. -/
def PyValue.eqNode (value : PyValue) (node : Nat) : Bool :=
  match value with
  | .int i => i == (node : Int)
  | .float (.finite q) => q == (node : Rat)
  | .bool b => b.toNat == node
  | _ => false

/-- `nodes.index(value)`; `none` where it raises `ValueError`. -/
def indexOf (nodes : List Nat) (value : PyValue) : Option Nat := nodes.findIdx? value.eqNode

/-- `_apply_surface_replace`: swap the run of surface nodes from `start` to `stop` for one node. -/
def Session.applySurfaceReplace (s : Session) (start stop : PyValue) (newSeq : Nat) : Except SessionError Session :=
  match indexOf s.surfaceNodes start, indexOf s.surfaceNodes stop with
  | some first, some last =>
    if last < first then .error (.notRun start stop s.surfaceNodes)
    else .ok { s with
      surfaceNodes := Splice.splice s.surfaceNodes first last newSeq
      replaceGeneration := s.replaceGeneration + 1
      replacements := s.replacements ++ [⟨newSeq, Splice.segment s.surfaceNodes first last⟩] }
  | none, _ => .error (.notOnSurface start s.surfaceNodes)
  | some _, none => .error (.notOnSurface stop s.surfaceNodes)

/-- The surface operation of an event, applied: a replacement of the run it names, or the event's node at the end. -/
def Session.applyReplaceOp (s : Session) (op : SurfaceOp) (newSeq : Nat) : Except SessionError Session :=
  match op.get? "start" with
  | none => .error (.missingKey "start")
  | some start =>
    match op.get? "end" with
    | none => .error (.missingKey "end")
    | some stop => s.applySurfaceReplace start stop newSeq

/-- The arguments of one `append`, and what the clock reads when it is made. -/
structure AppendCall where
  eventType : EventType
  data : PyValue
  surfaceOp : SurfaceOp := .text "append"
  sourceEventSeqs : List Nat := []
  time : Rat := 0

/-- The session after the event is in the log and before its surface operation is applied. -/
def Session.commit (s : Session) (event : SessionEvent) : Session :=
  { s with seq := s.seq + 1, events := s.events ++ [event] }

/-- `append`. The checks of type and data come before any change; the surface operation is applied after the event is in the
log. -/
def Session.append (s : Session) (c : AppendCall) : Except SessionError SessionEvent × Session :=
  let replacing := c.surfaceOp.isReplace
  if replacing && !c.eventType.isSurface then (.error (.notSurface c.eventType), s)
  else if !c.eventType.isKnown then (.error (.unknownEventType c.eventType), s)
  else
    match validateLosslessJson c.data with
    | .error e => (.error e, s)
    | .ok data =>
      let event : SessionEvent :=
        { type := c.eventType
          seq := s.seq + 1
          time := c.time
          data
          surfaceOp := if c.eventType.isSurface then c.surfaceOp else .none
          sourceEventSeqs := c.sourceEventSeqs }
      let s := s.commit event
      if replacing then
        match s.applyReplaceOp c.surfaceOp event.seq with
        | .error e => (.error e, s)
        | .ok s => (.ok event, s)
      else if c.eventType.isSurface then (.ok event, { s with surfaceNodes := s.surfaceNodes ++ [event.seq] })
      else (.ok event, s)

/-- The session after some appends, whether they are accepted or refused. -/
def Session.appends (s : Session) (calls : List AppendCall) : Session := calls.foldl (fun s c => (s.append c).2) s

/-! ## Reading -/

/-- The event `{event.seq: event for event in events}` holds under a seq: the last one that has it. -/
def Session.eventAt (s : Session) (seq : Nat) : Option SessionEvent := s.events.reverse.find? (fun e => e.seq == seq)

/-- `derive_event_message`; `Json.null` stands for `None`. -/
def deriveEventMessage (event : SessionEvent) : Except SessionError Json :=
  match event.type with
  | .userMessage => .ok event.data
  | .assistantMessage | .toolResult =>
    match event.data with
    | .obj kvs => .ok ((field? kvs "message").getD .null)
    | _ => .error .noAttribute
  | _ => .ok .null

/-- The messages of some surface nodes, in order, without those that have none. -/
def Session.messagesAt (s : Session) : List Nat → Except SessionError (List Json)
  | [] => .ok []
  | seq :: seqs =>
    match s.eventAt seq with
    | none => .error (.corruptSurface seq)
    | some event => do
      let message ← deriveEventMessage event
      let messages ← s.messagesAt seqs
      return match message with
        | .null => messages
        | message => message :: messages

/-- `derive_messages`: the ordered model-visible messages, following the current surface. -/
def Session.deriveMessages (s : Session) : Except SessionError (List Json) := s.messagesAt s.surfaceNodes

/-! ## Storing and loading -/

/-- What `to_json` returns: the header and the events. -/
structure SessionSnapshot where
  header : SessionHeader
  events : List SessionEvent

/-- `to_json`. -/
def Session.toJson (s : Session) : SessionSnapshot := { header := s.header, events := s.events }

/-- `_seed`: replay one stored event into the log and the surface. -/
def Session.seed (s : Session) (event : SessionEvent) : Except SessionError Session :=
  let s := { s with events := s.events ++ [event], seq := max s.seq event.seq }
  if event.surfaceOp.isReplace then s.applyReplaceOp event.surfaceOp event.seq
  else if event.type.isSurface then .ok { s with surfaceNodes := s.surfaceNodes ++ [event.seq] }
  else .ok s

/-- Replay stored events one after another. -/
def Session.seedAll (s : Session) : List SessionEvent → Except SessionError Session
  | [] => .ok s
  | event :: events => do
    let s ← s.seed event
    s.seedAll events

/-- `from_json`: rebuild a session from its snapshot, recomputing the surface. -/
def Session.fromJson (snapshot : SessionSnapshot) : Except SessionError Session :=
  (Session.new snapshot.header.id snapshot.header).seedAll snapshot.events

end Pydsh
