import Pydsh.Message.Payload

/-!
# The session event vocabulary

`session/events.py` and the records of `session/session.py`: the event types, which of them are surface (model-visible), the
surface operation an event carries, the event and the header.
-/

namespace Pydsh

/-- `SESSION_FORMAT_VERSION`. -/
def sessionFormatVersion : Int := 0

/-- The keys of `EVENT_DATA_FIELDS`; `other` stands for any string that is not one of them. -/
inductive EventType where
  | turnStart | turnEnd | stepStart | stepEnd
  | userMessage | assistantChunk | assistantMessage
  | toolCall | toolResult
  | inboxSpliced
  | compactionStart | compactionSummary | compactionEnd
  | todoWrite | goalChange | scheduleChange | planMode | feedbackRecord
  | other (name : String)
  deriving DecidableEq

/-- `event_type in SURFACE_EVENTS`: the events whose payloads are model-visible messages. -/
def EventType.isSurface : EventType → Bool
  | .userMessage | .assistantMessage | .toolResult => true
  | _ => false

/-- `event_type in EVENT_DATA_FIELDS`. -/
def EventType.isKnown : EventType → Bool
  | .other _ => false
  | _ => true

theorem EventType.isKnown_of_isSurface {t : EventType} (h : t.isSurface = true) : t.isKnown = true := by
  cases t <;> simp_all [EventType.isSurface, EventType.isKnown]

/-- The value of a `surface_op` argument: `None`, a string (`"append"`), or a mapping. -/
inductive SurfaceOp where
  | none
  | text (s : String)
  | mapping (kvs : List (PyKey × PyValue))

/-- `surface_op.get(key)` on the mapping; `none` where it has no such key, or is no mapping. -/
def SurfaceOp.get? : SurfaceOp → String → Option PyValue
  | .mapping kvs, key => (kvs.find? (fun kv => kv.1 == .str key)).map (·.2)
  | _, _ => Option.none

/-- `isinstance(surface_op, dict) and surface_op.get("op") == "replace"`. -/
def SurfaceOp.isReplace (op : SurfaceOp) : Bool :=
  match op.get? "op" with
  | some (.str "replace") => true
  | _ => false

/-- `{"op": "replace", "start": start, "end": end}`. -/
def SurfaceOp.replace (start stop : Nat) : SurfaceOp :=
  .mapping [(.str "op", .str "replace"), (.str "start", .int start), (.str "end", .int stop)]

/-- One immutable entry in the session log. The data is a document: `append` takes only data that survives a JSON round trip. -/
structure SessionEvent where
  type : EventType
  seq : Nat
  time : Rat
  data : Json
  surfaceOp : SurfaceOp
  sourceEventSeqs : List Nat

/-- Storage metadata, kept out of the conversation events. `request` is the dict of the call config the last step ran under. -/
structure SessionHeader where
  version : Int := sessionFormatVersion
  id : String := ""
  createdAt : Rat := 0
  cwd : Option String := none
  request : Option (List (String × Json)) := none

@[simp] theorem SurfaceOp.isReplace_none : SurfaceOp.none.isReplace = false := rfl

@[simp] theorem SurfaceOp.isReplace_text (s : String) : (SurfaceOp.text s).isReplace = false := rfl

@[simp] theorem SurfaceOp.isReplace_replace (start stop : Nat) : (SurfaceOp.replace start stop).isReplace = true := rfl

@[simp] theorem SurfaceOp.get?_replace_start (start stop : Nat) :
    (SurfaceOp.replace start stop).get? "start" = some (.int start) := rfl

@[simp] theorem SurfaceOp.get?_replace_end (start stop : Nat) :
    (SurfaceOp.replace start stop).get? "end" = some (.int stop) := rfl

end Pydsh
