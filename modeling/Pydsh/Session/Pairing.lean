import Pydsh.Session.Replay

/-!
# Where the surface can safely be cut

`session/pairing.py`: walk the surface counting outstanding tool calls; a cut where the count is zero is balanced. The walk
raises on a surface whose tool results answer no call. The answer is a function of the surface, and the module's cache only
saves recomputing it.
-/

namespace Pydsh

/-- What the walk raises. -/
inductive PairingError where
  /-- `decode_payload` of an assistant message raised. -/
  | payload (e : PayloadError)
  /-- `AttributeError`: `.get` on event data that is not a dict. -/
  | noAttribute
  /-- A surface node without a log event. -/
  | corruptSurface (seq : Nat)
  /-- A tool result that answers no call on the surface. -/
  | unanswering (seq : Nat)
  /-- A cut asked for at a node that is not on the surface. -/
  | notOnSurface (seq : Nat)

/-- `getattr(message, "content", ()) or ()` of a decoded payload. -/
def PyValue.content : PyValue → List PyValue
  | .message _ _ content _ => content
  | .toolResultBlock _ content _ => content
  | _ => []

/-- `isinstance(block, ToolCallBlock)`. -/
def PyValue.isToolCall : PyValue → Bool
  | .toolCallBlock _ _ _ => true
  | _ => false

/-- `event.data.get("message")`; `Json.null` stands for `None`. -/
def SessionEvent.message (event : SessionEvent) : Option Json :=
  match event.data with
  | .obj kvs => some ((field? kvs "message").getD .null)
  | _ => none

/-- `_outstanding_delta`: how a surface event changes the count of unanswered tool calls. -/
def outstandingDelta (event : SessionEvent) : Except PairingError Int :=
  match event.type with
  | .assistantMessage =>
    match event.message with
    | none => .error .noAttribute
    | some message =>
      match decodePayload message with
      | .error e => .error (.payload e)
      | .ok message => .ok (message.content.countP PyValue.isToolCall)
  | .toolResult => .ok (-1)
  | _ => .ok 0

/-- The walk from a node on: the flags of the cuts after each node. -/
def walkBalance (s : Session) : List Nat → Int → Except PairingError (List Bool)
  | [], _ => .ok []
  | seq :: seqs, outstanding =>
    match s.eventAt seq with
    | none => .error (.corruptSurface seq)
    | some event => do
      let delta ← outstandingDelta event
      if outstanding + delta < 0 then .error (.unanswering seq)
      else
        let flags ← walkBalance s seqs (outstanding + delta)
        return (outstanding + delta == 0) :: flags

/-- `surface_balance`: one flag for the cut before each node and one for the cut after the last. -/
def surfaceBalance (s : Session) : Except PairingError (List Bool) := do
  let flags ← walkBalance s s.surfaceNodes 0
  return true :: flags

/-- `_cut`: the flag of the cut at an offset from a node. -/
def cut (s : Session) (seq offset : Nat) : Except PairingError Bool := do
  let flags ← surfaceBalance s
  match s.surfaceNodes.findIdx? (fun n => n == seq) with
  | none => .error (.notOnSurface seq)
  | some index => return flags.getD (index + offset) false

/-- `balanced_before`: whether the surface can be cut immediately before this node. -/
def balancedBefore (s : Session) (seq : Nat) : Except PairingError Bool := cut s seq 0

/-- `balanced_after`: whether the surface can be cut immediately after this node. -/
def balancedAfter (s : Session) (seq : Nat) : Except PairingError Bool := cut s seq 1

end Pydsh
