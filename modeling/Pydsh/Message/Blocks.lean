import Pydsh.Python.Value

/-!
# Content blocks and messages

`message/blocks.py`: the conversation vocabulary, with the types its dataclasses declare. `toPy` is the object Python holds;
the payload codec works on those objects (`Pydsh.Message.Payload`).
-/

namespace Pydsh

/-- One tool invocation the model asked for. The arguments stay the raw text the model produced. -/
structure ToolCallBlock where
  id : String
  name : String
  arguments : String
  deriving DecidableEq

/-- A content block: text, reasoning, a tool call, or the outcome of a tool call addressed back to it by its id. -/
inductive ContentBlock where
  | text (text : String)
  | reasoning (text : String)
  | toolCall (call : ToolCallBlock)
  | toolResult (toolCallId : String) (content : List ContentBlock) (isError : Bool)

/-- Who produced a message. -/
structure MessageSource where
  kind : String
  plugin : String := ""
  form : String := ""
  provider : String := ""
  model : String := ""
  goalId : String := ""
  revision : Option Int := none
  round : Option Int := none
  deriving DecidableEq

/-- One immutable message, shared across delivery, history, and requests. -/
structure Message where
  id : String
  role : String
  content : List ContentBlock
  source : MessageSource

/-- `create_user_message`; the fresh id is an argument. -/
def createUserMessage (id : String) (content : List ContentBlock) (source : MessageSource := { kind := "user" }) : Message :=
  { id, role := "user", content, source }

/-- `create_assistant_message`; the fresh id is an argument. -/
def createAssistantMessage (id : String) (content : List ContentBlock) (provider model : String) : Message :=
  { id, role := "assistant", content, source := { kind := "model", provider, model } }

/-- The tool call a block holds, if it is one. -/
def ContentBlock.call? : ContentBlock → Option ToolCallBlock
  | .toolCall call => some call
  | _ => none

/-- Whether a block is a tool result addressed to a call id. -/
def ContentBlock.answers (id : String) : ContentBlock → Bool
  | .toolResult toolCallId _ _ => toolCallId == id
  | _ => false

/-! ## The objects Python holds -/

/-- `Optional[int]`. -/
def optInt : Option Int → PyValue
  | none => .none
  | some i => .int i

mutual

def ContentBlock.toPy : ContentBlock → PyValue
  | .text t => .textBlock (.str t)
  | .reasoning t => .reasoningBlock (.str t)
  | .toolCall call => .toolCallBlock (.str call.id) (.str call.name) (.str call.arguments)
  | .toolResult id content isError => .toolResultBlock (.str id) (ContentBlock.toPyList content) (.bool isError)

def ContentBlock.toPyList : List ContentBlock → List PyValue
  | [] => []
  | b :: bs => b.toPy :: ContentBlock.toPyList bs

end

def MessageSource.toPy (s : MessageSource) : PyValue :=
  .messageSource (.str s.kind) (.str s.plugin) (.str s.form) (.str s.provider) (.str s.model) (.str s.goalId)
    (optInt s.revision) (optInt s.round)

def Message.toPy (m : Message) : PyValue :=
  .message (.str m.id) (.str m.role) (ContentBlock.toPyList m.content) m.source.toPy

theorem ContentBlock.toPyList_eq_map (bs : List ContentBlock) : ContentBlock.toPyList bs = bs.map ContentBlock.toPy := by
  induction bs with
  | nil => rfl
  | cons b bs ih => simp [ContentBlock.toPyList, ih]

end Pydsh
