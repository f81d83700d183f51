import Pydsh.Agent.Loop

/-!
# The OpenAI-compatible translation

`llm/adapters/openai_compatible.py`, `translate` and what it uses: the payloads of an SSE stream, one after another, turned into
the frames the loop takes. A payload is parsed and then read without any check of its shape, so a frame of the wrong shape raises
whatever the operation on it raises. Only `[DONE]` finishes a stream.
-/

namespace Pydsh

/-- An `LlmError`, with the name of its class. -/
structure LlmError where
  name : String := "LlmError"
  message : String
  code : String

/-- `f"{type(exc).__name__}: {exc}"`. -/
def LlmError.text (e : LlmError) : String := e.name ++ ": [" ++ e.code ++ "] " ++ e.message

/-- What a stream raises: an `LlmError`, which the layers above look at, or anything else, which passes them by. -/
inductive StreamError where
  | llm (e : LlmError)
  | other (e : Raised)

/-- Why `json.loads` raises: a `JSONDecodeError`, or anything else (an integer with too many digits, say). -/
inductive ParseError where
  | decode
  | other (e : Raised)

/-- What Python does with the text of a payload: how it parses JSON, `str.upper`, and the difference of floats. Ids and names of tool
calls are strings by the types of the frames; `text` stands for another value that was sent as one. -/
structure Wire where
  loads : String → Except ParseError PyValue
  upper : String → String
  floats : PyValue → PyValue → Except String PyValue
  text : PyValue → String
  text_str : ∀ s, text (.str s) = s

/-- `FINISH_REASONS`. -/
def finishReasons : List (String × String) := [("stop", "stop"), ("tool_calls", "tool-calls"), ("length", "max-tokens")]

/-- `{"kind": kind}`. -/
def finishOf (kind : String) : PyDict := [(.str "kind", .str kind)]

/-- `{"kind": "error", "failure": {"message": message, "code": code}}`. -/
def errorFinish (message code : String) : PyDict :=
  [(.str "kind", .str "error"), (.str "failure", .record [("message", .str message), ("code", .str code)])]

/-- The kind of a finish, where it is a string. -/
def kindOf (finish : PyDict) : Option String :=
  match PyDict.get? finish "kind" with
  | some (.str kind) => some kind
  | _ => none

/-- The kinds of a response's blocks. -/
inductive BlockKind where
  | text | reasoning | tool
  deriving DecidableEq

/-- A tool call that accumulates. -/
structure ToolState where
  id : PyValue := .str ""
  name : PyValue := .none
  arguments : String := ""

/-- The state of `translate`: its `_Blocks`, what is pending, and the frames it has yielded. -/
structure Translation where
  next : Nat := 0
  order : List (BlockKind × Nat) := []
  text : Option (Nat × String) := none
  reasoning : Option (Nat × String) := none
  tools : List (Nat × ToolState) := []
  wireToIndex : List (HashKey × Nat) := []
  pendingFinish : Option PyDict := none
  pendingUsage : Option PyDict := none
  yielded : List StreamChunk := []

/-- Code of the translation. -/
abbrev TranslateM (α : Type) : Type := Effect Translation StreamError α

/-- An operation on a value of a payload. -/
def checked {α : Type} (r : Except String α) : TranslateM α :=
  Effect.result (r.mapError (fun error => .other (.failed error)))

namespace Translation

/-- `yield chunk`. -/
def yield (t : Translation) (chunk : StreamChunk) : Translation := { t with yielded := t.yielded ++ [chunk] }

/-- `allocate`; the index is the `next` before. -/
def allocate (t : Translation) (kind : BlockKind) : Translation :=
  { t with
    next := t.next + 1
    order := t.order ++ [(kind, t.next)] }

/-- A fragment of reasoning, which opens its block where there is none. -/
def addReasoning (t : Translation) (reasoning : String) : Translation :=
  let t := match t.reasoning with
    | some _ => t
    | none =>
      { t.allocate .reasoning with reasoning := some (t.next, "") }.yield
        { type := .blockStart, index := some t.next, blockType := some "reasoning" }
  match t.reasoning with
  | some (index, was) =>
    { t with reasoning := some (index, was ++ reasoning) }.yield
      { type := .reasoningDelta, index := some index, reasoning := some reasoning }
  | none => t

/-- A fragment of text, which opens its block where there is none. -/
def addText (t : Translation) (text : String) : Translation :=
  let t := match t.text with
    | some _ => t
    | none =>
      { t.allocate .text with text := some (t.next, "") }.yield
        { type := .blockStart, index := some t.next, blockType := some "text" }
  match t.text with
  | some (index, was) =>
    { t with text := some (index, was ++ text) }.yield { type := .textDelta, index := some index, text := some text }
  | none => t

/-- `_wire_to_index.get(key)`. -/
def indexOf? (t : Translation) (key : HashKey) : Option Nat := (t.wireToIndex.find? (fun entry => entry.1 == key)).map (·.2)

/-- `index_for_wire`, and the start of the block where the wire's index is new. -/
def openTool (t : Translation) (key : HashKey) : Translation :=
  match t.indexOf? key with
  | some _ => t
  | none =>
    let opened : Translation := { t.allocate .tool with
      wireToIndex := t.wireToIndex ++ [(key, t.next)]
      tools := t.tools ++ [(t.next, { arguments := "" })] }
    opened.yield { type := .blockStart, index := some t.next, blockType := some "tool-call" }

/-- `blocks.tools[index]`. -/
def tool (t : Translation) (index : Nat) : ToolState :=
  ((t.tools.find? (fun entry => entry.1 == index)).map (·.2)).getD { arguments := "" }

end Translation

namespace Wire

variable (wire : Wire)

/-- The id and the name of a tool call, as its frames hold them. -/
def nameText (name : PyValue) : Option String := if name.isNone then none else some (wire.text name)

/-- `map_finish_reason`. -/
def mapFinishReason (reason : String) : PyDict :=
  match finishReasons.find? (fun entry => entry.1 == reason) with
  | some (_, kind) => finishOf kind
  | none => errorFinish ("the model stopped: " ++ reason) (wire.upper reason)

/-- `map_usage`. -/
def mapUsage (usage : PyValue) : Except String PyDict := do
  let details := (← usage.getAttr "prompt_tokens_details").orElse (.dict [])
  let cached ← details.getAttr "cached_tokens"
  let cacheRead ← if cached.isNone then usage.getAttr "prompt_cache_hit_tokens" else .ok cached
  let reasoning ← ((← usage.getAttr "completion_tokens_details").orElse (.dict [])).getAttr "reasoning_tokens"
  let input ← PyValue.minus wire.floats ((← usage.getAttr "prompt_tokens").orElse (.int 0)) (cacheRead.orElse (.int 0))
  let output := (← usage.getAttr "completion_tokens").orElse (.int 0)
  return [(.str "input_tokens", input), (.str "output_tokens", output)] ++
    (if cacheRead.isNone then [] else [(.str "cache_read_tokens", cacheRead)]) ++
    (if reasoning.isNone then [] else [(.str "reasoning_tokens", reasoning)])

/-- What a delta of a tool call does to its state, and the frame of it. -/
def addDelta (key : HashKey) (id name : PyValue) (fragment : String) (t : Translation) : Translation :=
  match t.indexOf? key with
  | none => t
  | some index =>
    let was := t.tool index
    let state : ToolState :=
      { id := if id.isNone then was.id else id
        name := if name.isNone then was.name else name
        arguments := was.arguments ++ fragment }
    let added : Translation :=
      { t with tools := t.tools.map (fun entry => if entry.1 == index then (index, state) else entry) }
    added.yield
      { type := .toolCallDelta
        index := some index
        toolCallId := some (wire.text state.id)
        toolCallName := wire.nameText state.name
        argumentsDelta := some fragment }

/-- One entry of `tool_calls`. -/
def addToolCall (call : PyValue) : TranslateM Unit := do
  let key ← checked ((call.getAttr "index" (.int 0)).bind PyValue.hashKey)
  Effect.modifies (fun t => t.openTool key)
  let id ← checked (call.getAttr "id")
  let function ← checked (call.getAttr "function")
  let name ← checked ((function.orElse (.dict [])).getAttr "name")
  let arguments ← checked ((function.orElse (.dict [])).getAttr "arguments")
  let fragment ← checked ((arguments.orElse (.str "")).fragment)
  Effect.modifies (wire.addDelta key id name fragment)

/-- The entries of a list, one after another. -/
def each (f : PyValue → TranslateM Unit) : List PyValue → TranslateM Unit
  | [] => return ()
  | x :: xs => do
    f x
    each f xs

/-- What a value does where it is a string with something in it. -/
def fragmentOf (f : Translation → String → Translation) : PyValue → TranslateM Unit
  | .str s => if s = "" then return () else Effect.modifies (fun t => f t s)
  | _ => return ()

/-- One entry of `choices`. -/
def addChoice (choice : PyValue) : TranslateM Unit := do
  let delta ← checked (choice.getAttr "delta")
  fragmentOf Translation.addReasoning (← checked ((delta.orElse (.dict [])).getAttr "reasoning_content"))
  fragmentOf Translation.addText (← checked ((delta.orElse (.dict [])).getAttr "content"))
  let calls ← checked ((delta.orElse (.dict [])).getAttr "tool_calls")
  each wire.addToolCall (← checked ((calls.orElse (.tuple [])).elements))
  match ← checked (choice.getAttr "finish_reason") with
  | .str reason => Effect.modifies (fun t => { t with pendingFinish := some (wire.mapFinishReason reason) })
  | _ => return ()

/-- `LlmError(..., "MALFORMED_RESPONSE")`. -/
def malformed (payload : String) : LlmError :=
  { message := "malformed SSE payload: " ++ String.ofList (payload.toList.take 120)
    code := "MALFORMED_RESPONSE" }

/-- A payload, parsed. -/
def parse (payload : String) : TranslateM PyValue :=
  Effect.result (match wire.loads payload with
    | .ok frame => .ok frame
    | .error .decode => .error (.llm (malformed payload))
    | .error (.other e) => .error (.other e))

/-- A payload other than `[DONE]`. -/
def addPayload (payload : String) : TranslateM Unit := do
  let frame ← wire.parse payload
  let choices ← checked (frame.getAttr "choices")
  each wire.addChoice (← checked ((choices.orElse (.tuple [])).elements))
  let usage ← checked (frame.getAttr "usage")
  if usage.truthy then do
    let mapped ← checked (wire.mapUsage usage)
    Effect.modifies (fun t => { t with pendingUsage := some mapped })
  else return ()

/-- The end of a block. -/
def blockEnd (t : Translation) : BlockKind × Nat → StreamChunk
  | (.text, index) => { type := .blockEnd, index := some index, block := some (.text ((t.text.map (·.2)).getD "")) }
  | (.reasoning, index) =>
    { type := .blockEnd, index := some index, block := some (.reasoning ((t.reasoning.map (·.2)).getD "")) }
  | (.tool, index) =>
    { type := .blockEnd
      index := some index
      block := some (.toolCall
        { id := wire.text (t.tool index).id
          name := wire.text ((t.tool index).name.orElse (.str ""))
          arguments := (t.tool index).arguments }) }

/-- The finish of a response: a clean stop with nothing in it is an error. -/
def finish (t : Translation) : PyDict :=
  let finish := t.pendingFinish.getD (finishOf "stop")
  if kindOf finish = some "stop" ∧ t.order = [] then
    errorFinish "the model returned a completed response with no content" "EMPTY_RESPONSE"
  else finish

/-- What is yielded at `[DONE]`: the ends of the blocks, the usage and the finish. -/
def close (t : Translation) : Translation :=
  { t with yielded := t.yielded ++ t.order.map (wire.blockEnd t) ++
      (t.pendingUsage.toList.map (fun usage => { type := .usage, usage := some usage })) ++
      [{ type := .finish, finish := some (finish t) }] }

/-- `DONE`. -/
def done : String := "[DONE]"

/-- `translate`, up to the end of the payloads: whether `[DONE]` was among them. -/
def read : List String → TranslateM Bool
  | [] => return false
  | payload :: payloads =>
    if payload = done then do
      Effect.modifies wire.close
      return true
    else do
      wire.addPayload payload
      read payloads

end Wire

end Pydsh
