import Pydsh.Agent.Assembler
import Pydsh.Lib.Effect
import Pydsh.Session.Session

/-!
# The turn/step loop

`agent/agent.py`, from `_run_turn` down. A turn is a sequence of steps; a step is one model call and the tool calls it asked for.
What a step meets outside (the signal at its checks, the listeners, the model's frames, the tools) is its `StepWorld`. At each
await other code may append to the session, too: `others` says what, by the seq of the last event before it.
-/

namespace Pydsh

/-- What the loop raises: a `CancelledError` with its reason, another `Exception` as the turn's error text names it, or what is
no `Exception`. -/
inductive Raised where
  | cancelled (reason : PyValue)
  | failed (error : String)
  | base

/-- Code of the agent, over its session. -/
abbrev LoopM (α : Type) : Type := Effect Session Raised α

/-- `DEFAULT_MAX_STEPS`. -/
def defaultMaxSteps : Int := 32

/-- `AgentOptions`. -/
structure AgentOptions where
  provider : String := ""
  model : String := ""
  maxTokens : Option Int := none
  maxSteps : Int := defaultMaxSteps

/-- `call_config_from_options` of the options the loop builds: an empty provider or model is one that was not set. -/
def AgentOptions.callConfig (options : AgentOptions) : List (String × Json) :=
  (if options.provider.isEmpty then [] else [("provider", .str options.provider)]) ++
    (if options.model.isEmpty then [] else [("model", .str options.model)]) ++
    (match options.maxTokens with
    | some n => [("max_tokens", .int n)]
    | none => [])

/-- `_ToolOutcome`. -/
structure ToolOutcome where
  text : String
  isError : Bool

/-- What the `agent/pre-step` waterfall returns: a decision to reject, a decision with the messages that enter, or no dict. -/
inductive PreStep where
  | reject
  | enter (messages : List Message)
  | noOpinion

/-- What a step meets outside. -/
structure StepWorld where
  /-- The reason the signal was aborted with, if it was, at the check before the step. -/
  abortedBefore : Option PyValue := none
  decision : Except Raised PreStep := .ok .noOpinion
  /-- How the appends of the messages that enter end: a plugin may let in something that the codec or the gate refuses. -/
  appended : Except Raised Unit := .ok ()
  /-- How the `agent/request` listeners end. -/
  request : Except Raised Unit := .ok ()
  /-- How `_system_and_tools` ends. -/
  prompt : Except Raised Unit := .ok ()
  /-- The frames of the attempts that failed and were retried. -/
  retried : List (List StreamChunk) := []
  /-- The frames of the last attempt, and how it ends. -/
  chunks : List StreamChunk
  streamed : Except Raised Unit := .ok ()
  messageId : String
  /-- The outcome of `_execute_one`, and the id of the message made of it. -/
  outcome : ToolCallBlock → ToolOutcome
  resultId : ToolCallBlock → String
  /-- How `asyncio.gather` over the calls ends: it raises what one of them raised. -/
  gathered : Except Raised Unit := .ok ()
  /-- The reason the signal was aborted with, if it was, at the check after the step. -/
  abortedAfter : Option PyValue := none

/-- An agent's loop: its options, how Python prints what the session and the codec raise, the clock, and what other code appends
after the event with a seq: the `agent/request` listeners before the request is built, any other code before the loop's next
event. -/
structure Loop where
  options : AgentOptions
  sessionText : SessionError → String
  payloadText : PayloadError → String
  clock : Nat → Rat
  listeners : Nat → List AppendCall := fun _ => []
  others : Nat → List AppendCall

/-- `throw_if_aborted`. -/
def throwIfAborted : Option PyValue → LoopM Unit
  | none => pure ()
  | some reason => Effect.raise (.cancelled reason)

/-- `{"kind": kind}`. -/
def reasonOf (kind : String) : PyValue := .record [("kind", .str kind)]

/-- The message of a tool result. -/
def resultMessage (id : String) (call : ToolCallBlock) (outcome : ToolOutcome) : Message :=
  createUserMessage id [.toolResult call.id [.text outcome.text] outcome.isError] { kind := "tool" }

namespace Loop

variable (l : Loop)

/-- The session after the appends of other code. -/
def interleave (s : Session) : Session := s.appends (l.others s.seq)

/-- `session.append(type, data)`. -/
def write (type : EventType) (data : PyValue) : LoopM Unit := fun s =>
  let s := l.interleave s
  match s.append { eventType := type, data, time := l.clock s.seq } with
  | (.ok _, s) => (.ok (), s)
  | (.error e, s) => (.error (.failed (l.sessionText e)), s)

/-! ## One step -/

/-- The messages of `_build_request`: what the session derives, decoded. -/
def requestMessages (s : Session) : Except Raised (List PyValue) :=
  match s.deriveMessages with
  | .error e => .error (.failed (l.sessionText e))
  | .ok payloads =>
    match decodeList payloads with
    | .error e => .error (.failed (l.payloadText e))
    | .ok messages => .ok messages

/-- The session after the appends of the `agent/request` listeners. -/
def listen (s : Session) : Session := s.appends (l.listeners s.seq)

/-- `_build_request`: the messages, and then the system prompt and the tools. -/
def buildRequest (w : StepWorld) : LoopM (List PyValue) := do
  let messages ← Effect.reads l.requestMessages
  Effect.result w.prompt
  return messages

/-- `session.header.request = call_config_from_options(options)`. -/
def setRequest (s : Session) : Session :=
  { s with header := { s.header with request := some l.options.callConfig } }

/-- The frames of one attempt: each is put into the log and then taken by the assembler. -/
def pushAll (turn step : Nat) (a : BlockAssembler) : List StreamChunk → LoopM BlockAssembler
  | [] => return a
  | chunk :: chunks => do
    l.write .assistantChunk (.record [("turn", .int turn), ("step", .int step), ("chunk", encodePayload chunk.toPy)])
    pushAll turn step (a.push chunk) chunks

/-- `_stream`: the attempts that are retried, and the last one. The assembler is a new one in each. -/
def stream (turn step : Nat) (w : StepWorld) : List (List StreamChunk) → LoopM BlockAssembler
  | [] => do
    let assembler ← l.pushAll turn step {} w.chunks
    Effect.result w.streamed
    return assembler
  | chunks :: retried => do
    let _ ← l.pushAll turn step {} chunks
    stream turn step w retried

/-- The loop of `_execute_tool_calls`: what it appends for each call, in call order. -/
def writeResults (turn step : Nat) (w : StepWorld) : List ToolCallBlock → LoopM (List Message)
  | [] => return []
  | call :: calls => do
    l.write .toolCall (Json.obj [("turn", .int turn), ("step", .int step), ("callId", .str call.id), ("name", .str call.name),
      ("arguments", .str call.arguments)]).loads
    let message := resultMessage (w.resultId call) call (w.outcome call)
    l.write .toolResult (Json.obj [("turn", .int turn), ("step", .int step), ("message", message.toJson),
      ("error", .bool (w.outcome call).isError), ("meta", .null)]).loads
    let results ← writeResults turn step w calls
    return message :: results

/-- `_execute_tool_calls`: all the calls run, then all of them are written. -/
def executeToolCalls (turn step : Nat) (w : StepWorld) (calls : List ToolCallBlock) : LoopM (List Message) := do
  Effect.result w.gathered
  l.writeResults turn step w calls

/-- The assistant message of a reply. -/
def replyMessage (w : StepWorld) (a : BlockAssembler) : Message :=
  createAssistantMessage w.messageId a.blocks l.options.provider l.options.model

/-- The data of a reply's `assistant/message`. -/
def replyData (turn step : Nat) (w : StepWorld) (a : BlockAssembler) : PyValue :=
  .record [("turn", .int turn), ("step", .int step), ("message", encodePayload (l.replyMessage w a).toPy),
    ("usage", optPy .dict a.usage)]

/-- `_run_step` from the finished assembler on. -/
def finishStep (turn step : Nat) (w : StepWorld) (a : BlockAssembler) : LoopM (Option PyValue × List Message) :=
  if a.finishKind = some "error" then return (some (.dict a.finish), [])
  else do
    l.write .assistantMessage (l.replyData turn step w a)
    if a.finishKind = some "max-tokens" then return (some (reasonOf "max-tokens"), [])
    else if a.toolCalls.isEmpty then return (some (reasonOf "completed"), [])
    else do
      let results ← l.executeToolCalls turn step w a.toolCalls
      return (none, results)

/-- `_run_step`: the reason the turn ends with, or the results the next step carries in. -/
def runStep (turn step : Nat) (w : StepWorld) : LoopM (Option PyValue × List Message) := do
  Effect.modifies l.listen
  Effect.result w.request
  let _ ← l.buildRequest w
  Effect.modifies l.setRequest
  let assembler ← l.stream turn step w w.retried
  l.finishStep turn step w assembler.finalize

/-! ## One turn -/

/-- `_pre_step`: the messages that enter, or `none` where the input is rejected. No opinion lets the pending messages in. -/
def preStep (w : StepWorld) (pending : List Message) : LoopM (Option (List Message)) := do
  let decision ← Effect.result w.decision
  match decision with
  | .reject => return none
  | .enter messages => return some messages
  | .noOpinion => return some pending

/-- The messages that enter, each a `user/message`. -/
def enter : List Message → LoopM Unit
  | [] => return ()
  | message :: messages => do
    l.write .userMessage message.toJson.loads
    enter messages

/-- The loop of `_run_turn` before its step number `step`, with the steps that remain to `max_steps`: the reason it breaks with. -/
def steps (turn : Nat) (world : Nat → StepWorld) : Nat → Nat → List Message → LoopM PyValue
  | 0, step, _ => do
    throwIfAborted (world step).abortedBefore
    return reasonOf "max-steps"
  | remaining + 1, step, pending => do
    throwIfAborted (world step).abortedBefore
    let decision ← preStep (world step) pending
    match decision with
    | none => return reasonOf "blocked"
    | some messages => do
      l.enter messages
      Effect.result (world step).appended
      l.write .stepStart (Json.obj [("turn", .int turn), ("step", .int step)]).loads
      let (reason, results) ← Effect.ensure (l.runStep turn step (world step))
        (l.write .stepEnd (Json.obj [("turn", .int turn), ("step", .int step)]).loads)
      throwIfAborted (world step).abortedAfter
      match reason with
      | some reason => return reason
      | none => steps turn world remaining (step + 1) results

/-- The `turn/end` of a turn. -/
def endTurn (turn : Nat) (reason : PyValue) : LoopM Unit :=
  l.write .turnEnd (.record [("turn", .int turn), ("reason", reason)])

/-- The `except` and `finally` of `_run_turn`: a cancellation is swallowed, what else was raised is raised again, and what is no
`Exception` is recorded as no reason is. -/
def closeTurn (turn : Nat) : Except Raised PyValue → LoopM Unit
  | .ok reason => l.endTurn turn reason
  | .error (.cancelled reason) => l.endTurn turn (.record [("kind", .str "cancelled"), ("reason", reason)])
  | .error (.failed error) => do
    l.endTurn turn (.record [("kind", .str "failed"), ("error", .str error)])
    Effect.raise (.failed error)
  | .error .base => do
    l.endTurn turn (reasonOf "completed")
    Effect.raise .base

/-- `_run_turn`: the steps, and the end of the turn, however they end. -/
def runTurn (turn : Nat) (claimed : List Message) (world : Nat → StepWorld) : LoopM Unit := do
  l.write .turnStart (Json.obj [("turn", .int turn)]).loads
  let ended ← Effect.attempt (l.steps turn world l.options.maxSteps.toNat 1 claimed)
  l.closeTurn turn ended

end Loop

end Pydsh
