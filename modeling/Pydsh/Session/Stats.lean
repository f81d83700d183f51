import Mathlib.Algebra.Order.Ring.Rat
import Mathlib.Data.Rat.Floor
import Pydsh.Lib.Dict
import Pydsh.Lib.Result
import Pydsh.Projection.Registry
import Pydsh.Python.Dynamic

/-!
# `session_stats`

`session/stats.py`: the totals that a unit folds from the log of a session, with what it remembers in between. It reads the data that the
log holds, and raises where that is not of the shape it expects. The times are those of the events; arithmetic on them is exact here.
-/

namespace Pydsh

/-! ## Reading a document -/

/-- `data[key]` -/
def Json.subscript (data : Json) (key : String) : Except String Json :=
  match data with
  | .obj kvs =>
    match field? kvs key with
    | some v => .ok v
    | none => .error ("KeyError: '" ++ key ++ "'")
  | .arr _ => .error "TypeError: list indices must be integers or slices, not str"
  | .str _ => .error "TypeError: string indices must be integers, not 'str'"
  | v => .error ("TypeError: '" ++ v.loads.typeName ++ "' object is not subscriptable")

/-- `data.get(key)` -/
def Json.get (data : Json) (key : String) : Except String Json :=
  match data with
  | .obj kvs => .ok ((field? kvs key).getD .null)
  | v => .error ("AttributeError: '" ++ v.loads.typeName ++ "' object has no attribute 'get'")

/-- The number a document is compared as. -/
def Json.number? : Json → Option Rat
  | .bool b => some b.toInt
  | .int i => some i
  | .float q => some q
  | _ => none

mutual

/-- `==` -/
def Json.pyEq : Json → Json → Bool
  | .null, .null => true
  | .str s, .str t => s == t
  | .arr xs, .arr ys => Json.pyEqList xs ys
  | .obj kvs, .obj fields => kvs.length == fields.length && Json.pyEqFields kvs fields
  | a, b =>
    match a.number?, b.number? with
    | some p, some q => p == q
    | _, _ => false

def Json.pyEqList : List Json → List Json → Bool
  | [], [] => true
  | x :: xs, y :: ys => x.pyEq y && Json.pyEqList xs ys
  | _, _ => false

def Json.pyEqFields : List (String × Json) → List (String × Json) → Bool
  | [], _ => true
  | (k, v) :: kvs, fields =>
    (match field? fields k with
    | some w => v.pyEq w
    | none => false) && Json.pyEqFields kvs fields

end

/-- `int(q)`: towards zero. -/
def truncated (q : Rat) : Int := if q < 0 then ⌈q⌉ else ⌊q⌋

/-! ## The state -/

/-- `TOTALS` -/
structure StatsTotals where
  turns : Nat := 0
  steps : Nat := 0
  llmMs : Rat := 0
  toolMs : Rat := 0
  ttftMs : Rat := 0
  ttftSteps : Nat := 0
  decodeMs : Rat := 0
  decodeTokens : Int := 0
  deriving DecidableEq

/-- The step that is open: its turn and number, when it started, and when its first token came. -/
structure OpenStep where
  turn : Json
  step : Json
  startedAt : Rat
  firstTokenAt : Option Rat

/-- The state of the fold: the totals, and what it remembers. -/
structure Stats extends StatsTotals where
  lastTurn : Json := .null
  openStep : Option OpenStep := none
  pendingCalls : Dict HashKey Rat := .empty

/-! ## The transition -/

/-- `_TOKEN_DELTA_TAGS` -/
def tokenDeltaTags : List String := ["text-delta", "reasoning-delta", "tool-call-delta"]

/-- `_is_token_delta` -/
def isTokenDelta (chunk : Json) : Except String Bool :=
  match chunk with
  | .obj kvs =>
    (((field? kvs "type").getD .null).loads.hashKey).map (fun key => decide (key ∈ tokenDeltaTags.map HashKey.str))
  | _ => .ok false

/-- `int(value)` of a count, if it is a number. -/
def countOf (value : Json) : Option Int := value.number?.map truncated

/-- `_output_tokens` -/
def outputTokens (usage : Json) : Option Int :=
  match usage with
  | .obj kvs => ["output_tokens", "output", "completion_tokens"].findSome? (fun key => (field? kvs key).bind countOf)
  | _ => none

/-- The id of a tool result, if a block is one; `Json.null` stands for `None`. -/
def blockCallId : Json → Option Json
  | .obj kvs =>
    match field? kvs "__block__" with
    | some (.str "tool-result") => some ((field? kvs "tool_call_id").getD .null)
    | _ => none
  | _ => none

/-- `_result_call_id`; `Json.null` stands for `None`. -/
def resultCallId (message : Json) : Except String Json :=
  match message with
  | .obj kvs =>
    match field? kvs "__msg__" with
    | some (.obj body) =>
      match (field? body "content").getD (.arr []) with
      | .arr blocks => .ok ((blocks.findSome? blockCallId).getD .null)
      | .str _ | .obj _ => .ok .null
      | v => .error ("TypeError: '" ++ v.loads.typeName ++ "' object is not iterable")
    | _ => .ok .null
  | _ => .ok .null

/-- `_is_this_step` -/
def isThisStep (openStep : Option OpenStep) (data : Json) : Except String (Option OpenStep) :=
  match openStep with
  | none => .ok none
  | some o => do
    let turn ← data.get "turn"
    if o.turn.pyEq turn then
      let step ← data.get "step"
      return if o.step.pyEq step then some o else none
    else return none

/-- What an assembled message does to the totals. -/
def StatsTotals.message (t : StatsTotals) (o : OpenStep) (time : Rat) (usage : Json) : StatsTotals :=
  let t := { t with llmMs := t.llmMs + max 0 (time - o.startedAt) }
  match o.firstTokenAt with
  | none => t
  | some first =>
    let t := { t with ttftMs := t.ttftMs + max 0 (first - o.startedAt), ttftSteps := t.ttftSteps + 1 }
    match outputTokens usage with
    | none => t
    | some tokens => { t with decodeMs := t.decodeMs + max 0 (time - first), decodeTokens := t.decodeTokens + tokens }

/-- `_apply`; `none` is the same state. -/
def applyStats (state : Stats) (event : SessionEvent) : Except String (Option Stats) :=
  match event.type with
  | .stepStart => do
    let turn ← event.data.subscript "turn"
    let step ← event.data.subscript "step"
    return some { state with openStep := some ⟨turn, step, event.time, none⟩ }
  | .assistantChunk => do
    match ← isThisStep state.openStep event.data with
    | none => return none
    | some o =>
      if o.firstTokenAt.isSome then return none
      else if ← isTokenDelta (← event.data.get "chunk") then
        return some { state with openStep := some { o with firstTokenAt := some event.time } }
      else return none
  | .assistantMessage => do
    match ← isThisStep state.openStep event.data with
    | none => return none
    | some o =>
      -- The usage is read only where a first token came; reading it raises nothing that the step's numbers did not.
      return some { state with
        toStatsTotals := state.toStatsTotals.message o event.time (← event.data.get "usage"), openStep := none }
  | .toolCall => do
    let callId ← event.data.subscript "callId"
    let key ← callId.loads.hashKey
    return some { state with pendingCalls := state.pendingCalls.set key event.time }
  | .toolResult => do
    let callId ← resultCallId (← event.data.get "message")
    if callId.loads.truthy then
      let key ← callId.loads.hashKey
      match state.pendingCalls.get? key with
      | none => return none
      | some dispatched =>
        return some { state with
          toolMs := state.toolMs + max 0 (event.time - dispatched), pendingCalls := state.pendingCalls.pop key }
    else return none
  | .stepEnd => do
    let turn ← event.data.subscript "turn"
    return some { state with
      turns := if state.lastTurn.pyEq turn then state.turns else state.turns + 1
      steps := state.steps + 1
      lastTurn := turn
      openStep := none }
  | .turnEnd => return if state.pendingCalls.size = 0 then none else some { state with pendingCalls := .empty }
  | _ => return none

/-- `session_stats_definition` -/
def sessionStatsDefinition : ProjectionDefinition Stats StatsTotals String where
  key := "session_stats"
  init := {}
  apply := applyStats
  view state := .ok state.toStatsTotals

end Pydsh
