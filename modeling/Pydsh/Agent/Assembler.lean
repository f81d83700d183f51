import Pydsh.Message.Payload
import Pydsh.Lib.Table
import Pydsh.Python.Dynamic

/-!
# The block assembler

`llm/chunks.py` and `agent/assembler.py`: the frames of a stream, and the fold that turns them back into whole content blocks,
the usage and the finish.
-/

namespace Pydsh

/-- `ChunkType`. -/
inductive ChunkType where
  | blockStart | textDelta | reasoningDelta | toolCallDelta | blockEnd | usage | finish
  deriving DecidableEq

/-- The value of a `ChunkType`. -/
def ChunkType.value : ChunkType → String
  | .blockStart => "block-start"
  | .textDelta => "text-delta"
  | .reasoningDelta => "reasoning-delta"
  | .toolCallDelta => "tool-call-delta"
  | .blockEnd => "block-end"
  | .usage => "usage"
  | .finish => "finish"

/-- One frame on an LLM stream. `usage` and `finish` are dicts of whatever the adapter put in. -/
structure StreamChunk where
  type : ChunkType
  index : Option Int := none
  blockType : Option String := none
  text : Option String := none
  reasoning : Option String := none
  toolCallId : Option String := none
  toolCallName : Option String := none
  argumentsDelta : Option String := none
  block : Option ContentBlock := none
  usage : Option PyDict := none
  finish : Option PyDict := none

/-- An optional field, as the value Python holds. -/
def optPy {α : Type} (toPy : α → PyValue) (value : Option α) : PyValue := (value.map toPy).getD .none

/-- The dataclass Python holds. -/
def StreamChunk.toPy (chunk : StreamChunk) : PyValue :=
  .dataclass [("type", .str chunk.type.value), ("index", optInt chunk.index), ("block_type", optPy .str chunk.blockType),
    ("text", optPy .str chunk.text), ("reasoning", optPy .str chunk.reasoning),
    ("tool_call_id", optPy .str chunk.toolCallId), ("tool_call_name", optPy .str chunk.toolCallName),
    ("arguments_delta", optPy .str chunk.argumentsDelta), ("block", optPy ContentBlock.toPy chunk.block),
    ("usage", optPy .dict chunk.usage), ("finish", optPy .dict chunk.finish)]

/-- `DEFAULT_FINISH`. -/
def defaultFinish : PyDict := [(.str "kind", .str "stop")]

/-- `_OpenBlock`: text accumulating under one block index, in arrival order. -/
structure OpenBlock where
  index : Int
  order : Nat
  text : String := ""

/-- `_OpenToolCall`: a tool call accumulating id, name, and argument text. -/
structure OpenToolCall where
  index : Int
  order : Nat
  id : String := ""
  name : String := ""
  arguments : String := ""

/-- `started`: whether anything at all arrived for this call. -/
def OpenToolCall.started (call : OpenToolCall) : Bool := call.id != "" || call.name != "" || call.arguments != ""

/-- `BlockAssembler`. The open tool calls are in the order of their insertion, one for an index. -/
structure BlockAssembler where
  text : Option OpenBlock := none
  reasoning : Option OpenBlock := none
  openCalls : List OpenToolCall := []
  nextOrder : Nat := 0
  closed : List (Nat × ContentBlock) := []
  usage : Option PyDict := none
  finish : PyDict := defaultFinish

namespace BlockAssembler

/-- `blocks`: the closed blocks, in the order the provider opened them. -/
def blocks (a : BlockAssembler) : List ContentBlock :=
  (a.closed.insertionSort (fun x y => x.1 ≤ y.1)).map (·.2)

/-- `tool_calls`: the finished tool-call blocks, in the order the model asked. -/
def toolCalls (a : BlockAssembler) : List ToolCallBlock := a.blocks.filterMap ContentBlock.call?

/-- `_text or _OpenBlock(index, order)`. -/
def openText (a : BlockAssembler) (index : Int) : BlockAssembler :=
  match a.text with
  | some _ => a
  | none => { a with
    text := some { index, order := a.nextOrder }
    nextOrder := a.nextOrder + 1 }

/-- `_reasoning or _OpenBlock(index, order)`. -/
def openReasoning (a : BlockAssembler) (index : Int) : BlockAssembler :=
  match a.reasoning with
  | some _ => a
  | none => { a with
    reasoning := some { index, order := a.nextOrder }
    nextOrder := a.nextOrder + 1 }

/-- `_open_tool_call`. -/
def openToolCall (a : BlockAssembler) (index : Int) : BlockAssembler :=
  if a.openCalls.any (fun call => call.index == index) then a
  else { a with
    openCalls := a.openCalls ++ [{ index, order := a.nextOrder }]
    nextOrder := a.nextOrder + 1 }

/-- `_start`. -/
def start (a : BlockAssembler) (chunk : StreamChunk) : BlockAssembler :=
  let index := chunk.index.getD 0
  match chunk.blockType with
  | some "text" => a.openText index
  | some "reasoning" => a.openReasoning index
  | some "tool-call" => a.openToolCall index
  | _ => a

/-- `_tool_delta`. -/
def toolDelta (a : BlockAssembler) (chunk : StreamChunk) : BlockAssembler :=
  let index := chunk.index.getD 0
  let a := a.openToolCall index
  { a with openCalls := a.openCalls.map (fun call =>
      if call.index == index then { call with
        id := chunk.toolCallId.getD call.id
        name := chunk.toolCallName.getD call.name
        arguments := call.arguments ++ chunk.argumentsDelta.getD "" }
      else call) }

/-- A block closed, in the place of the one that was open, or at the end where none was. -/
def close (a : BlockAssembler) (order : Option Nat) (block : ContentBlock) : BlockAssembler :=
  match order with
  | some order => { a with closed := a.closed ++ [(order, block)] }
  | none => { a with
    closed := a.closed ++ [(a.nextOrder, block)]
    nextOrder := a.nextOrder + 1 }

/-- `_close_text`. -/
def closeText (a : BlockAssembler) (block : Option ContentBlock) : BlockAssembler :=
  let was := a.text
  let a := { a with text := none }
  match block, was with
  | none, none => a
  | some block, was => a.close (was.map (·.order)) block
  | none, some was => a.close (some was.order) (.text was.text)

/-- `_close_reasoning`. -/
def closeReasoning (a : BlockAssembler) (block : Option ContentBlock) : BlockAssembler :=
  let was := a.reasoning
  let a := { a with reasoning := none }
  match block, was with
  | none, none => a
  | some block, was => a.close (was.map (·.order)) block
  | none, some was => a.close (some was.order) (.reasoning was.text)

/-- `_close_tool_call`. -/
def closeToolCall (a : BlockAssembler) (index : Int) (block : Option ContentBlock) : BlockAssembler :=
  let was := a.openCalls.find? (fun call => call.index == index)
  let a := { a with openCalls := a.openCalls.filter (fun call => call.index != index) }
  match block, was with
  | none, none => a
  | some block, was => a.close (was.map (·.order)) block
  | none, some was => a.close (some was.order) (.toolCall ⟨was.id, was.name, was.arguments⟩)

/-- `_close_by_type`. -/
def closeByType (a : BlockAssembler) (chunk : StreamChunk) : BlockAssembler :=
  match chunk.blockType with
  | some "text" => a.closeText none
  | some "reasoning" => a.closeReasoning none
  | some "tool-call" => a.closeToolCall (chunk.index.getD 0) none
  | _ => a

/-- `_end`: a block the provider handed back whole wins over what was accumulated. -/
def endBlock (a : BlockAssembler) (chunk : StreamChunk) : BlockAssembler :=
  match chunk.block with
  | some (.text t) => a.closeText (some (.text t))
  | some (.reasoning t) => a.closeReasoning (some (.reasoning t))
  | some (.toolCall call) => a.closeToolCall (chunk.index.getD 0) (some (.toolCall call))
  | _ => a.closeByType chunk

/-- The loop of `finalize` over the indices: a call that was never started is dropped. -/
def closeStarted (a : BlockAssembler) : List Int → BlockAssembler
  | [] => a
  | index :: indices =>
    match a.openCalls.find? (fun call => call.index == index) with
    | some call => if call.started then (a.closeToolCall index none).closeStarted indices else a.closeStarted indices
    | none => a.closeStarted indices

/-- `finalize`: close anything still open. -/
def finalize (a : BlockAssembler) : BlockAssembler :=
  let a := if a.text.isSome then a.closeText none else a
  let a := if a.reasoning.isSome then a.closeReasoning none else a
  let a := a.closeStarted ((a.openCalls.map (·.index)).insertionSort (· ≤ ·))
  { a with openCalls := [] }

/-- `push`: take one frame. -/
def push (a : BlockAssembler) (chunk : StreamChunk) : BlockAssembler :=
  match chunk.type with
  | .blockStart => a.start chunk
  | .textDelta =>
    let a := a.openText (chunk.index.getD 0)
    { a with text := a.text.map (fun was => { was with text := was.text ++ chunk.text.getD "" }) }
  | .reasoningDelta =>
    let a := a.openReasoning (chunk.index.getD 0)
    { a with reasoning := a.reasoning.map (fun was => { was with text := was.text ++ chunk.reasoning.getD "" }) }
  | .toolCallDelta => a.toolDelta chunk
  | .blockEnd => a.endBlock chunk
  | .usage => { a with usage := chunk.usage }
  | .finish =>
    let finish := match chunk.finish with
      | some (kv :: kvs) => kv :: kvs
      | _ => defaultFinish
    { a with finish }.finalize

/-- `finish.get("kind")`, where it is a string. -/
def finishKind (a : BlockAssembler) : Option String :=
  match PyDict.get? a.finish "kind" with
  | some (.str kind) => some kind
  | _ => none

variable {a : BlockAssembler}

/-! ## What closes a block by what was accumulated -/

theorem closeText_none_of_some {was : OpenBlock} (h : a.text = some was) :
    a.closeText none = { a with
      text := none
      closed := a.closed ++ [(was.order, .text was.text)] } := by
  simp [closeText, close, h]

theorem closeText_none_of_none (h : a.text = none) : a.closeText none = a := by
  unfold closeText
  rw [h]
  cases a
  cases h
  rfl

theorem closeReasoning_none_of_some {was : OpenBlock} (h : a.reasoning = some was) :
    a.closeReasoning none = { a with
      reasoning := none
      closed := a.closed ++ [(was.order, .reasoning was.text)] } := by
  simp [closeReasoning, close, h]

theorem closeReasoning_none_of_none (h : a.reasoning = none) : a.closeReasoning none = a := by
  unfold closeReasoning
  rw [h]
  cases a
  cases h
  rfl

theorem closeToolCall_none_of_find {index : Int} {was : OpenToolCall}
    (h : a.openCalls.find? (fun call => call.index == index) = some was) :
    a.closeToolCall index none = { a with
      openCalls := a.openCalls.filter (fun call => call.index != index)
      closed := a.closed ++ [(was.order, .toolCall ⟨was.id, was.name, was.arguments⟩)] } := by
  simp [closeToolCall, close, h]

theorem closeToolCall_none_of_none {index : Int} (h : a.openCalls.find? (fun call => call.index == index) = none) :
    a.closeToolCall index none = a := by
  have hall : a.openCalls.filter (fun call => call.index != index) = a.openCalls := by
    refine List.filter_eq_self.mpr (fun call hcall => ?_)
    simpa [bne] using List.find?_eq_none.mp h call hcall
  simp [closeToolCall, h, hall]

/-- Nothing is open. -/
structure Settled (a : BlockAssembler) : Prop where
  text : a.text = none
  reasoning : a.reasoning = none
  openCalls : a.openCalls = []

theorem Settled.finalize_eq (h : a.Settled) : a.finalize = a := by
  obtain ⟨text, reasoning, openCalls, nextOrder, closed, usage, finish⟩ := a
  obtain ⟨rfl, rfl, rfl⟩ := h
  rfl

/-! ## What a reply is made of -/

/-- No closed block is a tool result. -/
def Plain (a : BlockAssembler) : Prop := ∀ p ∈ a.closed, ∀ id, p.2.answers id = false

theorem Plain.of_closed {a' : BlockAssembler} (h : a.Plain) (heq : a'.closed = a.closed) : a'.Plain := by
  unfold Plain
  rw [heq]
  exact h

theorem Plain.close (h : a.Plain) (order : Option Nat) {block : ContentBlock} (hblock : ∀ id, block.answers id = false) :
    (a.close order block).Plain := by
  cases order <;>
    · intro p hp
      rcases List.mem_append.mp hp with hp | hp
      · exact h p hp
      · rw [List.mem_singleton.mp hp]
        exact hblock

theorem Plain.closeText (h : a.Plain) {block : Option ContentBlock} (hblock : ∀ b ∈ block, ∀ id, b.answers id = false) :
    (a.closeText block).Plain := by
  have h' : ({ a with text := none } : BlockAssembler).Plain := h
  unfold BlockAssembler.closeText
  cases block with
  | some b => exact h'.close _ (hblock b rfl)
  | none =>
    cases a.text with
    | none => exact h'
    | some was => exact h'.close _ (fun _ => rfl)

theorem Plain.closeReasoning (h : a.Plain) {block : Option ContentBlock} (hblock : ∀ b ∈ block, ∀ id, b.answers id = false) :
    (a.closeReasoning block).Plain := by
  have h' : ({ a with reasoning := none } : BlockAssembler).Plain := h
  unfold BlockAssembler.closeReasoning
  cases block with
  | some b => exact h'.close _ (hblock b rfl)
  | none =>
    cases a.reasoning with
    | none => exact h'
    | some was => exact h'.close _ (fun _ => rfl)

theorem Plain.closeToolCall (h : a.Plain) (index : Int) {block : Option ContentBlock}
    (hblock : ∀ b ∈ block, ∀ id, b.answers id = false) : (a.closeToolCall index block).Plain := by
  have h' : ({ a with openCalls := a.openCalls.filter (fun call => call.index != index) } : BlockAssembler).Plain := h
  unfold BlockAssembler.closeToolCall
  cases block with
  | some b => exact h'.close _ (hblock b rfl)
  | none =>
    cases a.openCalls.find? (fun call => call.index == index) with
    | none => exact h'
    | some was => exact h'.close _ (fun _ => rfl)

theorem Plain.closeByType (h : a.Plain) (chunk : StreamChunk) : (a.closeByType chunk).Plain := by
  unfold BlockAssembler.closeByType
  split
  · exact h.closeText nofun
  · exact h.closeReasoning nofun
  · exact h.closeToolCall _ nofun
  · exact h

theorem Plain.endBlock (h : a.Plain) (chunk : StreamChunk) : (a.endBlock chunk).Plain := by
  unfold BlockAssembler.endBlock
  split
  · exact h.closeText (by rintro b ⟨⟩ id; rfl)
  · exact h.closeReasoning (by rintro b ⟨⟩ id; rfl)
  · exact h.closeToolCall _ (by rintro b ⟨⟩ id; rfl)
  · exact h.closeByType chunk

theorem Plain.closeStarted (h : a.Plain) (indices : List Int) : (a.closeStarted indices).Plain := by
  induction indices generalizing a with
  | nil => exact h
  | cons index indices ih =>
    unfold BlockAssembler.closeStarted
    split
    · split
      · exact ih (h.closeToolCall index nofun)
      · exact ih h
    · exact ih h

theorem Plain.finalize (h : a.Plain) : a.finalize.Plain := by
  have htext : ∀ a : BlockAssembler, a.Plain → (if a.text.isSome then a.closeText none else a).Plain := by
    intro a h
    split
    · exact h.closeText nofun
    · exact h
  have hreasoning : ∀ a : BlockAssembler, a.Plain → (if a.reasoning.isSome then a.closeReasoning none else a).Plain := by
    intro a h
    split
    · exact h.closeReasoning nofun
    · exact h
  exact ((hreasoning _ (htext a h)).closeStarted _).of_closed rfl

theorem Plain.openText (h : a.Plain) (index : Int) : (a.openText index).Plain := by
  unfold BlockAssembler.openText
  split <;> exact h

theorem Plain.openReasoning (h : a.Plain) (index : Int) : (a.openReasoning index).Plain := by
  unfold BlockAssembler.openReasoning
  split <;> exact h

theorem Plain.openToolCall (h : a.Plain) (index : Int) : (a.openToolCall index).Plain := by
  unfold BlockAssembler.openToolCall
  split <;> exact h

theorem Plain.start (h : a.Plain) (chunk : StreamChunk) : (a.start chunk).Plain := by
  unfold BlockAssembler.start
  split
  · exact h.openText _
  · exact h.openReasoning _
  · exact h.openToolCall _
  · exact h

/-- A frame closes no tool result: a block handed back whole is taken only where it is text, reasoning or a tool call. -/
theorem Plain.push (h : a.Plain) (chunk : StreamChunk) : (a.push chunk).Plain := by
  unfold BlockAssembler.push
  cases chunk.type with
  | blockStart => exact h.start chunk
  | textDelta => exact (h.openText _).of_closed rfl
  | reasoningDelta => exact (h.openReasoning _).of_closed rfl
  | toolCallDelta => exact (h.openToolCall _).of_closed rfl
  | blockEnd => exact h.endBlock chunk
  | usage => exact h.of_closed rfl
  | finish => exact Plain.finalize (h.of_closed rfl)

theorem blocks_plain (chunks : List StreamChunk) : ∀ b ∈ (chunks.foldl push {}).finalize.blocks, ∀ id, b.answers id = false := by
  have hpush : ∀ a : BlockAssembler, a.Plain → (chunks.foldl push a).Plain := by
    induction chunks with
    | nil => exact fun a h => h
    | cons chunk chunks ih => exact fun a h => ih (a.push chunk) (h.push chunk)
  have hplain : (chunks.foldl push {}).finalize.Plain := Plain.finalize (hpush {} (by simp [Plain]))
  intro b hb
  obtain ⟨p, hp, rfl⟩ := List.mem_map.mp hb
  exact hplain p ((List.mem_insertionSort _).mp hp)

end BlockAssembler

end Pydsh
