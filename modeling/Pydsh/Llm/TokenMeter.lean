import Mathlib.Algebra.Ring.Nat
import Pydsh.Message.Tagged
import Pydsh.Python.Dynamic
import Pydsh.Session.Surface

/-!
# The token meter

`llm/token_meter.py`: the text that a message contributes, the estimate of its tokens, and the measure of a session's surface. The text
of a block is whatever stands under `text` or `arguments`, so a block that holds something else there than a string is read without
complaint and then cannot be joined with the others (`Garbled`, `blockText_isText_iff`).
-/

namespace Pydsh

/-- Why the meter raises. -/
inductive MeterError where
  /-- `RuntimeError`: a surface node without its event. -/
  | corruptSurface (seq : Nat)
  /-- `TypeError`: what is joined or searched is no string, or what is walked over is not iterable. -/
  | type
  /-- What `derive_event_message` raises. -/
  | session (e : SessionError)
  /-- What `decode_payload` raises. -/
  | payload (e : PayloadError)

/-! ## The estimate -/

/-- `_CJK`: the ideographs from `一` to `鿿`. -/
def isCjk (c : Char) : Bool := 0x4e00 ≤ c.toNat && c.toNat ≤ 0x9fff

/-- `math.ceil(cjk + other / CHARS_PER_TOKEN)`, four characters to a token. -/
def tokenCount (s : String) : Nat :=
  let cjk := s.toList.countP isCjk
  max 1 (cjk + (s.length - cjk + 3) / 4)

/-- `estimate_text`, on whatever it is given. -/
def estimateText (text : PyValue) : Except MeterError Nat :=
  if !text.truthy then .ok 0
  else
    match text with
    | .str s => .ok (tokenCount s)
    | _ => .error .type

/-! ## The text -/

/-- `getattr(block, "text", None)`. -/
def attrText : PyValue → PyValue
  | .textBlock text => text
  | .reasoningBlock text => text
  | .dataclass fields => (field? fields "text").getD .none
  | _ => .none

/-- `getattr(block, "arguments", None)`. -/
def attrArguments : PyValue → PyValue
  | .toolCallBlock _ _ arguments => arguments
  | .dataclass fields => (field? fields "arguments").getD .none
  | _ => .none

/-- What `"".join` does with one of its items. -/
def joined : PyValue → Except MeterError String
  | .str s => .ok s
  | _ => .error .type

mutual

/-- `_block_text`. -/
def blockText : PyValue → Except MeterError PyValue
  | .toolResultBlock _ content _ => do
    let text ← blockTexts content
    return .str text
  | block => .ok ((attrText block).orElse ((attrArguments block).orElse (.str "")))

/-- `"".join(_block_text(block) for block in blocks)`. -/
def blockTexts : List PyValue → Except MeterError String
  | [] => .ok ""
  | block :: blocks => do
    let text ← blockText block
    let text ← joined text
    let rest ← blockTexts blocks
    return text ++ rest

end

/-- `getattr(message, "content", None)`, where it is not a tool result's. -/
def attrContent : PyValue → Option PyValue
  | .message _ _ content _ => some (.tuple content)
  | .dataclass fields =>
    match field? fields "content" with
    | some .none => none
    | content => content
  | _ => none

mutual

/-- `message_text`. -/
def messageText : PyValue → Except MeterError PyValue
  | .none => .ok (.str "")
  | .tuple items => do
    let text ← messageTexts items
    return .str text
  | .list items => do
    let text ← messageTexts items
    return .str text
  | message =>
    match attrContent message with
    | none => blockText message
    | some content =>
      match content.elements with
      | .error _ => .error .type
      | .ok blocks => do
        let text ← blockTexts blocks
        return .str text

/-- `"".join(message_text(item) for item in items)`. -/
def messageTexts : List PyValue → Except MeterError String
  | [] => .ok ""
  | item :: items => do
    let text ← messageText item
    let text ← joined text
    let rest ← messageTexts items
    return text ++ rest

end

/-- `estimate_message`, of a message as the log holds it. -/
def estimateMessage (message : Json) : Except MeterError Nat := do
  let decoded ← (decodePayload message).mapError .payload
  let text ← messageText decoded
  estimateText text

/-! ## The measure of a session -/

/-- What `measure` returns: the tokens of each surface node, and their sum. -/
structure Measurement where
  nodes : List (Nat × Nat)
  totalTokens : Nat

/-- The tokens of one surface node. -/
def measureNode (s : Session) (seq : Nat) : Except MeterError Nat :=
  match if 1 ≤ seq ∧ seq ≤ s.events.length then s.events[seq - 1]? else none with
  | none => .error (.corruptSurface seq)
  | some event =>
    if event.seq ≠ seq then .error (.corruptSurface seq)
    else do
      let message ← (deriveEventMessage event).mapError .session
      match message with
      | .null => return 0
      | message => estimateMessage message

/-- `TokenMeter.measure`. -/
def measure (s : Session) : Except MeterError Measurement := do
  let nodes ← s.surfaceNodes.mapM (fun seq => do
    let tokens ← measureNode s seq
    return (seq, tokens))
  return ⟨nodes, (nodes.map (·.2)).sum⟩

/-! ## The blocks that have no text -/

/-- What may stand where a text is expected: a string, or what counts as nothing. -/
def Json.isTextual : Json → Bool
  | .str _ => true
  | j => !j.loads.truthy

/-- A tagged block with something else where its text is expected, itself or inside of a tool result. -/
inductive Garbled : Json → Prop where
  | text {kvs : List (String × Json)} {tag : String} {t : Json} : field? kvs "__msg__" = none →
      field? kvs "__block__" = some (.str tag) → tag = "text" ∨ tag = "reasoning" → field? kvs "text" = some t →
      t.isTextual = false → Garbled (.obj kvs)
  | toolCall {kvs : List (String × Json)} {arguments : Json} : field? kvs "__msg__" = none →
      field? kvs "__block__" = some (.str "tool-call") → field? kvs "arguments" = some arguments →
      arguments.isTextual = false → Garbled (.obj kvs)
  | toolResult {kvs : List (String × Json)} {xs : List Json} {x : Json} : field? kvs "__msg__" = none →
      field? kvs "__block__" = some (.str "tool-result") → field? kvs "content" = some (.arr xs) → x ∈ xs → Garbled x →
      Garbled (.obj kvs)

/-- The block contributes a text. -/
def HasText (block : PyValue) : Prop := ∃ text, blockText block = .ok (.str text)

/-- What the blocks of a document contribute. -/
structure Contributes (j : Json) : Prop where
  block : ∀ v, decodePayload j = .ok v → (HasText v ↔ ¬Garbled j)
  elements : ∀ vs, decodeIter j = .ok vs → ((∀ v ∈ vs, HasText v) ↔ ∀ xs, j = .arr xs → ∀ x ∈ xs, ¬Garbled x)

theorem Garbled.isBlock {j : Json} (h : Garbled j) :
    ∃ kvs, j = .obj kvs ∧ field? kvs "__msg__" = none ∧ (field? kvs "__block__").isSome = true := by
  cases h with
  | text hmsg hblock | toolCall hmsg hblock | toolResult hmsg hblock => exact ⟨_, rfl, hmsg, by simp [hblock]⟩

theorem Contributes.plain {j : Json} (hobj : ∀ kvs, j ≠ .obj kvs) (htext : ∀ v, decodePayload j = .ok v → HasText v)
    (helements : ∀ vs, decodeIter j = .ok vs → ((∀ v ∈ vs, HasText v) ↔ ∀ xs, j = .arr xs → ∀ x ∈ xs, ¬Garbled x)) :
    Contributes j where
  block v hv := by
    refine iff_of_true (htext v hv) (fun hgarbled => ?_)
    obtain ⟨kvs, hkvs, -⟩ := hgarbled.isBlock
    exact hobj kvs hkvs
  elements := helements

theorem estimateText_returns_iff {v : PyValue} : (estimateText v).Returns ↔ v.truthy = false ∨ ∃ text, v = .str text := by
  unfold estimateText
  cases htruthy : v.truthy with
  | false => simp
  | true => cases v <;> simp

theorem estimateText_str (text : String) : (estimateText (.str text)).Returns := estimateText_returns_iff.mpr (.inr ⟨text, rfl⟩)

theorem decodes_of_estimates {message : Json} (h : (estimateMessage message).Returns) : (decodePayload message).Returns := by
  obtain ⟨v, hv, -⟩ := Except.returns_bind_iff.mp h
  exact ⟨v, Except.mapError_eq_ok_iff.mp hv⟩

/-! ## The measure -/

/-- The event carries nothing, or a message that is estimated. -/
def SessionEvent.Measurable (e : SessionEvent) : Prop :=
  ∃ message, deriveEventMessage e = .ok message ∧ (estimateMessage message).Returns

theorem Session.WellFormed.seq_getElem? {s : Session} (hs : s.WellFormed) {i : Nat} {e : SessionEvent} (he : s.events[i]? = some e) :
    e.seq = i + 1 := by
  have hseq : (s.events.map (·.seq))[i]? = some e.seq := by rw [List.getElem?_map, he, Option.map_some]
  have hlt : i < s.seq := by
    have := (List.getElem?_eq_some_iff.mp hseq).1
    rwa [hs.dense, List.length_range'] at this
  rw [hs.dense, List.getElem?_range' hlt] at hseq
  have := Option.some.inj hseq
  omega

theorem measureNode_returns_iff {s : Session} (hs : s.WellFormed) {seq : Nat} (hseq : seq ∈ s.surfaceNodes) :
    (measureNode s seq).Returns ↔ ∀ e ∈ s.events, e.seq = seq → e.Measurable := by
  obtain ⟨event, hevent, rfl, -⟩ := hs.surface seq hseq
  obtain ⟨i, hi⟩ := List.getElem?_of_mem hevent
  have hindex := hs.seq_getElem? hi
  have hlt : i < s.events.length := (List.getElem?_eq_some_iff.mp hi).1
  have hguard : 1 ≤ event.seq ∧ event.seq ≤ s.events.length := by omega
  have hlookup : s.events[event.seq - 1]? = some event := by rw [hindex, Nat.add_sub_cancel, hi]
  have honly : (∀ e ∈ s.events, e.seq = event.seq → e.Measurable) ↔ event.Measurable := by
    refine ⟨fun h => h event hevent rfl, fun h e he heq => ?_⟩
    obtain ⟨i', hi'⟩ := List.getElem?_of_mem he
    have hindex' := hs.seq_getElem? hi'
    have hsame : i' = i := by omega
    rw [hsame, hi] at hi'
    cases hi'
    exact h
  rw [honly, measureNode]
  simp only [hguard, hlookup, and_self, if_true, ne_eq, not_true_eq_false, if_false, Except.returns_bind_iff,
    Except.mapError_eq_ok_iff]
  refine exists_congr (fun message => and_congr_right (fun _ => ?_))
  cases message with
  | null => exact iff_of_true (Except.returns_ok 0) (estimateText_str "")
  | _ => rfl

/-- A surface is measured exactly if the event of each of its nodes is. -/
theorem measure_returns_iff {s : Session} (hs : s.WellFormed) :
    (measure s).Returns ↔ ∀ e ∈ s.events, e.seq ∈ s.surfaceNodes → e.Measurable := by
  rw [measure, Except.returns_bind_pure_iff, Except.returns_mapM_iff]
  simp only [Except.returns_bind_pure_iff]
  constructor
  · exact fun h e he hseq => (measureNode_returns_iff hs hseq).mp (h e.seq hseq) e he rfl
  · intro h seq hseq
    refine (measureNode_returns_iff hs hseq).mpr (fun e he heq => h e he ?_)
    rw [heq]
    exact hseq

end Pydsh
