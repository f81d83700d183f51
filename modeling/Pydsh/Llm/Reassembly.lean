import Pydsh.Lib.Arrivals
import Pydsh.Llm.Shapes

/-!
# The assembler follows the translation

`translate` accumulates the content of a response in its `_Blocks` to hand each block back whole at `[DONE]`, and the assembler
accumulates it from the deltas. Frame by frame the assembler holds what the translation holds (`Mirrors`), so without the values of
the block ends it closes the same blocks in the same order (`foldl_push_closing`). The calls of the wire are told apart by the
indices that they were given, each the index of one block only (`Called`).
-/

namespace Pydsh

/-- One thing that a payload adds. -/
inductive Addition where
  | reasoning (text : String)
  | text (text : String)
  | call (delta : CallDelta)
  | reason (reason : String)
  | usage (usage : PyDict)

/-- The addition of a value, where it is a string with something in it. -/
def Addition.ofFragment (add : String → Addition) : PyValue → List Addition
  | .str s => if s = "" then [] else [add s]
  | _ => []

/-- The addition of a finish reason, where it is a string. -/
def Addition.ofReason : PyValue → List Addition
  | .str s => [.reason s]
  | _ => []

/-- What a choice adds. -/
def ChoiceDelta.additions (c : ChoiceDelta) : List Addition :=
  Addition.ofFragment .reasoning c.reasoning ++ Addition.ofFragment .text c.content ++ c.calls.map .call ++
    Addition.ofReason c.finishReason

/-- What a payload adds. -/
def PayloadFrame.additions (frame : PayloadFrame) : List Addition :=
  frame.choices.flatMap ChoiceDelta.additions ++ (frame.usage.toList.map .usage)

/-- A string, or `None`. -/
def PyValue.IsText (v : PyValue) : Prop := v = .none ∨ ∃ s, v = .str s

/-- The id and the name of a call are strings, where they are there. -/
def CallDelta.Typed (c : CallDelta) : Prop := c.id.IsText ∧ c.name.IsText

/-- The addition of a call is that of a typed one. -/
def Addition.Typed : Addition → Prop
  | .call c => c.Typed
  | _ => True

/-- The call that is added, if it is one. -/
def Addition.call? : Addition → Option CallDelta
  | .call c => some c
  | _ => none

/-- The calls of a payload. -/
def PayloadFrame.calls (frame : PayloadFrame) : List CallDelta := frame.choices.flatMap (·.calls)

/-- The names of the blocks' kinds. -/
def ContentBlock.kindName : ContentBlock → String
  | .text _ => "text"
  | .reasoning _ => "reasoning"
  | .toolCall _ => "tool-call"
  | .toolResult .. => "tool-result"

/-- The name of a kind, as the frames have it. -/
def BlockKind.name : BlockKind → String
  | .text => "text"
  | .reasoning => "reasoning"
  | .tool => "tool-call"

/-- The frame without the block's value, of which it keeps the kind. -/
def StreamChunk.withoutValue (chunk : StreamChunk) : StreamChunk :=
  match chunk.block with
  | some block => { chunk with
    block := none
    blockType := some block.kindName }
  | none => chunk

namespace Wire

variable (wire : Wire)

/-- The payload is well typed: it has the frame, whose ids and names are strings. -/
structure Sends (payload : String) (frame : PayloadFrame) : Prop where
  ne_done : payload ≠ done
  reads : ∃ value, wire.loads payload = .ok value ∧ wire.readFrame value = .ok frame
  typed : ∀ c ∈ frame.calls, c.Typed

/-- An addition made. -/
def add (t : Translation) : Addition → Translation
  | .reasoning s => t.addReasoning s
  | .text s => t.addText s
  | .call c => wire.takeCall t c
  | .reason reason => { t with pendingFinish := some (wire.mapFinishReason reason) }
  | .usage usage => { t with pendingUsage := some usage }

theorem takeChoice_eq (t : Translation) (c : ChoiceDelta) : wire.takeChoice t c = c.additions.foldl wire.add t := by
  have hreasoning : ∀ v t, takeFragment Translation.addReasoning t v = (Addition.ofFragment .reasoning v).foldl wire.add t := by
    intro v t
    cases v with
    | str s => by_cases hs : s = "" <;> simp [takeFragment, Addition.ofFragment, hs, add]
    | _ => rfl
  have htext : ∀ v t, takeFragment Translation.addText t v = (Addition.ofFragment .text v).foldl wire.add t := by
    intro v t
    cases v with
    | str s => by_cases hs : s = "" <;> simp [takeFragment, Addition.ofFragment, hs, add]
    | _ => rfl
  have hcalls : ∀ t, c.calls.foldl wire.takeCall t = (c.calls.map .call).foldl wire.add t := by
    intro t
    rw [List.foldl_map]
    rfl
  have hreason : ∀ v t, wire.takeReason t v = (Addition.ofReason v).foldl wire.add t := by
    intro v t
    cases v <;> rfl
  simp only [takeChoice, ChoiceDelta.additions, List.foldl_append, hreasoning, htext, hcalls, hreason]

theorem takeFrame_eq (t : Translation) (frame : PayloadFrame) : wire.takeFrame t frame = frame.additions.foldl wire.add t := by
  have husage : ∀ usage t, takeUsage t usage = (usage.toList.map Addition.usage).foldl wire.add t := by
    intro usage t
    cases usage <;> rfl
  have hchoices : ∀ t, frame.choices.foldl wire.takeChoice t = (frame.choices.flatMap ChoiceDelta.additions).foldl wire.add t := by
    intro t
    induction frame.choices generalizing t with
    | nil => rfl
    | cons c choices ih => rw [List.foldl_cons, List.flatMap_cons, List.foldl_append, ih, takeChoice_eq]
  simp only [takeFrame, PayloadFrame.additions, List.foldl_append, husage, hchoices]

/-- Payloads that are read are taken by all their additions, one after another, and `[DONE]` closes. -/
theorem read_done {payloads : List String} {frames : List PayloadFrame} {t : Translation}
    (h : List.Forall₂ wire.Sends payloads frames) :
    wire.read (payloads ++ [done]) t = (.ok true, wire.close ((frames.flatMap PayloadFrame.additions).foldl wire.add t)) := by
  induction h generalizing t with
  | nil => rfl
  | cons hframe _ ih =>
    obtain ⟨value, hparse, hread⟩ := hframe.reads
    rw [List.cons_append, read, if_neg hframe.ne_done]
    simp only [bind, (takes_addPayload hparse).took _ hread t]
    rw [ih, takeFrame_eq, List.flatMap_cons, List.foldl_append]

end Wire

/-! ## The indices of the blocks -/

namespace Translation

/-- Each block of a response has the next index, and there is one of text, one of reasoning and one for each call of the wire. -/
structure Indexed (t : Translation) : Prop where
  order : t.order.map (·.2) = List.range t.next
  text : ∀ i, (.text, i) ∈ t.order ↔ t.text.map (·.1) = some i
  reasoning : ∀ i, (.reasoning, i) ∈ t.order ↔ t.reasoning.map (·.1) = some i
  tools : (t.order.filter (fun e => e.1 == .tool)).map (·.2) = t.tools.map (·.1)
  wired : t.wireToIndex.map (·.2) = t.tools.map (·.1)

theorem indexed_nil : Indexed {} where
  order := rfl
  text := by simp
  reasoning := by simp
  tools := rfl
  wired := rfl

variable {t : Translation}

theorem Indexed.nodup_order (h : t.Indexed) : (t.order.map (·.2)).Nodup := h.order ▸ List.nodup_range

theorem Indexed.nodup (h : t.Indexed) : (t.tools.map (·.1)).Nodup :=
  h.tools ▸ h.nodup_order.sublist (List.filter_sublist.map _)

theorem Indexed.mem_tools_iff (h : t.Indexed) (i : Nat) : (.tool, i) ∈ t.order ↔ i ∈ t.tools.map (·.1) := by
  rw [← h.tools, List.mem_map]
  constructor
  · exact fun hmem => ⟨(.tool, i), List.mem_filter.mpr ⟨hmem, rfl⟩, rfl⟩
  · rintro ⟨⟨kind, k⟩, hmem, rfl⟩
    obtain ⟨hmem, hkind⟩ := List.mem_filter.mp hmem
    obtain rfl : kind = .tool := by simpa using hkind
    exact hmem

theorem Indexed.lt_next (h : t.Indexed) {kind : BlockKind} {i : Nat} (hmem : (kind, i) ∈ t.order) : i < t.next := by
  have hi : i ∈ t.order.map (·.2) := List.mem_map_of_mem hmem
  rw [h.order] at hi
  exact List.mem_range.mp hi

/-- The index that a call of the wire has is that of a tool call. -/
theorem Indexed.mem_tools (h : t.Indexed) {key : HashKey} {i : Nat} (hi : t.indexOf? key = some i) : i ∈ t.tools.map (·.1) := by
  obtain ⟨entry, hfind, rfl⟩ := Option.map_eq_some_iff.mp hi
  rw [← h.wired]
  exact List.mem_map_of_mem (List.mem_of_find?_eq_some hfind)

theorem Indexed.tool_eq (h : t.Indexed) {entry : Nat × ToolState} (hmem : entry ∈ t.tools) : t.tool entry.1 = entry.2 := by
  unfold tool
  rw [Table.find?_of_nodup h.nodup hmem]
  rfl

theorem addText_of_some {i : Nat} {was s : String} (h : t.text = some (i, was)) :
    t.addText s = { t with text := some (i, was ++ s) }.yield { type := .textDelta, index := some i, text := some s } := by
  simp [addText, h]

theorem addText_of_none {s : String} (h : t.text = none) :
    t.addText s = ({ t.allocate .text with text := some (t.next, s) }.yield
      { type := .blockStart, index := some t.next, blockType := some "text" }).yield
      { type := .textDelta, index := some t.next, text := some s } := by
  simp [addText, h, yield, allocate]

theorem addReasoning_of_some {i : Nat} {was s : String} (h : t.reasoning = some (i, was)) :
    t.addReasoning s = { t with reasoning := some (i, was ++ s) }.yield
      { type := .reasoningDelta, index := some i, reasoning := some s } := by
  simp [addReasoning, h]

theorem addReasoning_of_none {s : String} (h : t.reasoning = none) :
    t.addReasoning s = ({ t.allocate .reasoning with reasoning := some (t.next, s) }.yield
      { type := .blockStart, index := some t.next, blockType := some "reasoning" }).yield
      { type := .reasoningDelta, index := some t.next, reasoning := some s } := by
  simp [addReasoning, h, yield, allocate]

theorem Indexed.addText (h : t.Indexed) (s : String) : (t.addText s).Indexed := by
  cases htext : t.text with
  | some entry =>
    rw [addText_of_some htext]
    exact
      { h with
        text := fun i => by simpa [htext, yield, eq_comm] using h.text i }
  | none =>
    rw [addText_of_none htext]
    have hnone : ∀ i, (.text, i) ∉ t.order := fun i hmem => by simpa [htext] using (h.text i).mp hmem
    exact
      { order := by simp [yield, allocate, h.order, List.range_succ]
        text := fun i => by simp [yield, allocate, hnone i, eq_comm]
        reasoning := fun i => by simpa [yield, allocate] using h.reasoning i
        tools := by simpa [yield, allocate] using h.tools
        wired := h.wired }

theorem Indexed.addReasoning (h : t.Indexed) (s : String) : (t.addReasoning s).Indexed := by
  cases hreasoning : t.reasoning with
  | some entry =>
    rw [addReasoning_of_some hreasoning]
    exact
      { h with
        reasoning := fun i => by simpa [hreasoning, yield, eq_comm] using h.reasoning i }
  | none =>
    rw [addReasoning_of_none hreasoning]
    have hnone : ∀ i, (.reasoning, i) ∉ t.order := fun i hmem => by simpa [hreasoning] using (h.reasoning i).mp hmem
    exact
      { order := by simp [yield, allocate, h.order, List.range_succ]
        text := fun i => by simpa [yield, allocate] using h.text i
        reasoning := fun i => by simp [yield, allocate, hnone i, eq_comm]
        tools := by simpa [yield, allocate] using h.tools
        wired := h.wired }

theorem Indexed.openTool (h : t.Indexed) (key : HashKey) : (t.openTool key).Indexed := by
  unfold Translation.openTool
  cases hindex : t.indexOf? key with
  | some i => exact h
  | none =>
    exact
      { order := by simp [yield, allocate, h.order, List.range_succ]
        text := fun i => by simpa [yield, allocate] using h.text i
        reasoning := fun i => by simpa [yield, allocate] using h.reasoning i
        tools := by simp [yield, allocate, h.tools]
        wired := by simp [yield, h.wired] }

end Translation

/-! ## The assembler on the frames of a translation -/

/-- The block of text or of reasoning that a translation has, as the assembler holds it. -/
def openBlockOf (entry : Nat × String) : OpenBlock := { index := entry.1, order := entry.1, text := entry.2 }

namespace Wire

variable (wire : Wire)

/-- A tool call that a translation has, as the assembler holds it. -/
def openCallOf (entry : Nat × ToolState) : OpenToolCall :=
  { index := entry.1
    order := entry.1
    id := wire.text entry.2.id
    name := (wire.nameText entry.2.name).getD ""
    arguments := entry.2.arguments }

/-- What the assembler holds where it has followed a translation. -/
def mirror (t : Translation) : BlockAssembler :=
  { text := t.text.map openBlockOf
    reasoning := t.reasoning.map openBlockOf
    openCalls := t.tools.map wire.openCallOf
    nextOrder := t.next }

/-- The assembler has followed a translation: it holds what the translation holds. -/
def Mirrors (t : Translation) : Prop := t.yielded.foldl BlockAssembler.push {} = wire.mirror t

variable {wire : Wire} {t : Translation}

theorem foldl_push_yield (t : Translation) (chunk : StreamChunk) :
    (t.yield chunk).yielded.foldl BlockAssembler.push {} = (t.yielded.foldl BlockAssembler.push {}).push chunk := by
  simp [Translation.yield]

theorem Mirrors.addText (h : wire.Mirrors t) (s : String) : wire.Mirrors (t.addText s) := by
  unfold Mirrors at h ⊢
  cases htext : t.text with
  | some entry =>
    rw [Translation.addText_of_some htext, foldl_push_yield]
    simp only [h]
    simp [BlockAssembler.push, BlockAssembler.openText, mirror, htext, openBlockOf, Translation.yield]
  | none =>
    rw [Translation.addText_of_none htext, foldl_push_yield, foldl_push_yield]
    simp only [Translation.allocate, h]
    simp [BlockAssembler.push, BlockAssembler.start, BlockAssembler.openText, mirror, htext, openBlockOf, Translation.yield]

theorem Mirrors.addReasoning (h : wire.Mirrors t) (s : String) : wire.Mirrors (t.addReasoning s) := by
  unfold Mirrors at h ⊢
  cases hreasoning : t.reasoning with
  | some entry =>
    rw [Translation.addReasoning_of_some hreasoning, foldl_push_yield]
    simp only [h]
    simp [BlockAssembler.push, BlockAssembler.openReasoning, mirror, hreasoning, openBlockOf, Translation.yield]
  | none =>
    rw [Translation.addReasoning_of_none hreasoning, foldl_push_yield, foldl_push_yield]
    simp only [Translation.allocate, h]
    simp [BlockAssembler.push, BlockAssembler.start, BlockAssembler.openReasoning, mirror, hreasoning, openBlockOf,
      Translation.yield]

theorem Mirrors.openTool (h : wire.Mirrors t) (hindexed : t.Indexed) (key : HashKey) : wire.Mirrors (t.openTool key) := by
  unfold Mirrors at h ⊢
  unfold Translation.openTool
  cases hindex : t.indexOf? key with
  | some i => exact h
  | none =>
    have hnew : (t.tools.map wire.openCallOf).any (fun call => call.index == (t.next : Int)) = false := by
      rw [List.any_map, List.any_eq_false]
      intro entry hentry heq
      have hlt := hindexed.lt_next ((hindexed.mem_tools_iff entry.1).mpr (List.mem_map_of_mem hentry))
      have heq : (entry.1 : Int) = t.next := by simpa [openCallOf] using heq
      omega
    simp only [foldl_push_yield, Translation.allocate, h]
    simp [BlockAssembler.push, BlockAssembler.start, BlockAssembler.openToolCall, mirror, hnew, openCallOf, Translation.yield,
      nameText, PyValue.isNone, wire.text_str]

theorem Mirrors.addDelta (h : wire.Mirrors t) (hindexed : t.Indexed) (key : HashKey) (id name : PyValue) (fragment : String) :
    wire.Mirrors (wire.addDelta key id name fragment t) := by
  unfold Mirrors at h ⊢
  unfold Wire.addDelta
  cases hindex : t.indexOf? key with
  | none => exact h
  | some i =>
    have hopen : (t.tools.map wire.openCallOf).any (fun call => call.index == (i : Int)) = true := by
      obtain ⟨entry, hentry, rfl⟩ := List.mem_map.mp (hindexed.mem_tools hindex)
      rw [List.any_map, List.any_eq_true]
      exact ⟨entry, hentry, by simp [openCallOf]⟩
    simp only [foldl_push_yield, h]
    simp only [BlockAssembler.push, BlockAssembler.toolDelta, BlockAssembler.openToolCall, mirror, Option.getD_some, hopen,
      if_true, Translation.yield, List.map_map]
    congr 1
    refine List.map_congr_left (fun entry hentry => ?_)
    by_cases hentryIndex : entry.1 = i
    · subst hentryIndex
      rw [Function.comp_apply, Function.comp_apply, hindexed.tool_eq hentry]
      cases hname : name.isNone with
      | false => simp [openCallOf, nameText, hname]
      | true => cases hwas : entry.2.name.isNone <;> simp [openCallOf, nameText, hwas]
    · have hne : ¬(entry.1 : Int) = i := by omega
      simp [openCallOf, hentryIndex, hne]

theorem indexed_addDelta (h : t.Indexed) (key : HashKey) (id name : PyValue) (fragment : String) :
    (wire.addDelta key id name fragment t).Indexed := by
  unfold Wire.addDelta
  cases hindex : t.indexOf? key with
  | none => exact h
  | some i =>
    have hsame : ∀ state : ToolState, (t.tools.map (fun entry => if entry.1 == i then (i, state) else entry)).map (·.1) =
        t.tools.map (·.1) := by
      intro state
      rw [List.map_map]
      refine List.map_congr_left (fun entry _ => ?_)
      by_cases hentry : entry.1 = i <;> simp [hentry]
    exact
      { h with
        tools := by simpa only [Translation.yield, hsame] using h.tools
        wired := by simpa only [Translation.yield, hsame] using h.wired }

/-- The names of a translation's calls are strings, and its frames so far hand no block back. -/
structure Plain (t : Translation) : Prop where
  chunks : ∀ chunk ∈ t.yielded, chunk.block = none
  names : ∀ entry ∈ t.tools, entry.2.name.IsText

theorem Plain.yield (h : Plain t) {chunk : StreamChunk} (hchunk : chunk.block = none) : Plain (t.yield chunk) where
  chunks := by simpa [Translation.yield, or_imp, forall_and, hchunk] using h.chunks
  names := h.names

theorem Plain.of_eq {t' : Translation} (h : Plain t) (hyielded : t'.yielded = t.yielded) (htools : t'.tools = t.tools) :
    Plain t' where
  chunks := by simpa [hyielded] using h.chunks
  names := by simpa [htools] using h.names

theorem Plain.addText (h : Plain t) (s : String) : Plain (t.addText s) := by
  cases htext : t.text with
  | some entry =>
    rw [Translation.addText_of_some htext]
    refine Plain.yield (Plain.of_eq h ?_ ?_) ?_ <;> rfl
  | none =>
    rw [Translation.addText_of_none htext]
    refine Plain.yield (Plain.yield (Plain.of_eq h ?_ ?_) ?_) ?_ <;> rfl

theorem Plain.addReasoning (h : Plain t) (s : String) : Plain (t.addReasoning s) := by
  cases hreasoning : t.reasoning with
  | some entry =>
    rw [Translation.addReasoning_of_some hreasoning]
    refine Plain.yield (Plain.of_eq h ?_ ?_) ?_ <;> rfl
  | none =>
    rw [Translation.addReasoning_of_none hreasoning]
    refine Plain.yield (Plain.yield (Plain.of_eq h ?_ ?_) ?_) ?_ <;> rfl

theorem Plain.openTool (h : Plain t) (key : HashKey) : Plain (t.openTool key) := by
  unfold Translation.openTool
  cases hindex : t.indexOf? key with
  | some i => exact h
  | none =>
    refine Plain.yield ⟨?_, fun entry hentry => ?_⟩ ?_
    · exact h.chunks
    · rcases List.mem_append.mp hentry with hentry | hentry
      · exact h.names entry hentry
      · rw [List.mem_singleton.mp hentry]
        exact .inl rfl
    · rfl

theorem Plain.addDelta (h : Plain t) (hindexed : t.Indexed) (key : HashKey) {id name : PyValue} (hname : name.IsText)
    (fragment : String) : Plain (wire.addDelta key id name fragment t) := by
  unfold Wire.addDelta
  cases hindex : t.indexOf? key with
  | none => exact h
  | some i =>
    refine Plain.yield ⟨?_, fun entry hentry => ?_⟩ ?_
    · exact h.chunks
    · obtain ⟨entry', hentry', rfl⟩ := List.mem_map.mp hentry
      by_cases hi : entry'.1 = i
      · have hwas : (t.tool i).name.IsText := by
          rw [← hi, hindexed.tool_eq hentry']
          exact h.names entry' hentry'
        cases hnone : name.isNone with
        | true => simpa [hi, hnone] using hwas
        | false => simpa [hi, hnone] using hname
      · simpa [hi] using h.names entry' hentry'
    · rfl

/-- The assembler has followed a translation so far. -/
structure Followed (wire : Wire) (t : Translation) : Prop where
  mirrors : wire.Mirrors t
  indexed : t.Indexed
  plain : Plain t

theorem Followed.add (h : Followed wire t) {x : Addition} (hx : x.Typed) : Followed wire (wire.add t x) := by
  cases x with
  | reasoning s => exact ⟨h.mirrors.addReasoning s, h.indexed.addReasoning s, h.plain.addReasoning s⟩
  | text s => exact ⟨h.mirrors.addText s, h.indexed.addText s, h.plain.addText s⟩
  | call c =>
    have hopened : Followed wire (t.openTool c.key) :=
      ⟨h.mirrors.openTool h.indexed c.key, h.indexed.openTool c.key, h.plain.openTool c.key⟩
    exact ⟨hopened.mirrors.addDelta hopened.indexed _ _ _ _, indexed_addDelta hopened.indexed _ _ _ _,
      hopened.plain.addDelta hopened.indexed _ hx.2 _⟩
  | reason reason => exact ⟨h.mirrors, { h.indexed with }, h.plain.of_eq rfl rfl⟩
  | usage usage => exact ⟨h.mirrors, { h.indexed with }, h.plain.of_eq rfl rfl⟩

/-! ## The blocks that `[DONE]` closes -/

/-- The block that `[DONE]` hands back for an entry of the order. -/
def endValue (wire : Wire) (t : Translation) : BlockKind × Nat → ContentBlock
  | (.text, _) => .text ((t.text.map (·.2)).getD "")
  | (.reasoning, _) => .reasoning ((t.reasoning.map (·.2)).getD "")
  | (.tool, index) => .toolCall
    { id := wire.text (t.tool index).id
      name := wire.text ((t.tool index).name.orElse (.str ""))
      arguments := (t.tool index).arguments }

theorem block_blockEnd (t : Translation) (e : BlockKind × Nat) : (wire.blockEnd t e).block = some (wire.endValue t e) := by
  obtain ⟨kind, i⟩ := e
  cases kind <;> rfl

theorem withoutValue_blockEnd (t : Translation) (e : BlockKind × Nat) :
    (wire.blockEnd t e).withoutValue = { type := .blockEnd, index := some e.2, blockType := some e.1.name } := by
  obtain ⟨kind, i⟩ := e
  cases kind <;> rfl

/-- What the assembler holds where only some blocks are still open. -/
def closing (wire : Wire) (t : Translation) (rest : List (BlockKind × Nat)) (closed : List (Nat × ContentBlock)) :
    BlockAssembler :=
  { text := (t.text.filter (fun entry => rest.contains (.text, entry.1))).map openBlockOf
    reasoning := (t.reasoning.filter (fun entry => rest.contains (.reasoning, entry.1))).map openBlockOf
    openCalls := (t.tools.filter (fun entry => rest.contains (.tool, entry.1))).map wire.openCallOf
    nextOrder := t.next
    closed }

theorem mirror_eq_closing (h : t.Indexed) : wire.mirror t = wire.closing t t.order [] := by
  have htext : t.text.filter (fun entry => t.order.contains (.text, entry.1)) = t.text := by
    cases htext : t.text with
    | none => rfl
    | some entry =>
      have hmem := (h.text entry.1).mpr (by rw [htext]; rfl)
      simp [hmem]
  have hreasoning : t.reasoning.filter (fun entry => t.order.contains (.reasoning, entry.1)) = t.reasoning := by
    cases hreasoning : t.reasoning with
    | none => rfl
    | some entry =>
      have hmem := (h.reasoning entry.1).mpr (by rw [hreasoning]; rfl)
      simp [hmem]
  have htools : t.tools.filter (fun entry => t.order.contains (.tool, entry.1)) = t.tools := by
    refine List.filter_eq_self.mpr (fun entry hentry => ?_)
    simpa using (h.mem_tools_iff entry.1).mpr (List.mem_map_of_mem hentry)
  simp only [mirror, closing, htext, hreasoning, htools]

/-- The name that the assembler holds is the one that is handed back. -/
theorem nameText_getD {name : PyValue} (h : name.IsText) : (wire.nameText name).getD "" = wire.text (name.orElse (.str "")) := by
  rcases h with rfl | ⟨s, rfl⟩
  · simp [nameText, PyValue.isNone, PyValue.orElse, PyValue.truthy, wire.text_str]
  · by_cases hs : s = "" <;> simp [nameText, PyValue.isNone, PyValue.orElse, PyValue.truthy, wire.text_str, hs]

/-- A block end closes its block as the translation hands it back. -/
theorem push_closing (h : Followed wire t) {e : BlockKind × Nat} {rest : List (BlockKind × Nat)} (hmem : e ∈ t.order)
    (hnew : e.2 ∉ rest.map (·.2)) (closed : List (Nat × ContentBlock)) :
    (wire.closing t (e :: rest) closed).push { type := .blockEnd, index := some e.2, blockType := some e.1.name } =
      wire.closing t rest (closed ++ [(e.2, wire.endValue t e)]) := by
  obtain ⟨kind, i⟩ := e
  have hgone : ∀ kind', (kind', i) ∉ rest := by
    intro kind' hrest
    exact hnew (List.mem_map.mpr ⟨(kind', i), hrest, rfl⟩)
  cases kind with
  | text =>
    obtain ⟨entry, htext, rfl⟩ := Option.map_eq_some_iff.mp ((h.indexed.text i).mp hmem)
    have hopen : (wire.closing t ((.text, entry.1) :: rest) closed).text = some (openBlockOf entry) := by
      simp [closing, htext, Option.filter_some]
    have hclose : (wire.closing t ((.text, entry.1) :: rest) closed).push
        { type := .blockEnd, index := some entry.1, blockType := some "text" } =
        (wire.closing t ((.text, entry.1) :: rest) closed).closeText none := rfl
    rw [BlockKind.name, hclose, BlockAssembler.closeText_none_of_some hopen]
    simp [closing, htext, Option.filter_some, hgone, endValue, openBlockOf]
  | reasoning =>
    obtain ⟨entry, hreasoning, rfl⟩ := Option.map_eq_some_iff.mp ((h.indexed.reasoning i).mp hmem)
    have hopen : (wire.closing t ((.reasoning, entry.1) :: rest) closed).reasoning = some (openBlockOf entry) := by
      simp [closing, hreasoning, Option.filter_some]
    have hclose : (wire.closing t ((.reasoning, entry.1) :: rest) closed).push
        { type := .blockEnd, index := some entry.1, blockType := some "reasoning" } =
        (wire.closing t ((.reasoning, entry.1) :: rest) closed).closeReasoning none := rfl
    rw [BlockKind.name, hclose, BlockAssembler.closeReasoning_none_of_some hopen]
    simp [closing, hreasoning, Option.filter_some, hgone, endValue, openBlockOf]
  | tool =>
    obtain ⟨entry, hentry, rfl⟩ := List.mem_map.mp ((h.indexed.mem_tools_iff i).mp hmem)
    have hnodup : ((wire.closing t ((.tool, entry.1) :: rest) closed).openCalls.map (·.index)).Nodup := by
      have hsub : ((t.tools.filter (fun entry' => ((BlockKind.tool, entry.1) :: rest).contains (.tool, entry'.1))).map (·.1)).Nodup :=
        h.indexed.nodup.sublist (List.filter_sublist.map _)
      have hcast := hsub.map (f := fun i : Nat => (i : Int)) (fun i k hik => Int.ofNat.inj hik)
      simpa [closing, openCallOf, Function.comp_def] using hcast
    have hopen : wire.openCallOf entry ∈ (wire.closing t ((.tool, entry.1) :: rest) closed).openCalls :=
      List.mem_map_of_mem (List.mem_filter.mpr ⟨hentry, by simp⟩)
    have hfind : (wire.closing t ((.tool, entry.1) :: rest) closed).openCalls.find? (fun call => call.index == (entry.1 : Int)) =
        some (wire.openCallOf entry) := Table.find?_of_nodup hnodup hopen
    have hclose : (wire.closing t ((.tool, entry.1) :: rest) closed).push
        { type := .blockEnd, index := some entry.1, blockType := some "tool-call" } =
        (wire.closing t ((.tool, entry.1) :: rest) closed).closeToolCall entry.1 none := rfl
    have hrest : (wire.closing t ((.tool, entry.1) :: rest) closed).openCalls.filter (fun call => call.index != (entry.1 : Int)) =
        (wire.closing t rest (closed ++ [(entry.1, wire.endValue t (.tool, entry.1))])).openCalls := by
      simp only [closing, List.filter_map, List.filter_filter]
      congr 1
      refine List.filter_congr (fun entry' _ => ?_)
      by_cases hentry' : entry'.1 = entry.1
      · simp [openCallOf, hentry', hgone]
      · have hne : ¬(entry'.1 : Int) = entry.1 := by omega
        simp [openCallOf, hentry', hne]
    rw [BlockKind.name, hclose, BlockAssembler.closeToolCall_none_of_find hfind, hrest]
    simp [closing, endValue, openCallOf, h.indexed.tool_eq hentry, nameText_getD (h.plain.names entry hentry)]

/-- The block ends close the blocks that are still open in their order. -/
theorem foldl_push_closing (h : Followed wire t) {rest : List (BlockKind × Nat)} (hmem : ∀ e ∈ rest, e ∈ t.order)
    (hnodup : (rest.map (·.2)).Nodup) (closed : List (Nat × ContentBlock)) :
    ((rest.map (wire.blockEnd t)).map StreamChunk.withoutValue).foldl BlockAssembler.push (wire.closing t rest closed) =
      wire.closing t [] (closed ++ rest.map (fun e => (e.2, wire.endValue t e))) := by
  induction rest generalizing closed with
  | nil => simp
  | cons e rest ih =>
    obtain ⟨he, hmem⟩ := List.forall_mem_cons.mp hmem
    obtain ⟨hnew, hnodup⟩ := List.nodup_cons.mp hnodup
    simp only [List.map_cons, List.foldl_cons, withoutValue_blockEnd]
    rw [push_closing h he hnew, ih hmem hnodup]
    simp

/-- The frames after the block ends: the usage, if there is one, and the finish. -/
def tail (t : Translation) : List StreamChunk :=
  t.pendingUsage.toList.map (fun usage => { type := .usage, usage := some usage }) ++ [{ type := .finish, finish := some (finish t) }]

theorem yielded_close (t : Translation) : (wire.close t).yielded = t.yielded ++ t.order.map (wire.blockEnd t) ++ tail t := by
  simp [close, tail]

theorem map_withoutValue_tail (t : Translation) : (tail t).map StreamChunk.withoutValue = tail t := by
  unfold tail
  cases t.pendingUsage <;> rfl

/-- Where no block is open, the usage and the finish close none. -/
theorem closed_push_tail (t : Translation) (closed : List (Nat × ContentBlock)) :
    ((tail t).foldl BlockAssembler.push (wire.closing t [] closed)).closed = closed := by
  have hsettled : ∀ usage finish, ({ wire.closing t [] closed with
      usage
      finish } : BlockAssembler).finalize.closed = closed := by
    intro usage finish
    rw [BlockAssembler.Settled.finalize_eq ⟨by cases htext : t.text <;> simp [closing, htext],
      by cases hreasoning : t.reasoning <;> simp [closing, hreasoning], by simp [closing]⟩]
    rfl
  unfold tail
  cases t.pendingUsage with
  | none => exact hsettled _ _
  | some usage => exact hsettled _ _

/-! ## The calls of the wire -/

/-- The fragments of a call of the wire, one after another. -/
def argumentsOf (calls : List CallDelta) (key : HashKey) : String :=
  String.join ((calls.filter (fun c => c.key == key)).map (·.fragment))

theorem argumentsOf_concat (calls : List CallDelta) (c : CallDelta) (key : HashKey) :
    argumentsOf (calls ++ [c]) key = if c.key = key then argumentsOf calls key ++ c.fragment else argumentsOf calls key := by
  unfold argumentsOf
  by_cases hkey : c.key = key <;> simp [List.filter_append, hkey]

/-- Of the calls so far each has its index, in the order in which they came first, and under it its fragments. -/
structure Called (t : Translation) (calls : List CallDelta) : Prop where
  keys : t.wireToIndex.map (·.1) = (calls.map (·.key)).eraseDups
  fragments : t.tools.map (fun entry => (entry.1, entry.2.arguments)) =
    t.wireToIndex.map (fun entry => (entry.2, argumentsOf calls entry.1))

theorem addText_calls (t : Translation) (s : String) :
    (t.addText s).tools = t.tools ∧ (t.addText s).wireToIndex = t.wireToIndex := by
  cases htext : t.text with
  | some entry =>
    rw [Translation.addText_of_some htext]
    exact ⟨rfl, rfl⟩
  | none =>
    rw [Translation.addText_of_none htext]
    exact ⟨rfl, rfl⟩

theorem addReasoning_calls (t : Translation) (s : String) :
    (t.addReasoning s).tools = t.tools ∧ (t.addReasoning s).wireToIndex = t.wireToIndex := by
  cases hreasoning : t.reasoning with
  | some entry =>
    rw [Translation.addReasoning_of_some hreasoning]
    exact ⟨rfl, rfl⟩
  | none =>
    rw [Translation.addReasoning_of_none hreasoning]
    exact ⟨rfl, rfl⟩

theorem called_nil : Called {} [] := ⟨rfl, rfl⟩

theorem Called.of_eq {t' : Translation} {calls : List CallDelta} (h : Called t calls) (htools : t'.tools = t.tools)
    (hwire : t'.wireToIndex = t.wireToIndex) : Called t' calls := by
  refine ⟨?_, ?_⟩
  · rw [hwire]
    exact h.keys
  · rw [hwire, htools]
    exact h.fragments

theorem Called.openTool {calls : List CallDelta} (h : Called t calls) (c : CallDelta) :
    (∃ i, (c.key, i) ∈ (t.openTool c.key).wireToIndex) ∧
      (t.openTool c.key).wireToIndex.map (·.1) = ((calls ++ [c]).map (·.key)).eraseDups ∧
      (t.openTool c.key).tools.map (fun entry => (entry.1, entry.2.arguments)) =
        (t.openTool c.key).wireToIndex.map (fun entry => (entry.2, argumentsOf calls entry.1)) := by
  unfold Translation.openTool
  cases hindex : t.indexOf? c.key with
  | some i =>
    obtain ⟨entry, hfind, rfl⟩ := Option.map_eq_some_iff.mp hindex
    have hmem := List.mem_of_find?_eq_some hfind
    have hkey : entry.1 = c.key := by simpa using List.find?_some hfind
    have hknown : c.key ∈ calls.map (·.key) := by
      rw [← List.mem_eraseDups, ← h.keys, ← hkey]
      exact List.mem_map_of_mem hmem
    refine ⟨⟨entry.2, hkey ▸ hmem⟩, ?_, h.fragments⟩
    rw [List.map_append, List.map_singleton, Arrivals.eraseDups_concat, if_pos hknown]
    exact h.keys
  | none =>
    have hnew : c.key ∉ calls.map (·.key) := by
      rw [← List.mem_eraseDups, ← h.keys]
      intro hmem
      obtain ⟨entry, hentry, hkey⟩ := List.mem_map.mp hmem
      have hnone := List.find?_eq_none.mp (Option.map_eq_none_iff.mp hindex) entry hentry
      exact hnone (by simp [hkey])
    have hempty : argumentsOf calls c.key = "" := by
      have hfilter : calls.filter (fun c' => c'.key == c.key) = [] := by
        refine List.filter_eq_nil_iff.mpr (fun c' hc' hkey => hnew ?_)
        rw [← beq_iff_eq.mp hkey]
        exact List.mem_map_of_mem hc'
      rw [argumentsOf, hfilter]
      rfl
    refine ⟨⟨t.next, by simp [Translation.yield]⟩, ?_, ?_⟩
    · rw [List.map_append, List.map_singleton, Arrivals.eraseDups_concat, if_neg hnew, ← h.keys]
      simp [Translation.yield]
    · simp only [Translation.yield, List.map_append, h.fragments]
      simp [hempty]

theorem Called.takeCall {calls : List CallDelta} (h : Called t calls) (hindexed : t.Indexed) (c : CallDelta) :
    Called (wire.takeCall t c) (calls ++ [c]) := by
  obtain ⟨⟨i, hi⟩, hkeys, hfragments⟩ := h.openTool c
  have hopened : (t.openTool c.key).Indexed := hindexed.openTool c.key
  unfold Wire.takeCall
  generalize t.openTool c.key = t at hi hkeys hfragments hopened ⊢
  have hnodup : (t.wireToIndex.map (·.1)).Nodup := hkeys ▸ Arrivals.nodup_eraseDups _
  have hindex : t.indexOf? c.key = some i := by
    unfold Translation.indexOf?
    rw [Table.find?_of_nodup hnodup hi]
    rfl
  have hwas : (t.tool i).arguments = argumentsOf calls c.key := by
    have hmem : (i, argumentsOf calls c.key) ∈ t.tools.map (fun entry => (entry.1, entry.2.arguments)) := by
      rw [hfragments]
      exact List.mem_map.mpr ⟨(c.key, i), hi, rfl⟩
    obtain ⟨entry, hentry, heq⟩ := List.mem_map.mp hmem
    obtain ⟨rfl, harguments⟩ := Prod.mk.inj heq
    rw [hopened.tool_eq hentry, harguments]
  have hsame : ∀ entry ∈ t.wireToIndex, entry.2 = i ↔ entry.1 = c.key := by
    have hindices : (t.wireToIndex.map (·.2)).Nodup := hopened.wired ▸ hopened.nodup
    refine fun entry hentry => ⟨fun hentryIndex => ?_, fun hentryKey => ?_⟩
    · rw [List.inj_on_of_nodup_map hindices hentry hi hentryIndex]
    · rw [List.inj_on_of_nodup_map hnodup hentry hi hentryKey]
  unfold Wire.addDelta
  rw [hindex]
  refine ⟨hkeys, ?_⟩
  calc (t.tools.map (fun entry => if entry.1 == i then (i, _) else entry)).map (fun entry => (entry.1, entry.2.arguments))
      = (t.tools.map (fun entry => (entry.1, entry.2.arguments))).map
          (fun entry => if entry.1 = i then (i, argumentsOf calls c.key ++ c.fragment) else entry) := by
        rw [List.map_map, List.map_map]
        refine List.map_congr_left (fun entry _ => ?_)
        by_cases hentry : entry.1 = i <;> simp [hentry, hwas]
    _ = (t.wireToIndex.map (fun entry => (entry.2, argumentsOf calls entry.1))).map
          (fun entry => if entry.1 = i then (i, argumentsOf calls c.key ++ c.fragment) else entry) := by rw [hfragments]
    _ = t.wireToIndex.map (fun entry => (entry.2, argumentsOf (calls ++ [c]) entry.1)) := by
        rw [List.map_map]
        refine List.map_congr_left (fun entry hentry => ?_)
        by_cases hkey : entry.1 = c.key
        · simp [argumentsOf_concat, hkey, (hsame entry hentry).mpr hkey]
        · have hother : ¬entry.2 = i := fun hentryIndex => hkey ((hsame entry hentry).mp hentryIndex)
          simp [argumentsOf_concat, hother, Ne.symm hkey]

/-- The assembler follows the additions, one after another, and each call of the wire has its fragments. -/
theorem followed_foldl {additions : List Addition} (hadditions : ∀ x ∈ additions, x.Typed) :
    Followed wire (additions.foldl wire.add {}) ∧ Called (additions.foldl wire.add {}) (additions.filterMap Addition.call?) := by
  induction additions using List.reverseRecOn with
  | nil => exact ⟨⟨rfl, Translation.indexed_nil, ⟨by simp, by simp⟩⟩, called_nil⟩
  | append_singleton additions x ih =>
    obtain ⟨hfollowed, hcalled⟩ := ih (fun y hy => hadditions y (List.mem_append_left _ hy))
    have hx : x.Typed := hadditions x (by simp)
    rw [List.foldl_append, List.filterMap_append]
    refine ⟨hfollowed.add hx, ?_⟩
    cases x with
    | call c => exact hcalled.takeCall hfollowed.indexed c
    | text s =>
      rw [List.filterMap_cons_none rfl, List.filterMap_nil, List.append_nil]
      exact hcalled.of_eq (addText_calls _ s).1 (addText_calls _ s).2
    | reasoning s =>
      rw [List.filterMap_cons_none rfl, List.filterMap_nil, List.append_nil]
      exact hcalled.of_eq (addReasoning_calls _ s).1 (addReasoning_calls _ s).2
    | _ =>
      rw [List.filterMap_cons_none rfl, List.filterMap_nil, List.append_nil]
      exact hcalled.of_eq rfl rfl

theorem call?_additions (frame : PayloadFrame) : frame.additions.filterMap Addition.call? = frame.calls := by
  have hfragment : ∀ (add : String → Addition) (v : PyValue), (∀ s, (add s).call? = none) →
      (Addition.ofFragment add v).filterMap Addition.call? = [] := by
    intro add v hadd
    cases v with
    | str s => by_cases hs : s = "" <;> simp [Addition.ofFragment, hs, hadd]
    | _ => rfl
  have hreason : ∀ v, (Addition.ofReason v).filterMap Addition.call? = [] := by
    intro v
    cases v <;> rfl
  have hchoice : ∀ c : ChoiceDelta, c.additions.filterMap Addition.call? = c.calls := by
    intro c
    simp only [ChoiceDelta.additions, List.filterMap_append, hfragment .reasoning _ (fun _ => rfl),
      hfragment .text _ (fun _ => rfl), hreason, List.filterMap_map, List.nil_append, List.append_nil]
    exact List.filterMap_some
  have husage : (frame.usage.toList.map Addition.usage).filterMap Addition.call? = [] := by
    cases frame.usage <;> rfl
  simp only [PayloadFrame.additions, List.filterMap_append, List.filterMap_flatMap, hchoice, husage, List.append_nil, PayloadFrame.calls]

theorem pairwise_order (h : t.Indexed) (f : BlockKind × Nat → ContentBlock) :
    (t.order.map (fun e => (e.2, f e))).Pairwise (fun x y => x.1 ≤ y.1) := by
  have hsorted : (t.order.map (·.2)).Pairwise (· ≤ ·) := h.order ▸ List.pairwise_le_range
  rw [List.pairwise_map] at hsorted ⊢
  exact hsorted

theorem typed_calls {payloads : List String} {frames : List PayloadFrame} (h : List.Forall₂ wire.Sends payloads frames) :
    ∀ c ∈ frames.flatMap PayloadFrame.calls, c.Typed := by
  induction h with
  | nil => simp
  | cons hframe _ ih =>
    rw [List.flatMap_cons]
    intro c hc
    rcases List.mem_append.mp hc with hc | hc
    · exact hframe.typed c hc
    · exact ih c hc

/-- A tool call handed back, by its index: its arguments. -/
def callEnd? (chunk : StreamChunk) : Option (Int × String) := do
  let index ← chunk.index
  let call ← (← chunk.block).call?
  return (index, call.arguments)

/-- The index of a block that is handed back. -/
def endIndex? (chunk : StreamChunk) : Option Int := if chunk.block.isSome then chunk.index else none

/-- For payloads that are well typed, up to `[DONE]`, the translation ends, and without the values of the block ends the assembler
closes the same blocks in the same order; each block has an index of its own, and each call of the wire, in the order in which they came
first, its fragments under its index. -/
theorem assembles_as_translated (wire : Wire) {payloads : List String} {frames : List PayloadFrame}
    (h : List.Forall₂ wire.Sends payloads frames) :
    (wire.translate (payloads ++ [done])).2 = .ok () ∧
      (((wire.translate (payloads ++ [done])).1.map StreamChunk.withoutValue).foldl BlockAssembler.push {}).blocks =
        (wire.translate (payloads ++ [done])).1.filterMap (·.block) ∧
      ((wire.translate (payloads ++ [done])).1.filterMap endIndex?).Nodup ∧
      ∃ index : HashKey → Int, (wire.translate (payloads ++ [done])).1.filterMap callEnd? =
        ((frames.flatMap PayloadFrame.calls).map (·.key)).eraseDups.map
          (fun key => (index key, argumentsOf (frames.flatMap PayloadFrame.calls) key)) := by
  have hcalls : (frames.flatMap PayloadFrame.additions).filterMap Addition.call? = frames.flatMap PayloadFrame.calls := by
    simp only [List.filterMap_flatMap, call?_additions]
  have hadditions : ∀ x ∈ frames.flatMap PayloadFrame.additions, x.Typed := by
    intro x hx
    cases x with
    | call c =>
      exact typed_calls h c (hcalls ▸ List.mem_filterMap.mpr ⟨.call c, hx, rfl⟩)
    | _ => trivial
  have hread := wire.read_done h (t := {})
  obtain ⟨hfollowed, hcalled⟩ : Followed wire ((frames.flatMap PayloadFrame.additions).foldl wire.add {}) ∧ Called _ _ :=
    followed_foldl hadditions
  rw [hcalls] at hcalled
  generalize (frames.flatMap PayloadFrame.additions).foldl wire.add {} = t at hread hfollowed hcalled
  have htranslate : wire.translate (payloads ++ [done]) = ((wire.close t).yielded, .ok ()) := by
    unfold translate
    rw [hread]
  -- before the block ends no frame hands a block back, nor after them
  have hbefore : t.yielded.map StreamChunk.withoutValue = t.yielded := by
    conv_rhs => rw [← List.map_id t.yielded]
    refine List.map_congr_left (fun chunk hchunk => ?_)
    simp [StreamChunk.withoutValue, hfollowed.plain.chunks chunk hchunk]
  have hends : ∀ {α : Type} (f : StreamChunk → Option α), (∀ chunk : StreamChunk, chunk.block = none → f chunk = none) →
      (t.yielded ++ t.order.map (wire.blockEnd t) ++ tail t).filterMap f = t.order.filterMap (fun e => f (wire.blockEnd t e)) := by
    intro α f hf
    have hnone : t.yielded.filterMap f = [] :=
      List.filterMap_eq_nil_iff.mpr (fun chunk hchunk => hf chunk (hfollowed.plain.chunks chunk hchunk))
    have htail : (tail t).filterMap f = [] := by
      refine List.filterMap_eq_nil_iff.mpr (fun chunk hchunk => hf chunk ?_)
      unfold tail at hchunk
      rcases List.mem_append.mp hchunk with hchunk | hchunk
      · obtain ⟨usage, -, rfl⟩ := List.mem_map.mp hchunk
        rfl
      · rw [List.mem_singleton.mp hchunk]
    rw [List.filterMap_append, List.filterMap_append, hnone, htail, List.filterMap_map, List.nil_append, List.append_nil]
    rfl
  rw [htranslate, yielded_close]
  refine ⟨rfl, ?_, ?_, ?_⟩
  · rw [List.map_append, List.map_append, List.foldl_append, List.foldl_append, map_withoutValue_tail, hbefore,
      hends _ (fun chunk hchunk => hchunk)]
    have hfollows : t.yielded.foldl BlockAssembler.push {} = wire.closing t t.order [] :=
      hfollowed.mirrors.trans (mirror_eq_closing hfollowed.indexed)
    rw [hfollows, foldl_push_closing hfollowed (fun e he => he) hfollowed.indexed.nodup_order, BlockAssembler.blocks,
      closed_push_tail, List.nil_append, (pairwise_order hfollowed.indexed _).insertionSort_eq, List.map_map]
    simp only [block_blockEnd, List.filterMap_eq_map']
    rfl
  · rw [hends endIndex? (fun chunk hchunk => by simp [endIndex?, hchunk])]
    have hindex : ∀ e : BlockKind × Nat, endIndex? (wire.blockEnd t e) = some (e.2 : Int) := by
      rintro ⟨kind, i⟩
      cases kind <;> rfl
    have hnodup := hfollowed.indexed.nodup_order.map (f := fun i : Nat => (i : Int)) (fun i k hik => Int.ofNat.inj hik)
    simpa only [hindex, List.filterMap_eq_map', List.map_map, Function.comp_def] using hnodup
  · refine ⟨fun key => ((t.indexOf? key).getD 0 : Nat), ?_⟩
    rw [hends callEnd? (fun chunk hchunk => by cases hindex : chunk.index <;> simp [callEnd?, hchunk, hindex])]
    have hend : ∀ e : BlockKind × Nat, callEnd? (wire.blockEnd t e) =
        if e.1 == .tool then some ((e.2 : Int), (t.tool e.2).arguments) else none := by
      rintro ⟨kind, i⟩
      cases kind <;> rfl
    have hkeys : ∀ entry ∈ t.wireToIndex, t.indexOf? entry.1 = some entry.2 := by
      intro entry hentry
      have hnodup : (t.wireToIndex.map (·.1)).Nodup := hcalled.keys ▸ Arrivals.nodup_eraseDups _
      unfold Translation.indexOf?
      rw [Table.find?_of_nodup hnodup hentry]
      rfl
    calc t.order.filterMap (fun e => callEnd? (wire.blockEnd t e))
        = ((t.order.filter (fun e => e.1 == .tool)).map (·.2)).map (fun i : Nat => ((i : Int), (t.tool i).arguments)) := by
          rw [List.map_map, ← List.filterMap_eq_map, List.filterMap_filter]
          simp only [hend]
          rfl
      _ = (t.tools.map (fun entry => (entry.1, entry.2.arguments))).map (fun entry => ((entry.1 : Int), entry.2)) := by
          rw [hfollowed.indexed.tools, List.map_map, List.map_map]
          refine List.map_congr_left (fun entry hentry => ?_)
          simp [hfollowed.indexed.tool_eq hentry]
      _ = (t.wireToIndex.map (·.1)).map
            (fun key => ((((t.indexOf? key).getD 0 : Nat) : Int), argumentsOf (frames.flatMap PayloadFrame.calls) key)) := by
          rw [hcalled.fragments, List.map_map, List.map_map]
          refine List.map_congr_left (fun entry hentry => ?_)
          simp [hkeys entry hentry]
      _ = _ := by rw [hcalled.keys]

/-- A payload with a text and the first fragment of a call. -/
def textAndCall : PyValue :=
  .record [("choices", .list [.record [("delta", .record [("content", .str "hi"), ("tool_calls", .list [.record [
    ("index", .int 0), ("id", .str "c1"), ("function", .record [("name", .str "read"), ("arguments", .str "1")])]])])]])]

/-- What is read off it. -/
def textAndCallFrame : PayloadFrame :=
  { choices := [
      { reasoning := .none
        content := .str "hi"
        calls := [{ key := .number 0, id := .str "c1", name := .str "read", fragment := "1" }]
        finishReason := .none }]
    usage := none }

/-- A parser that knows this payload. -/
def callWire : Wire :=
  { listWire with loads := fun payload => if payload = "p" then .ok textAndCall else .error .decode }

/-- A stream with a text and a call is assembled as it is translated. -/
theorem assembles_call : (((callWire.translate ["p", done]).1.map StreamChunk.withoutValue).foldl BlockAssembler.push {}).blocks =
    (callWire.translate ["p", done]).1.filterMap (·.block) := by
  have hsends : callWire.Sends "p" textAndCallFrame := by
    refine ⟨by decide, ⟨textAndCall, rfl, rfl⟩, ?_⟩
    intro c hc
    obtain rfl : c = ⟨.number 0, .str "c1", .str "read", "1"⟩ := by simpa [PayloadFrame.calls, textAndCallFrame] using hc
    exact ⟨.inr ⟨_, rfl⟩, .inr ⟨_, rfl⟩⟩
  exact (assembles_as_translated callWire (.cons hsends .nil)).2.1

end Wire

end Pydsh
