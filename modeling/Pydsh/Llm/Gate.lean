import Mathlib.Data.List.Flatten
import Mathlib.Data.List.Perm.Subperm
import Pydsh.Llm.Serialize

/-!
# The gate in front of the serializer

`unserializable_blocks` of `llm/adapters/pi_ai.py` names the blocks of a request that the wire cannot carry, and a request with such
blocks is refused; `serialize_messages` passes over what it does not know. So what the gate lets through is to be carried. It is exactly
if the calls stand in messages of the assistant and the results in messages of neither the assistant nor the system, with nothing but
text and reasoning inside (`Request.carried_iff`): the gate looks at the kind of a block at the top of a message, and the serializer at
where it stands too.

A request may hold messages of the vocabulary or dicts, and blocks of types that the vocabulary does not know.
-/

namespace Pydsh

namespace Request

/-! ## Requests -/

/-- A block of a request: one of the vocabulary, or an object of another type. -/
inductive Block where
  | text (text : String)
  | reasoning (text : String)
  | toolCall (call : ToolCallBlock)
  | toolResult (toolCallId : String) (content : List Block) (isError : Bool)
  | other (typeName : String)

/-- The content of a message: a string, or blocks; `None` is no blocks. -/
inductive Content where
  | str (text : String)
  | blocks (blocks : List Block)

/-- A message of a request: a `Message`, or a dict that may leave out its fields. -/
inductive Message where
  | message (role : String) (content : Content)
  | dict (role : Option String) (content : Option Content)

/-- What the serializer and the gate read of a message. -/
def Message.content : Message → Content
  | .message _ content => content
  | .dict _ content => content.getD (.blocks [])

/-- `_role_of` -/
def Message.role : Message → String
  | .message role _ => role
  | .dict role _ => role.getD "user"

/-- `_blocks_of` -/
def Message.blocks (m : Message) : List Block :=
  match m.content with
  | .str text => [.text text]
  | .blocks blocks => blocks

def Block.text? : Block → Option String
  | .text t => some t
  | _ => none

def Block.reasoning? : Block → Option String
  | .reasoning t => some t
  | _ => none

def Block.call? : Block → Option ToolCallBlock
  | .toolCall call => some call
  | _ => none

def Block.result? : Block → Option (String × List Block)
  | .toolResult toolCallId content _ => some (toolCallId, content)
  | _ => none

def Block.other? : Block → Option String
  | .other typeName => some typeName
  | _ => none

/-! ## The gate -/

/-- A name is listed once. -/
def listName (unknown : List String) (b : Block) : List String :=
  match b.other? with
  | some name => if name ∈ unknown then unknown else unknown ++ [name]
  | none => unknown

/-- `unserializable_blocks` -/
def unserializableBlocks (messages : List Message) : List String :=
  messages.foldl (fun unknown m =>
    match m.content with
    | .str _ => unknown
    | .blocks blocks => blocks.foldl listName unknown) []

/-! ## The serializer -/

/-- `as_text` -/
def asText (content : List Block) : String := String.join (content.filterMap Block.text?)

/-- The wire message of a tool result. -/
def wireResult (result : String × List Block) : WireMessage :=
  .tool result.1 (if asText result.2 = "" then noOutput else asText result.2)

/-- The wire messages of one message. -/
def serializeMessage (m : Message) : List WireMessage :=
  if m.role = "system" then [.system (asText m.blocks)]
  else if m.role = "assistant" then
    let toolCalls := m.blocks.filterMap Block.call?
    let reasoning := String.join (m.blocks.filterMap Block.reasoning?)
    [.assistant (asText m.blocks) (if toolCalls.isEmpty || reasoning = "" then none else some reasoning) toolCalls]
  else
    let results := m.blocks.filterMap Block.result?
    let text := asText m.blocks
    results.map wireResult ++ (if text ≠ "" || results.isEmpty then [.user text] else [])

/-- `serialize_messages` -/
def serializeMessages (messages : List Message) : List WireMessage := messages.flatMap serializeMessage

/-! ### Requests of the vocabulary alone -/

mutual

/-- A block of the vocabulary. -/
def Block.of : ContentBlock → Block
  | .text t => .text t
  | .reasoning t => .reasoning t
  | .toolCall call => .toolCall call
  | .toolResult toolCallId content isError => .toolResult toolCallId (Block.ofList content) isError

def Block.ofList : List ContentBlock → List Block
  | [] => []
  | b :: bs => Block.of b :: Block.ofList bs

end

/-- A message of the vocabulary. -/
def Message.of (m : Pydsh.Message) : Message := .message m.role (.blocks (Block.ofList m.content))

/-- A reading of blocks that agrees on each block agrees on a list. -/
theorem filterMap_ofList {α β : Type} {f : ContentBlock → Option α} {g : Block → Option β} {e : α → β}
    (h : ∀ b, g (.of b) = (f b).map e) (bs : List ContentBlock) :
    (Block.ofList bs).filterMap g = (bs.filterMap f).map e := by
  induction bs with
  | nil => rfl
  | cons b bs ih =>
    rw [Block.ofList, List.filterMap_cons, List.filterMap_cons, h, ih]
    cases f b <;> rfl

theorem text?_of (b : ContentBlock) : (Block.of b).text? = b.text?.map id := by cases b <;> rfl

theorem reasoning?_of (b : ContentBlock) : (Block.of b).reasoning? = b.reasoning?.map id := by cases b <;> rfl

theorem call?_of (b : ContentBlock) : (Block.of b).call? = b.call?.map id := by cases b <;> rfl

theorem result?_of (b : ContentBlock) :
    (Block.of b).result? = b.result?.map (fun result => (result.1, Block.ofList result.2)) := by
  cases b <;> rfl

theorem asText_ofList (bs : List ContentBlock) : asText (Block.ofList bs) = Pydsh.asText bs := by
  rw [asText, filterMap_ofList text?_of, List.map_id, Pydsh.asText]

/-- On messages of the vocabulary this is the serializer of `Pydsh.Llm.Serialize`. -/
theorem serializeMessages_of (messages : List Pydsh.Message) :
    serializeMessages (messages.map .of) = Pydsh.serializeMessages messages := by
  rw [serializeMessages, Pydsh.serializeMessages, List.flatMap_map]
  refine List.flatMap_congr fun m _ => ?_
  have hblocks : (Message.of m).blocks = Block.ofList m.content := rfl
  have hrole : (Message.of m).role = m.role := rfl
  have hresult : wireResult ∘ (fun result : String × List ContentBlock => (result.1, Block.ofList result.2)) =
      fun result => .tool result.1 (if Pydsh.asText result.2 = "" then noOutput else Pydsh.asText result.2) := by
    funext result
    simp only [Function.comp_apply, wireResult, asText_ofList]
  unfold serializeMessage Pydsh.serializeMessage
  rw [hblocks, hrole, asText_ofList, filterMap_ofList call?_of, filterMap_ofList reasoning?_of, filterMap_ofList result?_of]
  simp only [List.map_id, List.map_map, List.isEmpty_map, hresult]

/-! ## What is to be carried -/

mutual

/-- A block, and all that is inside it. -/
def Block.within : Block → List Block
  | .toolResult toolCallId content isError => .toolResult toolCallId content isError :: withinAll content
  | b => [b]

/-- The blocks of a list, and all that is inside them. -/
def withinAll : List Block → List Block
  | [] => []
  | b :: bs => b.within ++ withinAll bs

end

/-- All blocks of some messages, at any depth. -/
def everything (messages : List Message) : List Block := messages.flatMap (fun m => withinAll m.blocks)

/-- The content of a wire message. -/
def wireContent : WireMessage → String
  | .system content | .assistant content _ _ | .tool _ content | .user content => content

/-- The calls of a wire message. -/
def wireCalls : WireMessage → List ToolCallBlock
  | .assistant _ _ toolCalls => toolCalls
  | _ => []

/-- Whether a wire message is a tool result. -/
def isWireResult : WireMessage → Bool
  | .tool _ _ => true
  | _ => false

/-- The wire messages hold all that the messages do, reasoning aside: each text is in the content of one, the calls and the results are
there as often, and there is nothing of another type. -/
structure Carried (messages : List Message) (wire : List WireMessage) : Prop where
  texts : ∀ t, .text t ∈ everything messages → ∃ w ∈ wire, t.toList <:+: (wireContent w).toList
  calls : ((everything messages).filterMap Block.call?).Subperm (wire.flatMap wireCalls)
  results : (((everything messages).filterMap Block.result?).map wireResult).Subperm wire
  others : ∀ name, .other name ∉ everything messages

/-- Text or reasoning. -/
def Block.Plain : Block → Prop
  | .text _ | .reasoning _ => True
  | _ => False

/-- Whether a block at the top of a message stands where the serializer looks for it; one of another type is for the gate. -/
def Block.PlacedIn (role : String) : Block → Prop
  | .text _ | .reasoning _ | .other _ => True
  | .toolCall _ => role = "assistant"
  | .toolResult _ content _ => role ≠ "system" ∧ role ≠ "assistant" ∧ ∀ b ∈ content, b.Plain

/-- Every block of every message stands where the serializer looks for it. -/
def Placed (messages : List Message) : Prop := ∀ m ∈ messages, ∀ b ∈ m.blocks, b.PlacedIn m.role

/-! ### Blocks inside blocks -/

theorem Block.within_eq (b : Block) : ∃ inner, b.within = b :: inner := by
  cases b with
  | toolResult toolCallId content isError => exact ⟨withinAll content, by rw [Block.within]⟩
  | _ => exact ⟨[], by rw [Block.within]; simp⟩

theorem sublist_withinAll (bs : List Block) : bs.Sublist (withinAll bs) := by
  induction bs with
  | nil => exact List.Sublist.slnil
  | cons b bs ih =>
    obtain ⟨inner, hinner⟩ := b.within_eq
    rw [withinAll, hinner, List.cons_append]
    exact (ih.trans (List.sublist_append_right _ _)).cons_cons _

theorem mem_withinAll {b : Block} {bs : List Block} (hb : b ∈ bs) {inner : Block} (h : inner ∈ b.within) :
    inner ∈ withinAll bs := by
  induction bs with
  | nil => exact absurd hb List.not_mem_nil
  | cons a bs ih =>
    rw [withinAll, List.mem_append]
    obtain rfl | hb := List.mem_cons.mp hb
    · exact .inl h
    · exact .inr (ih hb)

theorem mem_withinAll_content {toolCallId : String} {content : List Block} {isError : Bool} {bs : List Block}
    (hb : .toolResult toolCallId content isError ∈ bs) {c : Block} (hc : c ∈ content) : c ∈ withinAll bs := by
  refine mem_withinAll hb ?_
  rw [Block.within]
  exact List.mem_cons_of_mem _ ((sublist_withinAll content).subset hc)

/-- A result inside another is one more than those at the top. -/
theorem length_results_lt {toolCallId : String} {content : List Block} {isError : Bool} {bs : List Block}
    (hb : .toolResult toolCallId content isError ∈ bs) {c : Block} (hc : c ∈ content) (hresult : c.result?.isSome) :
    (bs.filterMap Block.result?).length < ((withinAll bs).filterMap Block.result?).length := by
  induction bs with
  | nil => exact absurd hb List.not_mem_nil
  | cons a bs ih =>
    rw [withinAll, List.filterMap_append, List.length_append, ← List.singleton_append, List.filterMap_append, List.length_append]
    obtain rfl | hb := List.mem_cons.mp hb
    · have hrest := ((sublist_withinAll bs).filterMap Block.result?).length_le
      obtain ⟨result, hresult⟩ := Option.isSome_iff_exists.mp hresult
      have hmem : result ∈ (withinAll content).filterMap Block.result? :=
        List.mem_filterMap.mpr ⟨c, (sublist_withinAll content).subset hc, hresult⟩
      have hpos := List.length_pos_of_mem hmem
      rw [Block.within, List.filterMap_cons]
      simp only [Block.result?, List.length_cons, List.filterMap_cons, List.filterMap_nil, List.length_nil]
      omega
    · have hrest := ih hb
      have hfirst : ([a].filterMap Block.result?).length ≤ (a.within.filterMap Block.result?).length := by
        obtain ⟨inner, hinner⟩ := a.within_eq
        rw [hinner]
        exact (((List.nil_sublist inner).cons_cons a).filterMap _).length_le
      omega

theorem Block.Plain.within {b : Block} (h : b.Plain) : b.within = [b] := by
  cases b with
  | text t => rw [Block.within]; simp
  | reasoning t => rw [Block.within]; simp
  | _ => exact h.elim

theorem withinAll_plain {bs : List Block} (h : ∀ b ∈ bs, b.Plain) : withinAll bs = bs := by
  induction bs with
  | nil => rw [withinAll]
  | cons b bs ih =>
    rw [withinAll, (h b List.mem_cons_self).within, ih (fun c hc => h c (List.mem_cons_of_mem _ hc)), List.singleton_append]

/-- Of blocks that stand where they are looked for nothing more is found inside, but for text and reasoning. -/
theorem filterMap_withinAll {α : Type} {f : Block → Option α} (hf : ∀ b : Block, b.Plain → f b = none) {role : String}
    {bs : List Block} (h : ∀ b ∈ bs, b.PlacedIn role) : (withinAll bs).filterMap f = bs.filterMap f := by
  induction bs with
  | nil => rw [withinAll]
  | cons b bs ih =>
    have hrest := ih (fun c hc => h c (List.mem_cons_of_mem _ hc))
    have hb := h b List.mem_cons_self
    rw [withinAll, List.filterMap_append, hrest, ← List.singleton_append, List.filterMap_append (l := [b])]
    congr 1
    cases b with
    | toolResult toolCallId content isError =>
      have hplain : ∀ c ∈ content, c.Plain := hb.2.2
      have hnone : content.filterMap f = [] := List.filterMap_eq_nil_iff.mpr fun c hc => hf c (hplain c hc)
      rw [Block.within, withinAll_plain hplain, ← List.singleton_append, List.filterMap_append, hnone, List.append_nil]
    | _ => rw [Block.within]; simp

/-! ### What the wire messages of a message hold -/

theorem wireCalls_serializeMessage (m : Message) :
    (serializeMessage m).flatMap wireCalls = if m.role = "assistant" then m.blocks.filterMap Block.call? else [] := by
  have hresults : ∀ results : List (String × List Block), (results.map wireResult).flatMap wireCalls = [] := by
    intro results
    rw [List.flatMap_eq_nil_iff]
    intro w hw
    obtain ⟨result, -, rfl⟩ := List.mem_map.mp hw
    rfl
  unfold serializeMessage
  by_cases hsystem : m.role = "system"
  · rw [if_pos hsystem, if_neg (by rw [hsystem]; decide)]
    rfl
  · rw [if_neg hsystem]
    by_cases hassistant : m.role = "assistant"
    · rw [if_pos hassistant, if_pos hassistant]
      exact List.append_nil _
    · rw [if_neg hassistant, if_neg hassistant, List.flatMap_append, hresults]
      split <;> rfl

theorem wireResults_serializeMessage (m : Message) :
    (serializeMessage m).filter isWireResult =
      if m.role = "system" ∨ m.role = "assistant" then [] else (m.blocks.filterMap Block.result?).map wireResult := by
  unfold serializeMessage
  by_cases hsystem : m.role = "system"
  · rw [if_pos hsystem, if_pos (.inl hsystem)]
    rfl
  · rw [if_neg hsystem]
    by_cases hassistant : m.role = "assistant"
    · rw [if_pos hassistant, if_pos (.inr hassistant)]
      rfl
    · have hresults : ((m.blocks.filterMap Block.result?).map wireResult).filter isWireResult =
          (m.blocks.filterMap Block.result?).map wireResult := by
        rw [List.filter_eq_self]
        intro w hw
        obtain ⟨result, -, rfl⟩ := List.mem_map.mp hw
        rfl
      rw [if_neg hassistant, if_neg (not_or.mpr ⟨hsystem, hassistant⟩), List.filter_append, hresults]
      split
      · exact List.append_nil _
      · exact List.append_nil _

theorem serializeMessage_ne_nil (m : Message) : serializeMessage m ≠ [] := by
  unfold serializeMessage
  split
  · exact List.cons_ne_nil _ _
  · split
    · exact List.cons_ne_nil _ _
    · intro hnil
      obtain ⟨hresults, huser⟩ := List.append_eq_nil_iff.mp hnil
      rw [List.map_eq_nil_iff] at hresults
      rw [hresults] at huser
      simp at huser

/-- The text of a block at the top is in the text of the message. -/
theorem infix_asText {t : String} {bs : List Block} (h : .text t ∈ bs) : t.toList <:+: (asText bs).toList := by
  have hjoin : ∀ (ts : List String) (acc : String), (ts.foldl (· ++ ·) acc).toList = acc.toList ++ ts.flatMap String.toList := by
    intro ts
    induction ts with
    | nil => exact fun acc => (List.append_nil _).symm
    | cons s ts ih =>
      intro acc
      rw [List.foldl_cons, ih, String.toList_append, List.flatMap_cons, List.append_assoc]
  have htext : t ∈ bs.filterMap Block.text? := List.mem_filterMap.mpr ⟨_, h, rfl⟩
  obtain ⟨before, after, hsplit⟩ := List.append_of_mem htext
  rw [asText, String.join, hjoin, hsplit, List.flatMap_append, List.flatMap_cons]
  exact ⟨before.flatMap String.toList, after.flatMap String.toList, by simp⟩

/-- The text of a message is the content of one of its wire messages, if there is any. -/
theorem asText_sent (m : Message) : ∃ w ∈ serializeMessage m, asText m.blocks = "" ∨ wireContent w = asText m.blocks := by
  unfold serializeMessage
  split
  · exact ⟨_, List.mem_singleton_self _, .inr rfl⟩
  · split
    · exact ⟨_, List.mem_singleton_self _, .inr rfl⟩
    · rename_i hsystem hassistant
      by_cases htext : asText m.blocks = ""
      · obtain ⟨w, hw⟩ := List.exists_mem_of_ne_nil _ (serializeMessage_ne_nil m)
        rw [serializeMessage, if_neg hsystem, if_neg hassistant] at hw
        exact ⟨w, hw, .inl htext⟩
      · exact ⟨.user (asText m.blocks), List.mem_append_right _ (by simp [htext]), .inr rfl⟩

theorem infix_of_empty {t : String} {cs : List Char} (h : t.toList <:+: "".toList) : t.toList <:+: cs := by
  have hnil : t.toList = [] := List.infix_nil.mp h
  rw [hnil]
  exact List.nil_infix

/-- Every text of a message whose blocks stand where they are looked for is sent. -/
theorem text_sent {m : Message} (h : ∀ b ∈ m.blocks, b.PlacedIn m.role) {t : String} (ht : .text t ∈ withinAll m.blocks) :
    ∃ w ∈ serializeMessage m, t.toList <:+: (wireContent w).toList := by
  have htop : ∀ bs : List Block, .text t ∈ withinAll bs → (∀ b ∈ bs, b.PlacedIn m.role) →
      .text t ∈ bs ∨ ∃ toolCallId content isError, .toolResult toolCallId content isError ∈ bs ∧ .text t ∈ content := by
    intro bs
    induction bs with
    | nil => exact fun h _ => absurd h (by rw [withinAll]; exact List.not_mem_nil)
    | cons b bs ih =>
      intro hmem hplaced
      rw [withinAll, List.mem_append] at hmem
      obtain hmem | hmem := hmem
      · cases b with
        | toolResult toolCallId content isError =>
          have hplain : ∀ c ∈ content, c.Plain := (hplaced _ List.mem_cons_self).2.2
          rw [Block.within, withinAll_plain hplain, List.mem_cons] at hmem
          exact .inr ⟨toolCallId, content, isError, List.mem_cons_self, hmem.resolve_left (by simp)⟩
        | _ =>
          rw [Block.within, List.mem_singleton] at hmem
          · exact .inl (hmem ▸ List.mem_cons_self)
          · simp
      · obtain h | ⟨toolCallId, content, isError, hb, hc⟩ := ih hmem (fun c hc => hplaced c (List.mem_cons_of_mem _ hc))
        · exact .inl (List.mem_cons_of_mem _ h)
        · exact .inr ⟨toolCallId, content, isError, List.mem_cons_of_mem _ hb, hc⟩
  obtain hmem | ⟨toolCallId, content, isError, hb, hc⟩ := htop m.blocks ht h
  · obtain ⟨w, hw, hempty | hcontent⟩ := asText_sent m
    · exact ⟨w, hw, infix_of_empty (hempty ▸ infix_asText hmem)⟩
    · exact ⟨w, hw, by rw [hcontent]; exact infix_asText hmem⟩
  · obtain ⟨hsystem, hassistant, -⟩ : m.role ≠ "system" ∧ m.role ≠ "assistant" ∧ ∀ c ∈ content, c.Plain := h _ hb
    have hresult : (toolCallId, content) ∈ m.blocks.filterMap Block.result? := List.mem_filterMap.mpr ⟨_, hb, rfl⟩
    refine ⟨wireResult (toolCallId, content), ?_, ?_⟩
    · rw [serializeMessage, if_neg hsystem, if_neg hassistant]
      exact List.mem_append_left _ (List.mem_map.mpr ⟨_, hresult, rfl⟩)
    · by_cases hempty : asText content = ""
      · exact infix_of_empty (hempty ▸ infix_asText hc)
      · have hcontent : wireContent (wireResult (toolCallId, content)) = asText content := if_neg hempty
        rw [hcontent]
        exact infix_asText hc

/-! ### What the gate lets through -/

/-- The names are those before, and those of the blocks of other types. -/
theorem mem_listNames {unknown : List String} {bs : List Block} {name : String} (h : name ∈ unknown ∨ .other name ∈ bs) :
    name ∈ bs.foldl listName unknown := by
  induction bs generalizing unknown with
  | nil => exact h.resolve_right List.not_mem_nil
  | cons b bs ih =>
    rw [List.foldl_cons]
    refine ih ?_
    have hkeep : name ∈ unknown → name ∈ listName unknown b := by
      intro hmem
      unfold listName
      split
      · split
        · exact hmem
        · exact List.mem_append_left _ hmem
      · exact hmem
    rw [List.mem_cons] at h
    obtain hmem | rfl | hmem := h
    · exact .inl (hkeep hmem)
    · left
      simp only [listName, Block.other?]
      split
      · assumption
      · exact List.mem_append_right _ (List.mem_singleton_self _)
    · exact .inr hmem

/-- What the gate lets through has no block of another type at the top of a message. -/
theorem other_refused {messages : List Message} (hgate : unserializableBlocks messages = []) {m : Message} (hm : m ∈ messages)
    (name : String) : .other name ∉ m.blocks := by
  intro hother
  have hlisted : ∀ (ms : List Message) (unknown : List String), name ∈ unknown ∨ m ∈ ms →
      name ∈ ms.foldl (fun unknown m =>
        match m.content with
        | .str _ => unknown
        | .blocks blocks => blocks.foldl listName unknown) unknown := by
    intro ms
    induction ms with
    | nil => exact fun unknown h => h.resolve_right List.not_mem_nil
    | cons a ms ih =>
      intro unknown h
      rw [List.foldl_cons]
      refine ih _ ?_
      rw [List.mem_cons] at h
      obtain hmem | rfl | hmem := h
      · left
        split
        · exact hmem
        · exact mem_listNames (.inl hmem)
      · left
        cases hcontent : m.content with
        | str text => simp [Message.blocks, hcontent] at hother
        | blocks blocks =>
          rw [Message.blocks, hcontent] at hother
          exact mem_listNames (.inr hother)
      · exact .inr hmem
  have := hlisted messages [] (.inr hm)
  rw [unserializableBlocks] at hgate
  rw [hgate] at this
  exact absurd this List.not_mem_nil

theorem length_flatMap_le {α β γ : Type} {f : α → List β} {g : α → List γ} (hle : ∀ a, (g a).length ≤ (f a).length) (l : List α) :
    (l.flatMap g).length ≤ (l.flatMap f).length := by
  induction l with
  | nil => exact Nat.le_refl _
  | cons a l ih =>
    rw [List.flatMap_cons, List.flatMap_cons, List.length_append, List.length_append]
    exact Nat.add_le_add (hle a) ih

/-- Where none of the parts is longer than another and all are no shorter, each is as long. -/
theorem length_eq_of_flatMap {α β γ : Type} {f : α → List β} {g : α → List γ} (hle : ∀ a, (g a).length ≤ (f a).length)
    {l : List α} (h : (l.flatMap f).length ≤ (l.flatMap g).length) : ∀ a ∈ l, (f a).length = (g a).length := by
  induction l with
  | nil => exact fun a ha => absurd ha List.not_mem_nil
  | cons b l ih =>
    rw [List.flatMap_cons, List.flatMap_cons, List.length_append, List.length_append] at h
    have hrest := length_flatMap_le hle l
    have hb := hle b
    intro a ha
    obtain rfl | ha := List.mem_cons.mp ha
    · omega
    · exact ih (by omega) a ha

/-- If the calls are all sent, they stand in messages of the assistant. -/
theorem calls_of_carried {messages : List Message} (h : Carried messages (serializeMessages messages)) {m : Message}
    (hm : m ∈ messages) (hrole : m.role ≠ "assistant") : (withinAll m.blocks).filterMap Block.call? = [] := by
  have hcalls := h.calls.length_le
  rw [everything, List.filterMap_flatMap, serializeMessages, List.flatMap_assoc] at hcalls
  have heq := length_eq_of_flatMap (fun m => ?_) hcalls m hm
  · rw [wireCalls_serializeMessage, if_neg hrole] at heq
    exact List.length_eq_zero_iff.mp heq
  · rw [wireCalls_serializeMessage]
    split
    · exact ((sublist_withinAll m.blocks).filterMap _).length_le
    · exact Nat.zero_le _

/-- If the results are all sent, they are those at the top of messages of neither the system nor the assistant. -/
theorem results_of_carried {messages : List Message} (h : Carried messages (serializeMessages messages)) {m : Message}
    (hm : m ∈ messages) :
    ((withinAll m.blocks).filterMap Block.result?).length =
      if m.role = "system" ∨ m.role = "assistant" then 0 else (m.blocks.filterMap Block.result?).length := by
  have hfilter := h.results.filter isWireResult
  have hself : (((everything messages).filterMap Block.result?).map wireResult).filter isWireResult =
      ((everything messages).filterMap Block.result?).map wireResult := by
    rw [List.filter_eq_self]
    intro w hw
    obtain ⟨result, -, rfl⟩ := List.mem_map.mp hw
    rfl
  have hresults := hfilter.length_le
  rw [hself, everything, List.filterMap_flatMap, List.map_flatMap, serializeMessages, List.filter_flatMap] at hresults
  have heq := length_eq_of_flatMap (fun m => ?_) hresults m hm
  · rw [wireResults_serializeMessage, List.length_map] at heq
    rw [heq]
    split
    · rfl
    · exact List.length_map _
  · rw [wireResults_serializeMessage, List.length_map]
    split
    · exact Nat.zero_le _
    · rw [List.length_map]
      exact ((sublist_withinAll m.blocks).filterMap _).length_le

/-- If all is carried, every block stands where it is looked for. -/
theorem placed_of_carried {messages : List Message} (h : Carried messages (serializeMessages messages)) : Placed messages := by
  intro m hm b hb
  have hcalls := calls_of_carried h hm
  have hresults := results_of_carried h hm
  have hnocall : ∀ call, m.role ≠ "assistant" → .toolCall call ∉ withinAll m.blocks := by
    intro call hrole hmem
    have : call ∈ (withinAll m.blocks).filterMap Block.call? := List.mem_filterMap.mpr ⟨_, hmem, rfl⟩
    rw [hcalls hrole] at this
    exact absurd this List.not_mem_nil
  cases b with
  | text t => trivial
  | reasoning t => trivial
  | other name => trivial
  | toolCall call => exact by_contra fun hrole => hnocall call hrole ((sublist_withinAll m.blocks).subset hb)
  | toolResult toolCallId content isError =>
    have hmem : (toolCallId, content) ∈ (withinAll m.blocks).filterMap Block.result? :=
      List.mem_filterMap.mpr ⟨_, (sublist_withinAll m.blocks).subset hb, rfl⟩
    have hrole : ¬(m.role = "system" ∨ m.role = "assistant") := by
      intro hrole
      rw [if_pos hrole] at hresults
      exact absurd hmem (by rw [List.length_eq_zero_iff.mp hresults]; exact List.not_mem_nil)
    rw [if_neg hrole] at hresults
    obtain ⟨hsystem, hassistant⟩ := not_or.mp hrole
    refine ⟨hsystem, hassistant, ?_⟩
    intro c hc
    have hinside := mem_withinAll_content hb hc
    cases c with
    | text t => trivial
    | reasoning t => trivial
    | toolCall call => exact absurd hinside (hnocall call hassistant)
    | toolResult id inner err => exact absurd hresults (Nat.ne_of_gt (length_results_lt hb hc rfl))
    | other name => exact absurd (List.mem_flatMap.mpr ⟨m, hm, hinside⟩) (h.others name)

theorem calls_sent {m : Message} (h : ∀ b ∈ m.blocks, b.PlacedIn m.role) :
    (withinAll m.blocks).filterMap Block.call? = (serializeMessage m).flatMap wireCalls := by
  have hplain : ∀ b : Block, b.Plain → b.call? = none := fun b hb => by
    cases b with
    | text t => rfl
    | reasoning t => rfl
    | _ => exact hb.elim
  rw [filterMap_withinAll hplain h, wireCalls_serializeMessage]
  split
  · rfl
  · rename_i hrole
    rw [List.filterMap_eq_nil_iff]
    intro b hb
    cases b with
    | toolCall call => exact absurd (h _ hb) hrole
    | _ => rfl

/-- Results that stand where they are looked for are all sent. -/
theorem results_sent {m : Message} (h : ∀ b ∈ m.blocks, b.PlacedIn m.role) :
    ((withinAll m.blocks).filterMap Block.result?).map wireResult = (serializeMessage m).filter isWireResult := by
  have hplain : ∀ b : Block, b.Plain → b.result? = none := fun b hb => by
    cases b with
    | text t => rfl
    | reasoning t => rfl
    | _ => exact hb.elim
  rw [filterMap_withinAll hplain h, wireResults_serializeMessage]
  split
  · rename_i hrole
    rw [List.map_eq_nil_iff, List.filterMap_eq_nil_iff]
    intro b hb
    cases b with
    | toolResult toolCallId content isError =>
      have hplaced : m.role ≠ "system" ∧ m.role ≠ "assistant" ∧ _ := h _ hb
      exact absurd hrole (not_or.mpr ⟨hplaced.1, hplaced.2.1⟩)
    | _ => rfl
  · rfl

/-- If every block stands where it is looked for, what the gate lets through is carried. -/
theorem carried_of_placed {messages : List Message} (hgate : unserializableBlocks messages = []) (h : Placed messages) :
    Carried messages (serializeMessages messages) where
  texts t ht := by
    obtain ⟨m, hm, ht⟩ := List.mem_flatMap.mp ht
    obtain ⟨w, hw, hinfix⟩ := text_sent (h m hm) ht
    exact ⟨w, List.mem_flatMap.mpr ⟨m, hm, hw⟩, hinfix⟩
  calls := by
    rw [everything, List.filterMap_flatMap, serializeMessages, List.flatMap_assoc,
      List.flatMap_congr (fun m hm => calls_sent (h m hm))]
  results := by
    rw [everything, List.filterMap_flatMap, List.map_flatMap, List.flatMap_congr (fun m hm => results_sent (h m hm)),
      ← List.filter_flatMap]
    exact List.filter_sublist.subperm
  others name hother := by
    obtain ⟨m, hm, hother⟩ := List.mem_flatMap.mp hother
    have hplain : ∀ b : Block, b.Plain → b.other? = none := fun b hb => by
      cases b with
      | text t => rfl
      | reasoning t => rfl
      | _ => exact hb.elim
    have hname : name ∈ (withinAll m.blocks).filterMap Block.other? := List.mem_filterMap.mpr ⟨_, hother, rfl⟩
    rw [filterMap_withinAll hplain (h m hm)] at hname
    obtain ⟨b, hb, hbname⟩ := List.mem_filterMap.mp hname
    cases b with
    | other typeName =>
      cases hbname
      exact other_refused hgate hm name hb
    | _ => cases hbname

/-- What the gate lets through is carried exactly if every block stands where the serializer looks for it: the calls in messages of the
assistant, the results in messages of neither the assistant nor the system, with only text and reasoning inside. -/
theorem carried_iff {messages : List Message} (hgate : unserializableBlocks messages = []) :
    Carried messages (serializeMessages messages) ↔ Placed messages :=
  ⟨placed_of_carried, carried_of_placed hgate⟩

/-- A call and its result, each where it is looked for. -/
theorem carried_call_and_result :
    let messages : List Message := [.message "assistant" (.blocks [.text "I look.", .toolCall ⟨"c1", "read", "\x7b\x7d"⟩]),
      .message "user" (.blocks [.toolResult "c1" [.text "found"] false])]
    Carried messages (serializeMessages messages) := by
  intro messages
  refine (@carried_iff messages (by decide)).mpr ?_
  simp [messages, Placed, Message.blocks, Message.content, Message.role, Block.PlacedIn, Block.Plain]

/-- The gate has nothing to say of a call in a message of the user, and the call is not sent. -/
theorem call_not_carried : ¬∀ messages : List Message, unserializableBlocks messages = [] →
    Carried messages (serializeMessages messages) := by
  intro h
  have hcalls := (h [.message "user" (.blocks [.text "go", .toolCall ⟨"c1", "read", "\x7b\x7d"⟩])] (by decide)).calls.length_le
  exact absurd hcalls (by decide)

end Request

end Pydsh
