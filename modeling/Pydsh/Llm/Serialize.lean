import Pydsh.Lib.Following
import Pydsh.Message.Blocks

/-!
# Messages on the wire

`serialize_messages` of `llm/adapters/openai_compatible.py`: each harness message becomes one wire message, but for a message with tool
results, which becomes a `tool` message for each of them and then, if it has text, a `user` message. Where the messages with the results
of some calls come right behind the assistant message that made them, the `tool` messages come right behind it on the wire
(`serialize_follows`).
-/

namespace Pydsh

open Following

/-- The text of a text block. -/
def ContentBlock.text? : ContentBlock → Option String
  | .text t => some t
  | _ => none

/-- The text of a reasoning block. -/
def ContentBlock.reasoning? : ContentBlock → Option String
  | .reasoning t => some t
  | _ => none

/-- The call id and the content of a tool result. -/
def ContentBlock.result? : ContentBlock → Option (String × List ContentBlock)
  | .toolResult toolCallId content _ => some (toolCallId, content)
  | _ => none

/-- `as_text`. -/
def asText (content : List ContentBlock) : String := String.join (content.filterMap ContentBlock.text?)

/-- `NO_OUTPUT`. -/
def noOutput : String := "(no output)"

/-- A message as the endpoint takes it. -/
inductive WireMessage where
  | system (content : String)
  | assistant (content : String) (reasoningContent : Option String) (toolCalls : List ToolCallBlock)
  | tool (toolCallId content : String)
  | user (content : String)
  deriving DecidableEq

/-- The wire messages of one message. -/
def serializeMessage (m : Message) : List WireMessage :=
  if m.role = "system" then [.system (asText m.content)]
  else if m.role = "assistant" then
    let toolCalls := m.content.filterMap ContentBlock.call?
    let reasoning := String.join (m.content.filterMap ContentBlock.reasoning?)
    [.assistant (asText m.content) (if toolCalls.isEmpty || reasoning = "" then none else some reasoning) toolCalls]
  else
    let results := m.content.filterMap ContentBlock.result?
    let text := asText m.content
    results.map (fun result => .tool result.1 (if asText result.2 = "" then noOutput else asText result.2)) ++
      (if text ≠ "" || results.isEmpty then [.user text] else [])

/-- `serialize_messages`. -/
def serializeMessages (messages : List Message) : List WireMessage := messages.flatMap serializeMessage

/-! ## What comes right behind what -/

/-- The ids of the calls that a message makes. -/
def Message.callIds (m : Message) : List String := (m.content.filterMap ContentBlock.call?).map (·.id)

/-- The ids of the calls whose results a message holds. -/
def Message.resultIds (m : Message) : List String := (m.content.filterMap ContentBlock.result?).map (·.1)

/-- What a message does to the results before it: an assistant's is one that results may follow, and a message that holds results and
nothing else to be sent leaves it so. -/
def Message.following (m : Message) : Kind :=
  if m.role = "system" then .closes
  else if m.role = "assistant" then .opens
  else if asText m.content ≠ "" || m.resultIds.isEmpty then .closes
  else .follows

/-- The calls whose results are sent for a message. -/
def Message.sentResults (m : Message) : List String := if m.role = "system" || m.role = "assistant" then [] else m.resultIds

theorem Message.sentResults_of_follows (m : Message) (h : m.following = .follows) : m.sentResults ≠ [] := by
  unfold Message.following at h
  split at h
  · cases h
  · rename_i hsystem
    split at h
    · cases h
    · rename_i hassistant
      split at h
      · cases h
      · rename_i hresults
        simp only [Bool.or_eq_true, not_or, List.isEmpty_iff] at hresults
        rw [Message.sentResults, if_neg (by simp [hsystem, hassistant])]
        exact hresults.2

/-- Messages with tool results come right behind the assistant message that made the calls. -/
def messageRule : Rule Message String where
  kind := Message.following
  offers := Message.callIds
  needs := Message.sentResults
  needs_of_follows := Message.sentResults_of_follows

/-- What a wire message does to the results before it. -/
def WireMessage.following : WireMessage → Kind
  | .assistant _ _ _ => .opens
  | .tool _ _ => .follows
  | .system _ | .user _ => .closes

/-- The ids of the calls that a wire message makes. -/
def WireMessage.callIds : WireMessage → List String
  | .assistant _ _ toolCalls => toolCalls.map (·.id)
  | _ => []

/-- The call that a `tool` message answers. -/
def WireMessage.answers : WireMessage → List String
  | .tool toolCallId _ => [toolCallId]
  | _ => []

theorem WireMessage.answers_of_follows (w : WireMessage) (h : w.following = .follows) : w.answers ≠ [] := by
  cases w with
  | tool toolCallId content => exact List.cons_ne_nil _ _
  | _ => cases h

/-- `tool` messages come right behind the assistant message that made the calls. -/
def wireRule : Rule WireMessage String where
  kind := WireMessage.following
  offers := WireMessage.callIds
  needs := WireMessage.answers
  needs_of_follows := WireMessage.answers_of_follows

/-- The `tool` messages of some results need their calls, and leave what was offered. -/
theorem walks_tools {held : List String} {results : List (String × List ContentBlock)} (f : String × List ContentBlock → String)
    (h : ∀ k ∈ results.map (·.1), k ∈ held) : wireRule.Walks held (results.map (fun result => .tool result.1 (f result))) := by
  induction results with
  | nil => trivial
  | cons result results ih =>
    refine ⟨?_, ih (fun k hk => h k (List.mem_cons_of_mem _ hk))⟩
    intro k hk
    rw [List.mem_singleton.mp hk]
    exact h _ List.mem_cons_self

theorem opened_tools (held : List String) (results : List (String × List ContentBlock))
    (f : String × List ContentBlock → String) :
    wireRule.opened held (results.map (fun result => .tool result.1 (f result))) = held := by
  induction results with
  | nil => rfl
  | cons result results ih => exact ih

/-- The wire messages of a message do to the results before them what it does. -/
theorem serializeMessage_refines : messageRule.Refines wireRule serializeMessage where
  walks held m h := by
    have hneeds : ∀ k ∈ m.sentResults, k ∈ held := h
    unfold serializeMessage
    split
    · exact ⟨fun k hk => absurd hk List.not_mem_nil, trivial⟩
    · rename_i hsystem
      split
      · exact ⟨fun k hk => absurd hk List.not_mem_nil, trivial⟩
      · rename_i hassistant
        rw [Message.sentResults, if_neg (by simp [hsystem, hassistant])] at hneeds
        refine Rule.walks_append.mpr ⟨walks_tools _ hneeds, ?_⟩
        split
        · exact ⟨fun k hk => absurd hk List.not_mem_nil, trivial⟩
        · trivial
  opened held m := by
    unfold serializeMessage
    split
    · rename_i hsystem
      exact (Rule.next_closes (if_pos hsystem)).symm
    · rename_i hsystem
      split
      · rename_i hassistant
        have hopens : messageRule.kind m = .opens := (if_neg hsystem).trans (if_pos hassistant)
        exact (Rule.next_opens hopens).symm
      · rename_i hassistant
        have hempty : (m.content.filterMap ContentBlock.result?).isEmpty = m.resultIds.isEmpty := by simp [Message.resultIds]
        have hkind : messageRule.kind m = if asText m.content ≠ "" || m.resultIds.isEmpty then .closes else .follows :=
          (if_neg hsystem).trans (if_neg hassistant)
        rw [Rule.opened_append, opened_tools, hempty]
        by_cases htext : (asText m.content ≠ "" || m.resultIds.isEmpty) = true
        · rw [if_pos htext] at hkind ⊢
          exact (Rule.next_closes hkind).symm
        · rw [if_neg htext] at hkind ⊢
          exact (Rule.next_follows hkind).symm

/-- Where the messages with the results of some calls come right behind the assistant message that made them, the `tool` messages do so
on the wire. -/
theorem serialize_follows {messages : List Message} (h : messageRule.Walks [] messages) :
    wireRule.Walks [] (serializeMessages messages) := h.flatMap serializeMessage_refines

end Pydsh
