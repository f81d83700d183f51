import Pydsh.Lib.Exchange
import Pydsh.Lib.Result
import Pydsh.Message.Texts
import Pydsh.Session.Log

/-!
# What memory takes for an exchange

`LongTermMemory._exchanges` of `sidecar/memory.py` goes through a session's log and pairs a human prompt with the first reply behind
it. An exchange of a turn is its prompt and its last reply; the pairs are such exchanges exactly where each prompt's first reply is in
its turn, has text, calls no tool and is the turn's last (`captures_whole_iff`).
-/

namespace Pydsh

/-- `_user_text_of`: a prompt's text where a human said it. -/
def userTextOf (data : Json) : Except String String :=
  let message := decoded data
  match message.sourceKind with
  | .str "user" => joinTexts message.contentAttr
  | _ => .ok ""

/-- `_assistant_text_of`. -/
def assistantTextOf (data : Json) : Except String String := joinTexts (replyContent data)

/-- A pair of `_exchanges`, with the places of its events. -/
structure Captured where
  prompt : Nat
  reply : Nat
  userText : String
  assistantText : String

/-- Where the loop of `_exchanges` is: the place of its event, the prompt that waits with its place, and the pairs. -/
structure Capturing where
  place : Nat := 0
  pending : Option (Nat × String) := none
  pairs : List Captured := []

/-- One event. -/
def Capturing.next (st : Capturing) (event : SessionEvent) : Except String Capturing :=
  let st' := { st with place := st.place + 1 }
  match event.type with
  | .userMessage => do
    let text ← userTextOf event.data
    return if text ≠ "" then { st' with pending := some (st.place, text) } else st'
  | .assistantMessage =>
    match st.pending with
    | some (prompt, userText) => do
      let assistantText ← assistantTextOf event.data
      return { st' with
        pending := none
        pairs := st.pairs ++ [{ prompt, reply := st.place, userText, assistantText }] }
    | none => return st'
  | _ => return st'

/-- The loop over some events. -/
def capturing (events : List SessionEvent) : Except String Capturing := events.foldlM Capturing.next {}

/-- `_exchanges`. -/
def exchanges (events : List SessionEvent) : Except String (List Captured) := (capturing events).map Capturing.pairs

/-! ## Turns -/

/-- The place of the start of the turn that is open behind some events. -/
def openTurn (events : List SessionEvent) : Option Nat :=
  events.zipIdx.foldl (fun current entry =>
    match entry.1.type with
    | .turnStart => some entry.2
    | .turnEnd => none
    | _ => current) none

/-- The turn that an event stands in. -/
def turnAt (events : List SessionEvent) (i : Nat) : Option Nat := openTurn (events.take i)

/-- A human prompt with text. -/
def isPrompt (event : SessionEvent) : Bool :=
  decide (event.type = .userMessage) &&
    match userTextOf event.data with
    | .ok text => text != ""
    | .error _ => false

/-- A reply of the assistant. -/
def isReply (event : SessionEvent) : Bool := decide (event.type = .assistantMessage)

/-- A reply that asks for a tool. -/
def callsTool (event : SessionEvent) : Bool :=
  (replyContent event.data).any (fun block =>
    match block with
    | .toolCallBlock .. => true
    | _ => false)

/-- A reply's text is a string, and not the empty one. -/
def hasText (event : SessionEvent) : Bool :=
  match assistantTextOf event.data with
  | .ok text => text != ""
  | .error _ => false

/-- The event at a place answers the one at another: both are in one turn, and it is the turn's final answer, with text, asking for no
tool and with no reply behind it in the turn. -/
structure Answers (events : List SessionEvent) (i j : Nat) : Prop where
  turn : ∃ turn, turnAt events i = some turn ∧ turnAt events j = some turn
  text : Exchange.At hasText events j
  final : ¬Exchange.At callsTool events j
  last : ∀ k, j < k → Exchange.At isReply events k → turnAt events k ≠ turnAt events j

/-- At the place there is a human prompt with the text. -/
def PromptAt (events : List SessionEvent) (i : Nat) (text : String) : Prop :=
  text ≠ "" ∧ ∃ event, events[i]? = some event ∧ event.type = .userMessage ∧ userTextOf event.data = .ok text

/-- At the place there is a reply with the text. -/
def ReplyAt (events : List SessionEvent) (i : Nat) (text : String) : Prop :=
  ∃ event, events[i]? = some event ∧ event.type = .assistantMessage ∧ assistantTextOf event.data = .ok text

/-- A pair is a whole exchange of the log: a human prompt, and the answer to it, which is not empty. -/
structure Captured.Whole (c : Captured) (events : List SessionEvent) : Prop where
  prompt : PromptAt events c.prompt c.userText
  reply : ReplyAt events c.reply c.assistantText
  text : c.assistantText ≠ ""
  answers : Answers events c.prompt c.reply

/-- What is captured of a log are whole exchanges, none of a prompt that another one has. -/
def CapturesWhole (events : List SessionEvent) : Prop :=
  ∀ captured, exchanges events = .ok captured → (captured.map Captured.prompt).Nodup ∧ ∀ c ∈ captured, c.Whole events

/-- A human message, or a reply behind a prompt with no reply in between, holds a text that is no string. -/
inductive Unreadable (events : List SessionEvent) : Prop where
  | prompt {k : Nat} {event : SessionEvent} (at_ : events[k]? = some event) (user : event.type = .userMessage)
      (raises : ¬(userTextOf event.data).Returns)
  | reply {k : Nat} {event : SessionEvent} (at_ : events[k]? = some event) (assistant : event.type = .assistantMessage)
      (raises : ¬(assistantTextOf event.data).Returns) {i : Nat} (before : i < k) (asked : Exchange.At isPrompt events i)
      (quiet : Exchange.Quiet isReply events i k)

/-- The first reply behind each prompt answers it. -/
def AnsweredFirst (events : List SessionEvent) : Prop :=
  ∀ i j, Exchange.Follows isPrompt isReply events i j → Answers events i j

/-! ## Messages of the vocabulary -/

theorem userTextOf_message (m : Message) : userTextOf m.toJson = if m.source.kind = "user" then .ok (asText m.content) else .ok "" := by
  rw [userTextOf, decoded_message, contentAttr_toPy, sourceKind_toPy, joinTexts_toPyList]
  by_cases hkind : m.source.kind = "user"
  · rw [hkind]
    rfl
  · rw [if_neg hkind]
    split
    next heq => exact absurd (PyValue.str.inj heq) hkind
    next => rfl

theorem assistantTextOf_message {kvs : List (String × Json)} {m : Message} (h : field? kvs "message" = some m.toJson) :
    assistantTextOf (.obj kvs) = .ok (asText m.content) := by
  rw [assistantTextOf, replyContent_message h, joinTexts_toPyList]

/-! ## The scan -/

theorem apart_prompt_reply : Exchange.Apart isPrompt isReply := by
  rintro event ⟨hprompt, hreply⟩
  simp only [isPrompt, isReply, Bool.and_eq_true, decide_eq_true_eq] at hprompt hreply
  rw [hprompt.1] at hreply
  cases hreply

theorem isPrompt_eq {event : SessionEvent} (h : event.type = .userMessage) {text : String} (htext : userTextOf event.data = .ok text) :
    isPrompt event = (text != "") := by
  simp [isPrompt, h, htext]

theorem isPrompt_other {event : SessionEvent} (h : event.type ≠ .userMessage) : isPrompt event = false := by
  simp [isPrompt, h]

/-- The places of a pair. -/
def Captured.places (c : Captured) : Nat × Nat := (c.prompt, c.reply)

section Concat

variable {events : List SessionEvent} {event : SessionEvent} {i : Nat} {text : String}

theorem getElem?_concat_of_some (h : events[i]? = some event) (e : SessionEvent) : (events ++ [e])[i]? = some event := by
  rw [List.getElem?_append_left (List.getElem?_eq_some_iff.mp h).1, h]

theorem getElem?_concat_cases {e : SessionEvent} (h : (events ++ [event])[i]? = some e) :
    events[i]? = some e ∨ i = events.length ∧ e = event := by
  rcases Nat.lt_trichotomy i events.length with hlt | rfl | hgt
  · rw [List.getElem?_append_left hlt] at h
    exact Or.inl h
  · exact Or.inr ⟨rfl, by simpa [eq_comm] using h⟩
  · rw [List.getElem?_eq_none (by simp; omega)] at h
    cases h

theorem PromptAt.concat (h : PromptAt events i text) (e : SessionEvent) : PromptAt (events ++ [e]) i text := by
  obtain ⟨htext, event, hat, hevent⟩ := h
  exact ⟨htext, event, getElem?_concat_of_some hat e, hevent⟩

theorem ReplyAt.concat (h : ReplyAt events i text) (e : SessionEvent) : ReplyAt (events ++ [e]) i text := by
  obtain ⟨event, hat, hevent⟩ := h
  exact ⟨event, getElem?_concat_of_some hat e, hevent⟩

end Concat

/-- Where the loop is says what the scan of the places is, and the texts are those of the events. -/
structure Capturing.Tells (st : Capturing) (events : List SessionEvent) : Prop where
  place : st.place = events.length
  scan : Exchange.scan isPrompt isReply events =
    { seen := st.place, pending := st.pending.map Prod.fst, pairs := st.pairs.map Captured.places }
  pending : ∀ i text, st.pending = some (i, text) → PromptAt events i text
  pairs : ∀ c ∈ st.pairs, PromptAt events c.prompt c.userText ∧ ReplyAt events c.reply c.assistantText

theorem Capturing.Tells.nil : Capturing.Tells {} [] where
  place := rfl
  scan := rfl
  pending := by
    intro i text h
    cases h
  pairs := by
    intro c h
    cases h

/-- An event that is neither prompt nor reply moves the loop on. -/
theorem Capturing.Tells.pass {st : Capturing} {events : List SessionEvent} (h : st.Tells events) {event : SessionEvent}
    (hprompt : isPrompt event = false) (hreply : st.pending = none ∨ isReply event = false) :
    Capturing.Tells { st with place := st.place + 1 } (events ++ [event]) where
  place := by simp [h.place]
  scan := by
    rw [Exchange.scan_concat, h.scan, Exchange.Scan.next]
    rcases hreply with hnone | hreply
    · simp [hprompt, hnone]
    · cases hpending : st.pending <;> simp [hprompt, hreply]
  pending i text hpending := (h.pending i text hpending).concat event
  pairs c hc := ⟨(h.pairs c hc).1.concat event, (h.pairs c hc).2.concat event⟩

theorem Capturing.Tells.next {st st' : Capturing} {events : List SessionEvent} (h : st.Tells events) {event : SessionEvent}
    (hnext : st.next event = .ok st') : st'.Tells (events ++ [event]) := by
  have hlast : (events ++ [event])[st.place]? = some event := by simp [h.place]
  unfold Capturing.next at hnext
  dsimp only at hnext
  split at hnext
  next htype =>
    have hreply : isReply event = false := by simp [isReply, htype]
    obtain ⟨text, htext, hst⟩ := Except.bind_eq_ok_iff.mp hnext
    have hprompt := isPrompt_eq htype htext
    cases hst
    by_cases hempty : text = ""
    · rw [if_neg (by simpa using hempty)]
      exact h.pass (by simp [hprompt, hempty]) (Or.inr hreply)
    · rw [if_pos hempty]
      refine ⟨by simp [h.place], ?_, ?_, fun c hc => ⟨(h.pairs c hc).1.concat event, (h.pairs c hc).2.concat event⟩⟩
      · rw [Exchange.scan_concat, h.scan, Exchange.Scan.next]
        simp [hprompt, hempty]
      · intro i text' hpending
        cases hpending
        exact ⟨hempty, event, hlast, htype, htext⟩
  next htype =>
    have hprompt : isPrompt event = false := isPrompt_other (by simp [htype])
    have hreply : isReply event = true := by simp [isReply, htype]
    split at hnext
    next prompt userText hpending =>
      obtain ⟨assistantText, htext, hst⟩ := Except.bind_eq_ok_iff.mp hnext
      cases hst
      refine ⟨by simp [h.place], ?_, ?_, fun c hc => ?_⟩
      · rw [Exchange.scan_concat, h.scan, Exchange.Scan.next]
        simp [hprompt, hreply, hpending, Captured.places]
      · intro i text hnone
        cases hnone
      · rcases List.mem_append.mp hc with hc | hc
        · exact ⟨(h.pairs c hc).1.concat event, (h.pairs c hc).2.concat event⟩
        · obtain rfl := List.mem_singleton.mp hc
          exact ⟨(h.pending prompt userText hpending).concat event, event, hlast, htype, htext⟩
    next hpending =>
      cases hnext
      exact h.pass hprompt (Or.inl hpending)
  next huser hassistant =>
    cases hnext
    exact h.pass (isPrompt_other huser) (Or.inr (by simpa [isReply] using hassistant))

/-- An event stops the loop where its text is read and is no string. -/
theorem Capturing.next_returns_iff (st : Capturing) (event : SessionEvent) :
    (st.next event).Returns ↔ ¬(event.type = .userMessage ∧ ¬(userTextOf event.data).Returns) ∧
      ¬(event.type = .assistantMessage ∧ ¬(assistantTextOf event.data).Returns ∧ st.pending.isSome = true) := by
  unfold Capturing.next
  dsimp only
  split
  next htype =>
    rw [Except.returns_bind_pure_iff]
    simp [htype]
  next htype =>
    cases hpending : st.pending with
    | none => exact iff_of_true (Except.returns_ok _) (by simp [htype])
    | some p =>
      dsimp only
      rw [Except.returns_bind_pure_iff]
      simp [htype]
  next huser hassistant => exact iff_of_true (Except.returns_ok _) ⟨fun h => huser h.1, fun h => hassistant h.1⟩

theorem unreadable_concat_iff (events : List SessionEvent) (event : SessionEvent) :
    Unreadable (events ++ [event]) ↔ Unreadable events ∨ (event.type = .userMessage ∧ ¬(userTextOf event.data).Returns) ∨
      (event.type = .assistantMessage ∧ ¬(assistantTextOf event.data).Returns ∧
        ∃ i, Exchange.At isPrompt events i ∧ Exchange.Quiet isReply events i events.length) := by
  constructor
  · intro h
    cases h with
    | @prompt k e hat huser hraises =>
      rcases getElem?_concat_cases hat with hold | ⟨rfl, rfl⟩
      · exact Or.inl (.prompt hold huser hraises)
      · exact Or.inr (Or.inl ⟨huser, hraises⟩)
    | @reply k e hat hassistant hraises i hbefore hasked hquiet =>
      have hk : k ≤ events.length := by
        have hlt := (List.getElem?_eq_some_iff.mp hat).1
        simp at hlt
        omega
      have hasked' : Exchange.At isPrompt events i := by
        rcases Exchange.at_concat_iff.mp hasked with hold | ⟨hi, -⟩
        · exact hold
        · omega
      rw [Exchange.quiet_concat_of_le hk] at hquiet
      rcases getElem?_concat_cases hat with hold | ⟨rfl, rfl⟩
      · exact Or.inl (.reply hold hassistant hraises hbefore hasked' hquiet)
      · exact Or.inr (Or.inr ⟨hassistant, hraises, i, hasked', hquiet⟩)
  · have hlast : (events ++ [event])[events.length]? = some event := by simp
    rintro (h | ⟨huser, hraises⟩ | ⟨hassistant, hraises, i, hasked, hquiet⟩)
    · cases h with
      | prompt hat huser hraises => exact .prompt (getElem?_concat_of_some hat event) huser hraises
      | @reply k e hat hassistant hraises i hbefore hasked hquiet =>
        have hk : k ≤ events.length := Nat.le_of_lt (List.getElem?_eq_some_iff.mp hat).1
        exact .reply (getElem?_concat_of_some hat event) hassistant hraises hbefore (Exchange.at_concat_iff.mpr (Or.inl hasked))
          ((Exchange.quiet_concat_of_le hk).mpr hquiet)
    · exact .prompt hlast huser hraises
    · exact .reply hlast hassistant hraises hasked.lt (Exchange.at_concat_iff.mpr (Or.inl hasked))
        ((Exchange.quiet_concat_of_le (Nat.le_refl _)).mpr hquiet)

theorem capturing_concat (events : List SessionEvent) (event : SessionEvent) :
    capturing (events ++ [event]) = capturing events >>= fun st => st.next event := by
  rw [capturing, List.foldlM_append]
  simp [capturing]

theorem capturing_tells {events : List SessionEvent} {st : Capturing} (h : capturing events = .ok st) : st.Tells events := by
  induction events using List.reverseRecOn generalizing st with
  | nil =>
    cases h
    exact .nil
  | append_singleton events event ih =>
    rw [capturing_concat] at h
    obtain ⟨st₀, hst₀, hnext⟩ := Except.bind_eq_ok_iff.mp h
    exact (ih hst₀).next hnext

/-- The loop comes to its end exactly if no text it reads is other than a string. -/
theorem capturing_returns_iff (events : List SessionEvent) : (capturing events).Returns ↔ ¬Unreadable events := by
  induction events using List.reverseRecOn with
  | nil =>
    refine iff_of_true (Except.returns_ok _) (fun h => ?_)
    cases h with
    | prompt hat _ _ => cases hat
    | reply hat _ _ _ _ _ => cases hat
  | append_singleton events event ih =>
    rw [capturing_concat, Except.returns_bind_iff, unreadable_concat_iff, not_or, ← ih]
    constructor
    · rintro ⟨st, hst, hnext⟩
      have htells := capturing_tells hst
      have hpending := @Exchange.pending_isSome_iff _ _ _ events apart_prompt_reply
      rw [htells.scan, Option.isSome_map] at hpending
      rw [st.next_returns_iff, hpending] at hnext
      exact ⟨⟨st, hst⟩, not_or.mpr hnext⟩
    · rintro ⟨⟨st, hst⟩, hreads⟩
      have htells := capturing_tells hst
      have hpending := @Exchange.pending_isSome_iff _ _ _ events apart_prompt_reply
      rw [htells.scan, Option.isSome_map] at hpending
      refine ⟨st, hst, ?_⟩
      rw [st.next_returns_iff, hpending]
      exact not_or.mp hreads

/-- A pair is made of each prompt and the reply that follows it. -/
theorem Capturing.Tells.follows_iff {st : Capturing} {events : List SessionEvent} (h : st.Tells events) {i j : Nat} :
    Exchange.Follows isPrompt isReply events i j ↔ ∃ c ∈ st.pairs, c.prompt = i ∧ c.reply = j := by
  rw [← Exchange.mem_pairs_iff apart_prompt_reply, h.scan]
  simp [Captured.places]

/-- No prompt is captured twice: a pair's prompt comes behind the reply of the pair before. -/
theorem Capturing.Tells.nodup {st : Capturing} {events : List SessionEvent} (h : st.Tells events) :
    (st.pairs.map Captured.prompt).Nodup := by
  have hordered := (Exchange.scanned_scan apart_prompt_reply events).ordered
  rw [h.scan, List.pairwise_map] at hordered
  rw [List.Nodup, List.pairwise_map]
  refine hordered.imp_of_mem (fun {c d} hc _ hlt heq => ?_)
  have hfollows := h.follows_iff.mpr ⟨c, hc, rfl, rfl⟩
  have hbefore := hfollows.before
  simp only [Captured.places] at hlt
  omega

/-- What is captured are whole exchanges exactly if the scan stops at a text that is no string, and nothing is captured, or the first
reply behind each human prompt answers it. -/
theorem captures_whole_iff (events : List SessionEvent) : CapturesWhole events ↔ Unreadable events ∨ AnsweredFirst events := by
  constructor
  · intro h
    by_cases hunreadable : Unreadable events
    · exact Or.inl hunreadable
    · obtain ⟨st, hst⟩ := (capturing_returns_iff events).mpr hunreadable
      refine Or.inr (fun i j hfollows => ?_)
      obtain ⟨c, hc, rfl, rfl⟩ := (capturing_tells hst).follows_iff.mp hfollows
      exact ((h st.pairs (by rw [exchanges, hst]; rfl)).2 c hc).answers
  · intro h captured hcaptured
    obtain ⟨st, hst, rfl⟩ := Except.map_eq_ok_iff.mp hcaptured
    have htells := capturing_tells hst
    refine ⟨htells.nodup, fun c hc => ?_⟩
    have hfirst : AnsweredFirst events := h.resolve_left ((capturing_returns_iff events).mp ⟨st, hst⟩)
    have hanswers := hfirst _ _ (htells.follows_iff.mpr ⟨c, hc, rfl, rfl⟩)
    obtain ⟨hprompt, hreply⟩ := htells.pairs c hc
    refine ⟨hprompt, hreply, ?_, hanswers⟩
    obtain ⟨event, hat, -, htext⟩ := hreply
    obtain ⟨event', hat', hhas⟩ := hanswers.text
    obtain rfl : event = event' := Option.some.inj (hat.symm.trans hat')
    rintro hempty
    rw [hempty] at htext
    simp [hasText, htext] at hhas

/-- An event of a log. -/
def logged (seq : Nat) (type : EventType) (data : Json) : SessionEvent := ⟨type, seq, 0, data, .none, []⟩

/-- The data of a step's reply. -/
def replied (step : Nat) (m : Message) : Json := .obj [("turn", .int 1), ("step", .int step), ("message", m.toJson), ("usage", .null)]

/-- The reply that reads the file first, and the answer. -/
def readingReply : Message :=
  createAssistantMessage "m2" [.text "Let me look.", .toolCall ⟨"c1", "read", "{}"⟩] "acme" "one"

def finalReply : Message := createAssistantMessage "m4" [.text "It says hello."] "acme" "one"

/-- A turn that reads a file before it answers. -/
def toolTurn : List SessionEvent :=
  [logged 1 .turnStart (.obj [("turn", .int 1)]),
    logged 2 .userMessage (createUserMessage "m1" [.text "What is in a.txt?"]).toJson,
    logged 3 .stepStart (.obj [("turn", .int 1), ("step", .int 1)]),
    logged 4 .assistantMessage (replied 1 readingReply),
    logged 5 .stepEnd (.obj [("turn", .int 1), ("step", .int 1)]),
    logged 6 .userMessage (createUserMessage "m3" [.toolResult "c1" [.text "hello"] false] { kind := "tool" }).toJson,
    logged 7 .stepStart (.obj [("turn", .int 1), ("step", .int 2)]),
    logged 8 .assistantMessage (replied 2 finalReply),
    logged 9 .stepEnd (.obj [("turn", .int 1), ("step", .int 2)]),
    logged 10 .turnEnd (.obj [("turn", .int 1), ("reason", .obj [("kind", .str "completed")])])]

/-- Of the turn its prompt is captured with what the model said before it read the file. -/
theorem exchanges_toolTurn : exchanges toolTurn = .ok [⟨1, 3, "What is in a.txt?", "Let me look."⟩] := by
  have hprompt : userTextOf (createUserMessage "m1" [.text "What is in a.txt?"]).toJson = .ok "What is in a.txt?" := by
    rw [userTextOf_message]
    rfl
  have hresult : userTextOf (createUserMessage "m3" [.toolResult "c1" [.text "hello"] false] { kind := "tool" }).toJson = .ok "" := by
    rw [userTextOf_message]
    rfl
  have hreply : assistantTextOf (replied 1 readingReply) = .ok "Let me look." := by
    rw [replied, assistantTextOf_message (by simp : field? _ "message" = some readingReply.toJson)]
    rfl
  simp [exchanges, capturing, toolTurn, logged, Capturing.next, hprompt, hresult, hreply]
  rfl

theorem not_captures_whole : ¬CapturesWhole toolTurn := by
  intro h
  have hwhole := (h _ exchanges_toolTurn).2 _ List.mem_cons_self
  have hlater : Exchange.At isReply toolTurn 7 := ⟨logged 8 .assistantMessage (replied 2 finalReply), rfl, rfl⟩
  exact hwhole.answers.last 7 (by decide) hlater rfl

end Pydsh
