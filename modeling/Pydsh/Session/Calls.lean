import Mathlib.Algebra.Ring.Nat
import Pydsh.Session.Surface

/-!
# Tool calls and their results

The tool calls in the assistant messages of a log, the events that answer them, and how many result blocks the derived messages
hold for a call. Each is read from the events as the loop's consumers read them, by decoding their payloads; for events that
carry entries it is read from the entries (`Carries`, `Tells`).
-/

namespace Pydsh

/-! ## Blocks -/

/-- The id of a tool call. -/
def PyValue.callId? : PyValue → Option String
  | .toolCallBlock (.str id) _ _ => some id
  | _ => Option.none

/-- Whether a block is the result of the call with an id. -/
def PyValue.answers (id : String) : PyValue → Bool
  | .toolResultBlock (.str toolCallId) _ _ => toolCallId == id
  | _ => false

theorem filterMap_callId? (blocks : List ContentBlock) :
    (ContentBlock.toPyList blocks).filterMap PyValue.callId? = (blocks.filterMap ContentBlock.call?).map (·.id) := by
  induction blocks with
  | nil => rfl
  | cons b blocks ih =>
    cases b <;> simp [ContentBlock.toPyList, ContentBlock.toPy, ContentBlock.call?, PyValue.callId?, List.filterMap_cons, ih]

theorem PyValue.answers_toPy (id : String) (b : ContentBlock) : b.toPy.answers id = b.answers id := by
  cases b <;> rfl

theorem countP_answers (id : String) (blocks : List ContentBlock) :
    (ContentBlock.toPyList blocks).countP (PyValue.answers id) = blocks.countP (ContentBlock.answers id) := by
  rw [ContentBlock.toPyList_eq_map, List.countP_map]
  congr 1
  funext b
  exact PyValue.answers_toPy id b

/-! ## Events -/

/-- The blocks of the message an event carries. -/
def SessionEvent.content (e : SessionEvent) : List PyValue :=
  match deriveEventMessage e with
  | .error _ => []
  | .ok payload =>
    match decodePayload payload with
    | .error _ => []
    | .ok message => message.content

/-- The ids of the tool calls in an `assistant/message`. -/
def SessionEvent.callIds (e : SessionEvent) : List String :=
  if e.type = .assistantMessage then e.content.filterMap PyValue.callId? else []

/-- Whether an event is a `tool/result` for the call with an id. -/
def SessionEvent.answers (id : String) (e : SessionEvent) : Bool :=
  decide (e.type = .toolResult) && e.content.any (PyValue.answers id)

/-- The ids of the tool calls an entry holds. -/
def Entry.callIds (entry : Entry) : List String :=
  if entry.type = .assistantMessage then (entry.message.content.filterMap ContentBlock.call?).map (·.id) else []

/-- Whether an entry is a tool result for the call with an id. -/
def Entry.answers (id : String) (entry : Entry) : Bool :=
  decide (entry.type = .toolResult) && entry.message.content.any (ContentBlock.answers id)

namespace SessionEvent.Carries

variable {e : SessionEvent} {entry : Entry}

theorem content (h : e.Carries entry) : e.content = ContentBlock.toPyList entry.message.content := by
  simp only [SessionEvent.content, h.message, decodePayload_message, Message.toPy, PyValue.content]

theorem callIds (h : e.Carries entry) : e.callIds = entry.callIds := by
  simp only [SessionEvent.callIds, Entry.callIds, h.type, h.content, filterMap_callId?]

theorem answers (h : e.Carries entry) (id : String) : e.answers id = entry.answers id := by
  simp only [SessionEvent.answers, Entry.answers, h.type, h.content, ContentBlock.toPyList_eq_map, List.any_map]
  congr 2
  funext b
  exact PyValue.answers_toPy id b

end SessionEvent.Carries

theorem SessionEvent.callIds_logOnly {e : SessionEvent} (h : e.type.isSurface = false) : e.callIds = [] := by
  unfold SessionEvent.callIds
  rw [if_neg]
  rintro htype
  rw [htype] at h
  cases h

theorem SessionEvent.answers_logOnly {e : SessionEvent} (h : e.type.isSurface = false) (id : String) : e.answers id = false := by
  unfold SessionEvent.answers
  have htype : e.type ≠ .toolResult := by
    intro htype
    rw [htype] at h
    cases h
  simp [htype]

theorem flatMap_callIds_surface (log : List SessionEvent) :
    (log.filter (fun e => e.type.isSurface)).flatMap SessionEvent.callIds = log.flatMap SessionEvent.callIds := by
  induction log with
  | nil => rfl
  | cons e log ih =>
    cases ht : e.type.isSurface with
    | true => simp [ht, ih]
    | false => simp [ht, ih, SessionEvent.callIds_logOnly ht]

/-! ## What a growing session tells of calls -/

namespace Session.Tells

variable {s s' : Session} {entries : List Entry}

/-- The entry an event of the new log carries, if it is a message. -/
theorem entry_of_event (h : s.Tells s' entries) {e : SessionEvent} (he : e ∈ s'.events.drop s.events.length)
    (ht : e.type.isSurface = true) : ∃ entry ∈ entries, e.Carries entry := by
  obtain ⟨log, hadds, hcarries⟩ := h
  rw [hadds.drop_events] at he
  have hmem : e ∈ log.filter (fun e => e.type.isSurface) := List.mem_filter.mpr ⟨he, ht⟩
  obtain ⟨i, hi, hget⟩ := List.getElem_of_mem hmem
  have hlen : i < entries.length := hcarries.length_eq ▸ hi
  have hat := hcarries.get hi hlen
  simp only [List.get_eq_getElem, hget] at hat
  exact ⟨entries[i], List.getElem_mem hlen, hat⟩

/-- The event of the new log that carries an entry is on the surface. -/
theorem event_of_entry (h : s.Tells s' entries) {entry : Entry} (hentry : entry ∈ entries) :
    ∃ e ∈ s'.events.drop s.events.length, e.Carries entry ∧ e.seq ∈ s'.surfaceNodes ∧ s'.eventAt e.seq = some e := by
  obtain ⟨log, hadds, hcarries⟩ := h
  obtain ⟨i, hi, hget⟩ := List.getElem_of_mem hentry
  have hlen : i < (log.filter (fun e => e.type.isSurface)).length := hcarries.length_eq ▸ hi
  have hmem := List.getElem_mem hlen
  have hat := hcarries.get hlen hi
  simp only [List.get_eq_getElem, hget] at hat
  refine ⟨_, ?_, hat, ?_, hadds.eventAt_new (List.mem_filter.mp hmem).1⟩
  · rw [hadds.drop_events]
    exact (List.mem_filter.mp hmem).1
  · rw [hadds.surface]
    exact List.mem_append_right _ (List.mem_map_of_mem hmem)

/-- The call ids of the new events are those of the entries, in order. -/
theorem callIds (h : s.Tells s' entries) :
    (s'.events.drop s.events.length).flatMap SessionEvent.callIds = entries.flatMap Entry.callIds := by
  obtain ⟨log, hadds, hcarries⟩ := h
  rw [hadds.drop_events, ← flatMap_callIds_surface]
  generalize log.filter (fun e => e.type.isSurface) = surface at hcarries
  induction hcarries with
  | nil => rfl
  | cons hcarry _ ih => simp only [List.flatMap_cons, hcarry.callIds, ih]

end Session.Tells

/-! ## Result blocks in the derived messages -/

/-- The result blocks for a call in a derived message. -/
def resultBlocks (id : String) (payload : Json) : Nat :=
  match decodePayload payload with
  | .error _ => 0
  | .ok message => message.content.countP (PyValue.answers id)

/-- How many result blocks for a call the derived messages hold; none where deriving raises. -/
def Session.resultCount (s : Session) (id : String) : Nat :=
  match s.deriveMessages with
  | .error _ => 0
  | .ok payloads => (payloads.map (resultBlocks id)).sum

/-- How many result blocks for a call an entry holds. -/
def Entry.resultCount (id : String) (entry : Entry) : Nat := entry.message.content.countP (ContentBlock.answers id)

theorem resultBlocks_message (id : String) (m : Message) : resultBlocks id m.toJson = m.content.countP (ContentBlock.answers id) := by
  simp only [resultBlocks, decodePayload_message, Message.toPy, PyValue.content, countP_answers]

/-- What the derived messages hold afterwards: what they did before, and what was told. -/
theorem Session.Tells.resultCount {s s' : Session} {entries : List Entry} (h : s.Tells s' entries) (hs : s.Tidy)
    {payloads : List Json} (hderive : s.deriveMessages = .ok payloads) (id : String) :
    s'.resultCount id = s.resultCount id + (entries.map (Entry.resultCount id)).sum := by
  have hmap : (entries.map (·.message.toJson)).map (resultBlocks id) = entries.map (Entry.resultCount id) := by
    rw [List.map_map]
    refine List.map_congr_left (fun entry _ => ?_)
    exact resultBlocks_message id entry.message
  simp only [Session.resultCount, h.deriveMessages hs, hderive, Except.map, List.map_append, List.sum_append, hmap]

end Pydsh
