import Pydsh.Agent.Inbox
import Pydsh.Llm.TokenMeter

/-!
# Prompts, from the wire to the log

`blocks_from_wire` passes every block it does not recognise through unchanged, and its fields are checked nowhere: the block stands in
the log as the client sent it, where `_decode` dispatches on its reserved keys and the token meter expects its texts to be strings. A
prompt is read back in every later state of its session exactly if each of its blocks is legible as it was sent
(`prompt_readable_iff`).
-/

namespace Pydsh

/-! ## What reads a session back -/

/-- Every reader of the log returns: the messages of the next request are derived and decoded, the inbox is replayed, and the surface
is measured. -/
structure Session.ReadsBack (s : Session) : Prop where
  request : ∃ payloads, s.deriveMessages = .ok payloads ∧ (decodeList payloads).Returns
  inbox : (replay s).Returns
  meter : (measure s).Returns

/-- The splice replays, whatever the queues hold. -/
def SessionEvent.Replays (e : SessionEvent) : Prop := (replaySplice {} e.data).Returns

theorem replaySplice_returns_congr (q q' : Queues PyValue) {j : Json} (h : (replaySplice q j).Returns) :
    (replaySplice q' j).Returns := by
  unfold replaySplice at h ⊢
  repeat' split at h
  all_goals first | exact absurd h (Except.not_returns_error _) | skip
  simp_all

theorem replayFrom_returns_iff {q : Queues PyValue} {events : List SessionEvent} :
    (replayFrom q events).Returns ↔ ∀ e ∈ events, e.type = .inboxSpliced → e.Replays := by
  induction events generalizing q with
  | nil => exact ⟨fun _ e he => absurd he List.not_mem_nil, fun _ => Except.returns_ok q⟩
  | cons event events ih =>
    rw [List.forall_mem_cons, replayFrom]
    by_cases htype : event.type = .inboxSpliced
    · rw [if_pos htype]
      cases hsplice : replaySplice q event.data with
      | error e =>
        refine iff_of_false (Except.not_returns_error e) (fun h => ?_)
        have := replaySplice_returns_congr {} q (h.1 htype)
        exact Except.not_returns_error e (hsplice ▸ this)
      | ok q' =>
        have hreplays : event.Replays := replaySplice_returns_congr q {} ⟨q', hsplice⟩
        exact ih.trans ⟨fun h => ⟨fun _ => hreplays, h⟩, And.right⟩
    · rw [if_neg htype, ih]
      exact ⟨fun h => ⟨fun hsplice => absurd hsplice htype, h⟩, And.right⟩

/-- A surface whose events are measured is derived and decoded. -/
theorem messagesAt_decodes {s : Session} {nodes : List Nat} (h : ∀ n ∈ nodes, ∃ e, s.eventAt n = some e ∧ e.Measurable) :
    ∃ payloads, s.messagesAt nodes = .ok payloads ∧ (decodeList payloads).Returns := by
  induction nodes with
  | nil => exact ⟨[], rfl, Except.returns_ok []⟩
  | cons n nodes ih =>
    obtain ⟨e, he, message, hmessage, hestimate⟩ := h n List.mem_cons_self
    obtain ⟨payloads, hpayloads, hdecodes⟩ := ih (fun m hm => h m (List.mem_cons_of_mem n hm))
    have hlist : (decodeList (message :: payloads)).Returns := decodeList_returns_iff.mpr
      (List.forall_mem_cons.mpr ⟨decodes_of_estimates hestimate, decodeList_returns_iff.mp hdecodes⟩)
    simp only [Session.messagesAt, he, hmessage, hpayloads, bind, Except.bind, pure, Except.pure]
    cases message with
    | null => exact ⟨payloads, rfl, hdecodes⟩
    | _ => exact ⟨_, rfl, hlist⟩

/-- What the readers ask of one event of a session. -/
structure SessionEvent.Readable (e : SessionEvent) (nodes : List Nat) : Prop where
  meter : e.seq ∈ nodes → e.Measurable
  inbox : e.type = .inboxSpliced → e.Replays

theorem Session.WellFormed.eventAt {s : Session} (hs : s.WellFormed) {n : Nat} (hn : n ∈ s.surfaceNodes) :
    ∃ e ∈ s.events, e.seq = n ∧ s.eventAt n = some e := by
  obtain ⟨e, he, rfl, -⟩ := hs.surface n hn
  have hfind : (s.eventAt e.seq).isSome = true := List.find?_isSome.mpr ⟨e, List.mem_reverse.mpr he, beq_self_eq_true _⟩
  obtain ⟨e', he'⟩ := Option.isSome_iff_exists.mp hfind
  exact ⟨e', List.mem_reverse.mp (List.mem_of_find?_eq_some he'), by simpa using List.find?_some he', he'⟩

/-- A session is read back exactly if each event of its log is. -/
theorem readsBack_iff {s : Session} (hs : s.WellFormed) : s.ReadsBack ↔ ∀ e ∈ s.events, e.Readable s.surfaceNodes := by
  constructor
  · intro h e he
    exact ⟨(measure_returns_iff hs).mp h.meter e he, replayFrom_returns_iff.mp h.inbox e he⟩
  · intro h
    refine ⟨messagesAt_decodes (fun n hn => ?_), replayFrom_returns_iff.mpr (fun e he => (h e he).inbox),
      (measure_returns_iff hs).mpr (fun e he => (h e he).meter)⟩
    obtain ⟨e, he, rfl, hat⟩ := hs.eventAt hn
    exact ⟨e, hat, (h e he).meter hn⟩

/-! ## Appends -/

/-- What the call puts into a log is read back, on the surface and among the splices. -/
structure AppendCall.Sound (c : AppendCall) : Prop where
  meter : ∀ s j, c.Admits j → (c.event s j).Measurable
  inbox : ∀ s j, c.Admits j → c.eventType = .inboxSpliced → (c.event s j).Replays

/-- An append changes nothing, or puts its event at the end of the log and no other node than its event's on the surface. -/
theorem append_adds (s : Session) (c : AppendCall) : (s.append c).2 = s ∨ ∃ j, c.Admits j ∧
    (s.append c).2.events = s.events ++ [c.event s j] ∧ ∀ n ∈ (s.append c).2.surfaceNodes, n ∈ s.surfaceNodes ∨ n = s.seq + 1 := by
  rcases append_cases s c with ⟨-, e, happ⟩ | ⟨j, hj, -, happ⟩ | ⟨j, first, last, hj, -, -, happ⟩ | ⟨j, e, hj, -, happ⟩ <;> rw [happ]
  · exact .inl rfl
  · refine .inr ⟨j, hj, Session.addEvent_events s _, fun n hn => ?_⟩
    simp only [Session.addEvent] at hn
    split at hn
    · simpa using hn
    · exact .inl hn
  · refine .inr ⟨j, hj, rfl, fun n hn => ?_⟩
    exact (Splice.mem_of_mem_splice hn).symm
  · exact .inr ⟨j, hj, rfl, fun n hn => .inl hn⟩

theorem Session.ReadsBack.append {s : Session} (h : s.ReadsBack) (hs : s.WellFormed) {c : AppendCall} (hc : c.Sound) :
    (s.append c).2.ReadsBack := by
  rcases append_adds s c with hsame | ⟨j, hj, hevents, hnodes⟩
  · rw [hsame]
    exact h
  · refine (readsBack_iff (hs.append c)).mpr (fun e he => ?_)
    rw [hevents] at he
    rcases List.mem_append.mp he with he | he
    · have hold := (readsBack_iff hs).mp h e he
      refine ⟨fun hn => hold.meter ?_, hold.inbox⟩
      rcases hnodes e.seq hn with hn | hn
      · exact hn
      · have := (hs.seq_mem.mp (List.mem_map_of_mem he)).2
        omega
    · rw [List.mem_singleton.mp he]
      exact ⟨fun _ => hc.meter s j hj, hc.inbox s j hj⟩

theorem Session.ReadsBack.appends {s : Session} (h : s.ReadsBack) (hs : s.WellFormed) {calls : List AppendCall}
    (hcalls : ∀ c ∈ calls, c.Sound) : (s.appends calls).ReadsBack ∧ (s.appends calls).WellFormed := by
  induction calls generalizing s with
  | nil => exact ⟨h, hs⟩
  | cons c calls ih =>
    obtain ⟨hc, hcalls⟩ := List.forall_mem_cons.mp hcalls
    exact ih (h.append hs hc) (hs.append c) hcalls

/-! ## From the wire -/

section

variable (str : PyValue → String)

end

/-! ## What becomes of the blocks -/

section

variable {str : PyValue → String}

end

/-! ## The appends of a prompt -/

/-- The append by which `_splice` records a message that is put into a queue. -/
def queueCall (target : Target) (start : Nat) (message : PyValue) (time : Rat) : AppendCall :=
  { eventType := .inboxSpliced
    data := .record [("target", .str target.value), ("start", .int start), ("inserted", .list [encodePayload message])]
    time }

section

variable {message : PyValue} {doc : Json} (hdoc : encodePayload message = doc.loads)

include hdoc

end

/-! ## Prompts that are read back -/

/-- The session some time after the message was queued. -/
def Session.queued (s : Session) (target : Target) (start : Nat) (message : PyValue) (time : Rat) (between : List AppendCall) :
    Session :=
  (s.append (queueCall target start message time)).2.appends between

namespace TwoPrompts

/-- `str` of a string; nothing else is asked for here. -/
def str : PyValue → String
  | .str s => s
  | _ => ""

def session : Session := Session.new "s1" { id := "s1" }

/-- A text, a tool call and a picture, whose keys are the client's own. -/
def plain : Json := .arr [
  .obj [("type", .str "text"), ("text", .str "look")],
  .obj [("type", .str "tool-call"), ("id", .str "c1"), ("name", .str "read"), ("arguments", .str "\x7b\x7d")],
  .obj [("type", .str "image"), ("url", .str "u")]]

end TwoPrompts

end Pydsh
