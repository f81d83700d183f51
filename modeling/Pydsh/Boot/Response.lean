import Pydsh.Agent.Keeping
import Pydsh.Lib.Result
import Pydsh.Message.Texts

/-!
# The answer of a run

`final_response` of `boot/harness.py` reads the answer of a run off the session's log: the text of the last reply that has one. A run
delivers one message, which one turn of a drain takes, behind the turns of the messages before it, and returns when the drain is over.
What it returns is of its own turn exactly where that turn's replies have a text, or no reply before it had one, and no turn behind it
in the drain has a reply with a text (`final_response_own_iff`).
-/

namespace Pydsh

/-- The loop of `final_response`, over the events from the last one on. -/
def finalFrom : List SessionEvent → Except String String
  | [] => .ok ""
  | event :: events =>
    if event.type ≠ .assistantMessage then finalFrom events
    else do
      let text ← joinTexts (replyContent event.data)
      if text ≠ "" then return text else finalFrom events

/-- `final_response`. -/
def finalResponse (events : List SessionEvent) : Except String String := finalFrom events.reverse

/-- A turn of a drain: its number, the messages it takes, and what happens in its steps. -/
structure DrainTurn where
  number : Nat
  claimed : List Message
  world : Nat → StepWorld

/-- The turns of `Agent._drain`, as many as it comes to. -/
def Loop.drainTurns (l : Loop) : List DrainTurn → LoopM Unit
  | [] => return ()
  | turn :: turns => do
    l.runTurn turn.number turn.claimed turn.world
    l.drainTurns turns

/-- `HarnessSession.run` and `RuntimeServer.run` from the message on: the drain, and the answer. -/
def Loop.respond (l : Loop) (turns : List DrainTurn) : LoopM String := do
  l.drainTurns turns
  Effect.reads (fun s => (finalResponse s.events).mapError Raised.failed)

/-! ## The last reply with a text -/

/-- The event is a reply, and its text is not empty. -/
def speaks (event : SessionEvent) : Bool :=
  decide (event.type = .assistantMessage) &&
    match joinTexts (replyContent event.data) with
    | .ok text => text != ""
    | .error _ => true

/-- None of the events is a reply with a text. -/
def Silent (events : List SessionEvent) : Prop := ∀ event ∈ events, speaks event = false

theorem silent_append {xs ys : List SessionEvent} : Silent (xs ++ ys) ↔ Silent xs ∧ Silent ys := List.forall_mem_append

theorem finalFrom_cons (event : SessionEvent) (events : List SessionEvent) :
    finalFrom (event :: events) = if speaks event = true then joinTexts (replyContent event.data) else finalFrom events := by
  rw [finalFrom]
  by_cases htype : event.type = .assistantMessage
  · rw [if_neg (not_not.mpr htype)]
    cases htext : joinTexts (replyContent event.data) with
    | error e =>
      simp [speaks, htype, htext]
      rfl
    | ok text =>
      by_cases hempty : text = ""
      · simp [speaks, htype, htext, hempty, bind, Except.bind]
      · simp [speaks, htype, htext, hempty, bind, Except.bind]
        rfl
  · simp [speaks, htype]

theorem finalFrom_silent {xs : List SessionEvent} (ys : List SessionEvent) (h : Silent xs) :
    finalFrom (xs ++ ys) = finalFrom ys := by
  induction xs with
  | nil => rfl
  | cons x xs ih =>
    rw [List.cons_append, finalFrom_cons, h x List.mem_cons_self]
    exact ih (fun event hevent => h event (List.mem_cons_of_mem x hevent))

theorem finalResponse_silent {events : List SessionEvent} (h : Silent events) : finalResponse events = .ok "" := by
  have hreverse : Silent events.reverse := fun event hevent => h event (List.mem_reverse.mp hevent)
  rw [finalResponse, ← List.append_nil events.reverse, finalFrom_silent [] hreverse]
  rfl

theorem finalResponse_last {xs ys : List SessionEvent} {event : SessionEvent} (hspeaks : speaks event = true) (hys : Silent ys) :
    finalResponse (xs ++ event :: ys) = joinTexts (replyContent event.data) := by
  have hreverse : Silent ys.reverse := fun e he => hys e (List.mem_reverse.mp he)
  rw [finalResponse, List.reverse_append, List.reverse_cons, List.append_assoc, finalFrom_silent _ hreverse, List.singleton_append,
    finalFrom_cons, if_pos hspeaks]

theorem exists_last {events : List SessionEvent} (h : ¬Silent events) :
    ∃ xs event ys, events = xs ++ event :: ys ∧ speaks event = true ∧ Silent ys := by
  induction events using List.reverseRecOn with
  | nil => exact absurd (fun event hevent => by cases hevent) h
  | append_singleton events event ih =>
    cases hspeaks : speaks event with
    | true => exact ⟨events, event, [], rfl, hspeaks, fun e he => by cases he⟩
    | false =>
      have hlast : Silent [event] := by
        intro e he
        rw [List.mem_singleton.mp he, hspeaks]
      obtain ⟨xs, e, ys, rfl, he, hys⟩ := ih (fun hevents => h (silent_append.mpr ⟨hevents, hlast⟩))
      exact ⟨xs, e, ys ++ [event], by simp, he, silent_append.mpr ⟨hys, hlast⟩⟩

theorem ne_empty_of_speaks {event : SessionEvent} (h : speaks event = true) {text : String}
    (htext : joinTexts (replyContent event.data) = .ok text) : text ≠ "" := by
  rintro rfl
  simp [speaks, htext] at h

/-! ## Whose answer it is -/

/-- The answer to the run with these events in the log: the last text of all is of one of its replies, or it has none and the answer is
empty. -/
def OwnAnswer (own later : List SessionEvent) (text : String) : Prop :=
  (text = "" ∧ Silent own) ∨ ∃ xs event ys, own = xs ++ event :: ys ∧ joinTexts (replyContent event.data) = .ok text ∧
    speaks event = true ∧ Silent (ys ++ later)

/-- The last reply with a text has one that is no string: reading the answer raises. -/
def AnswerRaises (events : List SessionEvent) : Prop :=
  ∃ xs event ys, events = xs ++ event :: ys ∧ speaks event = true ∧ ¬(joinTexts (replyContent event.data)).Returns ∧ Silent ys

theorem not_returns_of_answerRaises {events : List SessionEvent} (h : AnswerRaises events) : ¬(finalResponse events).Returns := by
  obtain ⟨xs, event, ys, rfl, hspeaks, hraises, hys⟩ := h
  rwa [finalResponse_last hspeaks hys]

/-- Where the last text of a log is not of the run, what is read off the log is its answer only if nothing can be read. -/
theorem foreign_answer_iff {events own later xs ys : List SessionEvent} {event : SessionEvent} (heq : events = xs ++ event :: ys)
    (hspeaks : speaks event = true) (hys : Silent ys) (hforeign : ∀ text, text ≠ "" → ¬OwnAnswer own later text) :
    (∀ text, finalResponse events = .ok text → OwnAnswer own later text) ↔ AnswerRaises events := by
  constructor
  · intro h
    refine ⟨xs, event, ys, heq, hspeaks, ?_, hys⟩
    rintro ⟨text, htext⟩
    have hresponse : finalResponse events = .ok text := by rw [heq, finalResponse_last hspeaks hys, htext]
    exact hforeign text (ne_empty_of_speaks hspeaks htext) (h text hresponse)
  · intro h text htext
    exact absurd ⟨text, htext⟩ (not_returns_of_answerRaises h)

/-- The answer that is read off a log is of the run exactly if reading it raises, or the last text of the log is of the run. -/
theorem ownAnswer_iff (before own later : List SessionEvent) :
    (∀ text, finalResponse (before ++ own ++ later) = .ok text → OwnAnswer own later text) ↔
      AnswerRaises (before ++ own ++ later) ∨ (Silent later ∧ (¬Silent own ∨ Silent before)) := by
  by_cases hlater : Silent later
  · by_cases hown : Silent own
    · by_cases hbefore : Silent before
      · have hall : Silent (before ++ own ++ later) := silent_append.mpr ⟨silent_append.mpr ⟨hbefore, hown⟩, hlater⟩
        refine iff_of_true (fun text htext => ?_) (Or.inr ⟨hlater, Or.inr hbefore⟩)
        rw [finalResponse_silent hall] at htext
        cases htext
        exact Or.inl ⟨rfl, hown⟩
      · -- the answer of an earlier turn
        obtain ⟨xs, event, ys, rfl, hspeaks, hys⟩ := exists_last hbefore
        have hrest : Silent (ys ++ own ++ later) := silent_append.mpr ⟨silent_append.mpr ⟨hys, hown⟩, hlater⟩
        have hforeign : ∀ text, text ≠ "" → ¬OwnAnswer own later text := by
          rintro text hne (⟨hempty, -⟩ | ⟨xs', event', ys', hsplit, -, hspeaks', -⟩)
          · exact hne hempty
          · rw [hown event' (by simp [hsplit])] at hspeaks'
            cases hspeaks'
        have heq : (xs ++ event :: ys) ++ own ++ later = xs ++ event :: (ys ++ own ++ later) := by simp
        rw [foreign_answer_iff heq hspeaks hrest hforeign]
        simp [hown, hbefore]
    · obtain ⟨xs, event, ys, rfl, hspeaks, hys⟩ := exists_last hown
      have hrest : Silent (ys ++ later) := silent_append.mpr ⟨hys, hlater⟩
      refine iff_of_true (fun text htext => ?_) (Or.inr ⟨hlater, Or.inl hown⟩)
      have heq : before ++ (xs ++ event :: ys) ++ later = (before ++ xs) ++ event :: (ys ++ later) := by simp
      rw [heq, finalResponse_last hspeaks hrest] at htext
      exact Or.inr ⟨xs, event, ys, rfl, htext, hspeaks, hrest⟩
  · -- the answer of a later turn
    obtain ⟨xs, event, ys, hsplit, hspeaks, hys⟩ := exists_last hlater
    have hforeign : ∀ text, text ≠ "" → ¬OwnAnswer own later text := by
      rintro text hne (⟨hempty, -⟩ | ⟨_, _, _, _, _, _, hsilent⟩)
      · exact hne hempty
      · exact hlater (silent_append.mp hsilent).2
    have heq : before ++ own ++ later = (before ++ own ++ xs) ++ event :: ys := by simp [hsplit]
    rw [foreign_answer_iff heq hspeaks hys hforeign]
    simp [hlater]

/-! ## The drain of a run -/

namespace Loop

variable (l : Loop)

theorem drainTurns_grows (turns : List DrainTurn) (s : Session) : s.events <+: (l.drainTurns turns s).2.events := by
  have hkeeps : Effect.Keeps (fun s' => s.events <+: s'.events) (l.drainTurns turns) := by
    induction turns with
    | nil => exact .pure _
    | cons turn turns ih => exact .bind ((l.growing s).runTurn _ _ _) (fun _ => ih)
  exact hkeeps s (List.prefix_refl _)

/-- The turns of a drain are taken one after the other, as long as they return. -/
theorem drainTurns_append (xs ys : List DrainTurn) (s : Session) :
    l.drainTurns (xs ++ ys) s = (l.drainTurns xs >>= fun _ => l.drainTurns ys) s := by
  induction xs generalizing s with
  | nil => rfl
  | cons turn turns ih =>
    simp only [List.cons_append, drainTurns, Effect.bind_assoc]
    simp only [Bind.bind]
    split
    next s' hturn => exact ih s'
    next => rfl

/-- A drain that returns leaves what its parts leave one after the other. -/
theorem drainTurns_ok {xs ys : List DrainTurn} {s s' : Session} (h : l.drainTurns (xs ++ ys) s = (.ok (), s')) :
    ∃ s₁, l.drainTurns xs s = (.ok (), s₁) ∧ l.drainTurns ys s₁ = (.ok (), s') := by
  rw [drainTurns_append] at h
  simp only [Bind.bind] at h
  split at h
  next s₁ hxs => exact ⟨s₁, hxs, h⟩
  next => cases h

end Loop

/-- The drain of a run: the turns before the one that takes the run's message, that one if there is one, and the turns behind it. -/
structure Drain where
  earlier : List DrainTurn
  own : Option DrainTurn
  later : List DrainTurn

namespace Drain

variable (l : Loop) (s : Session) (d : Drain)

/-- The turns in their order. -/
def turns : List DrainTurn := d.earlier ++ d.own.toList ++ d.later

/-- The session before the run's turn. -/
def before : Session := (l.drainTurns d.earlier s).2

/-- The session behind the run's turn. -/
def after : Session := (l.drainTurns d.own.toList (d.before l s)).2

/-- The session when the drain is over. -/
def last : Session := (l.drainTurns d.later (d.after l s)).2

/-- The events of the run's turn. -/
def mine : List SessionEvent := (d.after l s).events.drop (d.before l s).events.length

/-- The events of the turns behind it. -/
def others : List SessionEvent := (d.last l s).events.drop (d.after l s).events.length

/-- What the run returns is the answer of its own turn. -/
def AnswersOwn : Prop := ∀ text s', l.respond d.turns s = (.ok text, s') → OwnAnswer (d.mine l s) (d.others l s) text

/-- The log is what was there before the run's turn, the events of the turn, and those behind it. -/
theorem last_events : (d.last l s).events = (d.before l s).events ++ d.mine l s ++ d.others l s := by
  have hmine : (d.before l s).events ++ d.mine l s = (d.after l s).events :=
    List.prefix_iff_eq_append.mp (l.drainTurns_grows d.own.toList (d.before l s))
  have hothers : (d.after l s).events ++ d.others l s = (d.last l s).events :=
    List.prefix_iff_eq_append.mp (l.drainTurns_grows d.later (d.after l s))
  rw [hmine, hothers]

theorem drainTurns_turns {s' : Session} (h : l.drainTurns d.turns s = (.ok (), s')) : s' = d.last l s := by
  obtain ⟨s₂, hfirst, hlater⟩ := l.drainTurns_ok h
  obtain ⟨s₁, hearlier, hown⟩ := l.drainTurns_ok hfirst
  have hbefore : d.before l s = s₁ := congrArg Prod.snd hearlier
  have hafter : d.after l s = s₂ := by rw [after, hbefore, hown]
  rw [last, hafter, hlater]

/-- The answer that a run returns is of its own turn exactly if a turn of the drain raises, so that the run returns nothing, or reading
the answer raises, or no reply of a later turn has a text, and one of the run's turn has, or none before it. -/
theorem final_response_own_iff :
    d.AnswersOwn l s ↔ ¬(l.drainTurns d.turns s).1.Returns ∨ AnswerRaises (d.last l s).events ∨
      (Silent (d.others l s) ∧ (¬Silent (d.mine l s) ∨ Silent (d.before l s).events)) := by
  unfold AnswersOwn
  cases hdrain : l.drainTurns d.turns s with
  | mk r s' =>
    cases r with
    | error e =>
      refine iff_of_true (fun text s'' hrespond => ?_) (Or.inl (Except.not_returns_error e))
      simp only [Loop.respond, Bind.bind] at hrespond
      rw [hdrain] at hrespond
      cases hrespond
    | ok u =>
      obtain rfl := d.drainTurns_turns l s hdrain
      have hrespond : l.respond d.turns s = ((finalResponse (d.last l s).events).mapError Raised.failed, d.last l s) := by
        simp only [Loop.respond, Bind.bind]
        rw [hdrain]
        rfl
      have hreads : (∀ text s', l.respond d.turns s = (.ok text, s') → OwnAnswer (d.mine l s) (d.others l s) text) ↔
          ∀ text, finalResponse ((d.before l s).events ++ d.mine l s ++ d.others l s) = .ok text →
            OwnAnswer (d.mine l s) (d.others l s) text := by
        rw [hrespond, ← d.last_events]
        constructor
        · exact fun h text htext => h text _ (by rw [htext]; rfl)
        · exact fun h text s' heq => h text (Except.mapError_eq_ok_iff.mp (congrArg Prod.fst heq))
      rw [hreads, ownAnswer_iff, ← d.last_events]
      simp

end Drain

/-- The answer of an earlier turn. -/
def earlierReply : SessionEvent :=
  ⟨.assistantMessage, 1, 0,
    .obj [("turn", .int 1), ("step", .int 1), ("message", (createAssistantMessage "m1" [.text "42"] "acme" "one").toJson)], .none, []⟩

/-- A session whose last turn ended with an answer. -/
def answered : Session :=
  { Session.new "chat-1" { id := "chat-1" } with
    events := [earlierReply]
    seq := 1
    surfaceNodes := [1] }

/-- A loop with nothing around it. -/
def bareLoop : Loop :=
  { options := {}
    sessionText := fun _ => ""
    payloadText := fun _ => ""
    clock := fun _ => 0
    others := fun _ => [] }

/-- A turn whose message is rejected before its first step. -/
def blockedTurn : DrainTurn :=
  { number := 2
    claimed := []
    world := fun _ => { decision := .ok .reject, chunks := [], messageId := "", outcome := fun _ => ⟨"", false⟩, resultId := fun _ => "" } }

/-- The events of the blocked turn. -/
def blockedEvents : List SessionEvent :=
  [⟨.turnStart, 2, 0, .obj [("turn", .int 2)], .none, []⟩,
    ⟨.turnEnd, 3, 0, .obj [("turn", .int 2), ("reason", .obj [("kind", .str "blocked")])], .none, []⟩]

theorem silent_blockedEvents : Silent blockedEvents := by simp [Silent, blockedEvents, speaks]

theorem text_earlierReply : joinTexts (replyContent earlierReply.data) = .ok "42" := by
  rw [earlierReply, replyContent_message (m := createAssistantMessage "m1" [.text "42"] "acme" "one") (by simp), joinTexts_toPyList]
  rfl

/-- The run whose turn is blocked returns the answer of the turn before it. -/
theorem not_final_response_own : ¬(Drain.mk [] (some blockedTurn) []).AnswersOwn bareLoop answered := by
  intro h
  have hspeaks : speaks earlierReply = true := by
    unfold speaks
    rw [text_earlierReply]
    rfl
  have hrespond : bareLoop.respond [blockedTurn] answered =
      ((finalResponse ([] ++ earlierReply :: blockedEvents)).mapError Raised.failed, (bareLoop.drainTurns [blockedTurn] answered).2) := rfl
  rw [finalResponse_last hspeaks silent_blockedEvents, text_earlierReply] at hrespond
  rcases h "42" _ hrespond with ⟨hempty, -⟩ | ⟨xs, event, ys, hsplit, -, hspeaks', -⟩
  · exact absurd hempty (by decide)
  · have hmine : blockedEvents = xs ++ event :: ys := hsplit
    rw [silent_blockedEvents event (by simp [hmine])] at hspeaks'
    cases hspeaks'

end Pydsh
