import Pydsh.Agent.Conversation

/-!
# How often a tool result reaches the model

A result travels twice: its `tool/result` is a message of the surface, and the message it carries is the next step's pending
input, which enters as a `user/message`. So a call answered in a step that another step follows has two result blocks in the
derived messages. A turn delivers each of its results once exactly when it answers nothing, or answers in its one step calls
whose ids the history does not hold yet (`delivered_once_iff`).
-/

namespace Pydsh

/-- In the derived messages there is one result block for each tool call of the events from some number on that one of these
events answers. -/
def Session.DeliveredOnce (s : Session) (events : Nat) : Prop :=
  ∀ id ∈ (s.events.drop events).flatMap SessionEvent.callIds,
    (∃ e ∈ s.events.drop events, e.answers id = true) → s.resultCount id = 1

/-- No plugin decides what enters. -/
def NoPreStep (world : Nat → StepWorld) : Prop := ∀ step, (world step).decision = .ok .noOpinion

/-- After the first step of a turn there is a second one. -/
structure Loop.SecondStep (l : Loop) (world : Nat → StepWorld) : Prop where
  liveAfter : (world 1).abortedAfter = none
  liveBefore : (world 2).abortedBefore = none
  allowed : 2 ≤ l.options.maxSteps

/-- If the first step runs its tools then it is the last one, and neither the history nor what the turn claimed holds a result
block for one of its calls. -/
def Loop.ResultsOnce (l : Loop) (s : Session) (claimed : List Message) (world : Nat → StepWorld) : Prop :=
  1 ≤ l.options.maxSteps → (world 1).RunsTools l (l.ready s) →
    ¬l.SecondStep world ∧
    ∀ call ∈ (world 1).calls, s.resultCount call.id = 0 ∧ ∀ m ∈ claimed, m.content.countP (ContentBlock.answers call.id) = 0

namespace Loop

variable (l : Loop)

/-! ## The first step -/

theorem stepSaid_runs {ready : Except Raised Unit} {w : StepWorld} (h : w.RunsTools l ready) :
    l.stepSaid ready w = (⟨.assistantMessage, l.replyMessage w w.assembler⟩ :: w.answered, .ok (none, w.calls.map w.resultOf)) := by
  rw [l.stepSaid_of_ends h.runs]
  rfl

theorem entering_noOpinion {w : StepWorld} (h : w.decision = .ok .noOpinion) (pending : List Message) :
    w.entering pending = .ok (some pending) := by
  simp [StepWorld.entering, h, Except.map]

theorem turnSaid_enters {ready : Except Raised Unit} {world : Nat → StepWorld} {step : Nat}
    (hlive : (world step).abortedBefore = none) (hdecision : (world step).decision = .ok .noOpinion) (remaining : Nat)
    (pending : List Message) :
    ∃ more, (l.turnSaid ready world (remaining + 1) step pending).1 = entered pending ++ more := by
  simp only [Loop.turnSaid, hlive, entering_noOpinion hdecision]
  cases (world step).appended with
  | error e => exact ⟨[], (List.append_nil _).symm⟩
  | ok u =>
    rcases l.stepSaid ready (world step) with ⟨said, e | ⟨reason, results⟩⟩
    · exact ⟨said, rfl⟩
    · cases (world step).abortedAfter with
      | some cause => exact ⟨said, rfl⟩
      | none =>
        cases reason with
        | some reason => exact ⟨said, rfl⟩
        | none => exact ⟨said ++ _, by simp only [List.append_assoc]; rfl⟩

/-- What a turn says that runs tools in its first step: what enters, the reply, the results; and then, where a second step follows,
the results again. -/
theorem said_runs {s : Session} (claimed : List Message) {world : Nat → StepWorld} (hlisteners : NoPreStep world)
    (hallowed : 1 ≤ l.options.maxSteps) (hruns : (world 1).RunsTools l (l.ready s)) :
    ∃ rest, l.said s claimed world =
        entered claimed ++ ⟨.assistantMessage, l.replyMessage (world 1) (world 1).assembler⟩ :: (world 1).answered ++ rest ∧
      (¬l.SecondStep world → rest = []) ∧
      (l.SecondStep world → ∃ more, rest = entered ((world 1).calls.map (world 1).resultOf) ++ more) := by
  obtain ⟨n, hn⟩ : ∃ n, l.options.maxSteps.toNat = n + 1 := ⟨l.options.maxSteps.toNat - 1, by omega⟩
  unfold Loop.said
  rw [hn]
  simp only [Loop.turnSaid, hruns.enters.live, entering_noOpinion (hlisteners 1), hruns.enters.entered, l.stepSaid_runs hruns]
  cases hafter : (world 1).abortedAfter with
  | some cause =>
    refine ⟨[], by simp, fun _ => rfl, fun hsecond => ?_⟩
    rw [hsecond.liveAfter] at hafter
    cases hafter
  | none =>
    refine ⟨_, rfl, fun hsecond => ?_, fun hsecond => ?_⟩
    · cases hbefore : (world 2).abortedBefore with
      | some cause => cases n <;> simp [Loop.turnSaid, hbefore]
      | none =>
        cases n with
        | zero => simp [Loop.turnSaid, hbefore]
        | succ n => exact absurd ⟨hafter, hbefore, by omega⟩ hsecond
    · obtain ⟨m, rfl⟩ : ∃ m, n = m + 1 := ⟨n - 1, by have := hsecond.allowed; omega⟩
      exact l.turnSaid_enters hsecond.liveBefore (hlisteners 2) m _

theorem stepSaid_no_result {ready : Except Raised Unit} {w : StepWorld} (henters : w.Enters) (h : ¬w.RunsTools l ready) :
    (∀ entry ∈ (l.stepSaid ready w).1, entry.type ≠ .toolResult) ∧ ∀ results, (l.stepSaid ready w).2 ≠ .ok (none, results) := by
  refine ⟨?_, fun results hresults => h ⟨henters, (l.stepSaid_eq_none (Prod.ext rfl hresults)).1⟩⟩
  obtain ⟨ended, hends⟩ := w.exists_ends l ready
  rw [l.stepSaid_of_ends hends]
  cases ended with
  | ranTools => exact absurd ⟨henters, hends⟩ h
  | _ => simp [StepEnd.told]

/-- A turn that does not run tools in its first step answers no call. -/
theorem said_no_result {s : Session} (claimed : List Message) {world : Nat → StepWorld} (hlisteners : NoPreStep world)
    (h : ¬(1 ≤ l.options.maxSteps ∧ (world 1).RunsTools l (l.ready s))) :
    ∀ entry ∈ l.said s claimed world, entry.type ≠ .toolResult := by
  have hentered : ∀ entry ∈ entered claimed, entry.type ≠ .toolResult := by
    intro entry hentry
    obtain ⟨m, -, rfl⟩ := List.mem_map.mp hentry
    simp
  unfold Loop.said
  cases hn : l.options.maxSteps.toNat with
  | zero =>
    simp only [Loop.turnSaid]
    cases (world 1).abortedBefore <;> simp
  | succ n =>
    cases hlive : (world 1).abortedBefore with
    | some cause => simp [Loop.turnSaid, hlive]
    | none =>
      simp only [Loop.turnSaid, hlive, entering_noOpinion (hlisteners 1)]
      cases hended : (world 1).appended with
      | error e => exact hentered
      | ok u =>
        have henters : (world 1).Enters := ⟨hlive, Or.inl (hlisteners 1), hended⟩
        obtain ⟨hsaid, hends⟩ := l.stepSaid_no_result henters (fun hruns => h ⟨by omega, hruns⟩)
        have hboth : ∀ entry ∈ entered claimed ++ (l.stepSaid (l.ready s) (world 1)).1, entry.type ≠ .toolResult := by
          intro entry hentry
          rcases List.mem_append.mp hentry with hentry | hentry
          · exact hentered entry hentry
          · exact hsaid entry hentry
        rcases hstep : l.stepSaid (l.ready s) (world 1) with ⟨said, e | ⟨reason, results⟩⟩
        · rw [hstep] at hboth
          exact hboth
        · rw [hstep] at hboth hends
          cases (world 1).abortedAfter with
          | some cause => exact hboth
          | none =>
            cases reason with
            | some reason => exact hboth
            | none => exact absurd rfl (hends results)

end Loop

/-! ## Counting -/

theorem Loop.reply_resultCount (l : Loop) (w : StepWorld) (id : String) :
    Entry.resultCount id ⟨.assistantMessage, l.replyMessage w w.assembler⟩ = 0 := by
  simp only [Entry.resultCount, List.countP_eq_zero]
  intro b hb
  rw [BlockAssembler.blocks_plain w.chunks b hb id]
  simp

/-- The results of a step hold as many blocks for an id as calls have it, as tool results and as what enters next. -/
theorem StepWorld.answered_resultCount (w : StepWorld) (id : String) :
    (w.answered.map (Entry.resultCount id)).sum = (w.calls.map (·.id)).count id ∧
    ((entered (w.calls.map w.resultOf)).map (Entry.resultCount id)).sum = (w.calls.map (·.id)).count id := by
  simp only [StepWorld.answered, entered]
  induction w.calls with
  | nil => simp
  | cons call calls ih =>
    have hone : ∀ type, Entry.resultCount id ⟨type, w.resultOf call⟩ = if call.id = id then 1 else 0 := by
      intro type
      by_cases hid : call.id = id <;>
        simp [Entry.resultCount, StepWorld.resultOf, resultMessage, createUserMessage, ContentBlock.answers, hid]
    simp only [List.map_cons, List.sum_cons, hone, List.count_cons, beq_iff_eq]
    omega

/-- A session whose history can be made into a request derives messages. -/
theorem Loop.derives_of_ready {l : Loop} {s : Session} (h : l.ready s = .ok ()) : ∃ payloads, s.deriveMessages = .ok payloads := by
  unfold Loop.ready Loop.requestMessages at h
  cases hderive : s.deriveMessages with
  | error e => simp [hderive, Except.map] at h
  | ok payloads => exact ⟨payloads, rfl⟩

theorem StepWorld.RunsTools.ready {w : StepWorld} {l : Loop} {ready : Except Raised Unit} (h : w.RunsTools l ready) : ready = .ok () := by
  cases h.runs with | ranTools replies noCeiling called gathered
  have hreplied := replies.replied
  unfold StepWorld.reply at hreplied
  cases hrequest : w.request with
  | error e => simp [hrequest, bind, Except.bind] at hreplied
  | ok u =>
    cases ready with
    | error e => simp [hrequest, bind, Except.bind] at hreplied
    | ok u => rfl

theorem StepWorld.RunsTools.called {w : StepWorld} {l : Loop} {ready : Except Raised Unit} (h : w.RunsTools l ready) :
    w.calls ≠ [] := by
  cases h.runs with
  | ranTools replies noCeiling called gathered => exact called

theorem sum_eq_zero_iff (id : String) (claimed : List Message) :
    ((entered claimed).map (Entry.resultCount id)).sum = 0 ↔ ∀ m ∈ claimed, m.content.countP (ContentBlock.answers id) = 0 := by
  induction claimed with
  | nil => simp [entered]
  | cons m claimed ih =>
    simp only [entered, List.map_cons, List.sum_cons, Nat.add_eq_zero_iff, List.forall_mem_cons] at ih ⊢
    rw [ih]
    rfl

/-- The call ids of a turn that runs tools in its first step, and no others. -/
theorem Loop.callIds_runs (l : Loop) (claimed : List Message) (w : StepWorld) :
    (entered claimed ++ ⟨.assistantMessage, l.replyMessage w w.assembler⟩ :: w.answered).flatMap Entry.callIds =
      w.calls.map (·.id) := by
  have hentered : (entered claimed).flatMap Entry.callIds = [] := by simp [entered, Entry.callIds]
  have hanswered : w.answered.flatMap Entry.callIds = [] := by simp [StepWorld.answered, Entry.callIds]
  rw [List.flatMap_append, List.flatMap_cons, hentered, hanswered, reply_callIds, List.append_nil, List.nil_append]

/-! ## Delivered once -/

/-- A call of a turn that is answered in its first step: its id is among the turn's, and an event of the turn answers it. -/
theorem answered_of_runs {s s' : Session} {l : Loop} {claimed : List Message} {w : StepWorld} {rest : List Entry}
    (h : s.Tells s' (entered claimed ++ ⟨.assistantMessage, l.replyMessage w w.assembler⟩ :: w.answered ++ rest))
    {call : ToolCallBlock} (hcall : call ∈ w.calls) :
    call.id ∈ (s'.events.drop s.events.length).flatMap SessionEvent.callIds ∧
      ∃ e ∈ s'.events.drop s.events.length, e.answers call.id = true := by
  constructor
  · rw [h.callIds, List.flatMap_append, Loop.callIds_runs]
    exact List.mem_append_left _ (List.mem_map_of_mem hcall)
  · have hentry : (⟨.toolResult, w.resultOf call⟩ : Entry) ∈ w.answered := List.mem_map_of_mem hcall
    obtain ⟨e, he, hcarries, -, -⟩ := h.event_of_entry
      (List.mem_append_left rest (List.mem_append_right (entered claimed) (List.mem_cons_of_mem _ hentry)))
    exact ⟨e, he, by rw [hcarries.answers]; exact w.resultOf_answers call⟩

/-- How many result blocks for an id the derived messages hold after a turn that runs tools in its first step. -/
theorem resultCount_of_runs {s s' : Session} {l : Loop} {claimed : List Message} {w : StepWorld} {rest : List Entry}
    (hs : s.Tidy) (hruns : w.RunsTools l (l.ready s))
    (h : s.Tells s' (entered claimed ++ ⟨.assistantMessage, l.replyMessage w w.assembler⟩ :: w.answered ++ rest))
    (id : String) : s'.resultCount id = s.resultCount id + ((entered claimed).map (Entry.resultCount id)).sum +
      (w.calls.map (·.id)).count id + (rest.map (Entry.resultCount id)).sum := by
  obtain ⟨payloads, hderive⟩ := Loop.derives_of_ready hruns.ready
  rw [h.resultCount hs hderive]
  simp only [List.map_append, List.map_cons, List.sum_append, List.sum_cons, l.reply_resultCount, w.answered_resultCount id]
  omega

/-- For every run of a turn without a pre-step listener and with distinct tool-call ids, the derived messages hold exactly one
result block for each answered call of the turn if and only if no step follows a first step that runs its tools, and no result
block for its calls was there before. -/
theorem delivered_once_iff {l : Loop} (hothers : l.Quiet) {loadsText : String → Option (List (PyKey × PyValue))} {s : Session}
    (hs : s.Live loadsText) (turn : Nat) (claimed : List Message) (world : Nat → StepWorld) (hlisteners : NoPreStep world)
    (hdistinct : (((l.runTurn turn claimed world s).2.events.drop s.events.length).flatMap SessionEvent.callIds).Nodup) :
    (l.runTurn turn claimed world s).2.DeliveredOnce s.events.length ↔ l.ResultsOnce s claimed world := by
  have htells := hothers.runTurn_tells hs.tidy turn claimed world
  generalize (l.runTurn turn claimed world s).2 = s' at htells hdistinct
  unfold Session.DeliveredOnce
  rw [htells.callIds] at hdistinct ⊢
  by_cases hruns : 1 ≤ l.options.maxSteps ∧ (world 1).RunsTools l (l.ready s)
  · obtain ⟨hallowed, hruns⟩ := hruns
    obtain ⟨rest, hsaid, hlast, hagain⟩ := l.said_runs claimed hlisteners hallowed hruns
    rw [hsaid] at htells hdistinct ⊢
    have hcount := resultCount_of_runs hs.tidy hruns htells
    constructor
    · intro hdelivered _ _
      have hone : ∀ call ∈ (world 1).calls, s'.resultCount call.id = 1 := by
        intro call hcall
        obtain ⟨hid, hanswered⟩ := answered_of_runs htells hcall
        exact hdelivered call.id (htells.callIds ▸ hid) hanswered
      have hpos : ∀ call ∈ (world 1).calls, 0 < ((world 1).calls.map (·.id)).count call.id :=
        fun call hcall => List.count_pos_iff.mpr (List.mem_map_of_mem hcall)
      constructor
      · intro hsecond
        obtain ⟨more, rfl⟩ := hagain hsecond
        obtain ⟨call, hcall⟩ := List.exists_mem_of_ne_nil _ hruns.called
        have htotal := hcount call.id
        have hcalls := hpos call hcall
        rw [hone call hcall, List.map_append, List.sum_append, ((world 1).answered_resultCount call.id).2] at htotal
        omega
      · intro call hcall
        have htotal := hcount call.id
        have hcalls := hpos call hcall
        rw [hone call hcall] at htotal
        exact ⟨by omega, (sum_eq_zero_iff call.id claimed).mp (by omega)⟩
    · intro honce id hid _
      obtain ⟨hlastStep, hfresh⟩ := honce hallowed hruns
      obtain rfl := hlast hlastStep
      rw [List.append_nil, Loop.callIds_runs] at hid hdistinct
      obtain ⟨call, hcall, rfl⟩ := List.mem_map.mp hid
      obtain ⟨hbefore, hclaimed⟩ := hfresh call hcall
      rw [hcount, hbefore, (sum_eq_zero_iff call.id claimed).mpr hclaimed, List.count_eq_one_of_mem hdistinct hid]
      rfl
  · have hnone := l.said_no_result claimed hlisteners hruns
    constructor
    · intro _ hallowed hfirst
      exact absurd ⟨hallowed, hfirst⟩ hruns
    · rintro - id - ⟨e, he, hanswers⟩
      cases ht : e.type.isSurface with
      | false =>
        rw [SessionEvent.answers_logOnly ht] at hanswers
        cases hanswers
      | true =>
        obtain ⟨entry, hentry, hcarries⟩ := htells.entry_of_event he ht
        rw [hcarries.answers, Entry.answers, Bool.and_eq_true, decide_eq_true_eq] at hanswers
        exact absurd hanswers.1 (hnone entry hentry)

namespace OneTool

/-- A loop with the default options, and no other code. -/
def loop : Loop :=
  { options := { provider := "provider", model := "model" }
    sessionText := fun _ => "SessionError"
    payloadText := fun _ => "PayloadDecodeError"
    clock := fun _ => 0
    others := fun _ => [] }

theorem loop_quiet : loop.Quiet := ⟨by simp [loop], by simp [loop]⟩

/-- A step whose reply is one block, with the finish kind that ends it. -/
def replies (id : String) (block : ContentBlock) (kind : String) : StepWorld :=
  { chunks := [{ type := .blockEnd, block := some block }, { type := .finish, finish := some [(.str "kind", .str kind)] }]
    messageId := id
    outcome := fun _ => ⟨"ok", false⟩
    resultId := fun call => "result of " ++ call.id }

/-- A reply that calls one tool. -/
def asks (kind : String) : StepWorld := replies "a1" (.toolCall ⟨"c1", "echo", "\x7b\x7d"⟩) kind

/-- The tool runs, and the next reply ends the turn. -/
def toolTurn : Nat → StepWorld
  | 1 => asks "tool-calls"
  | _ => replies "a2" (.text "done") "stop"

/-- A new session. -/
def session : Session := Session.new "chat-1" { id := "chat-1" }

theorem session_live : session.Live (fun _ => none) := .create "chat-1" 0 none

/-- What the user says. -/
def go : List Message := [createUserMessage "m1" [.text "go"]]

end OneTool

open OneTool in
/-- A turn that may take one step, which runs a tool. -/
theorem delivered_once_iff_one_step :
    ({ loop with options := { loop.options with maxSteps := 1 } }.runTurn 1 go toolTurn session).2.DeliveredOnce 0 := by
  have hlisteners : NoPreStep toolTurn := by
    intro step
    unfold toolTurn
    split <;> rfl
  refine (delivered_once_iff (l := { loop with options := { loop.options with maxSteps := 1 } })
    ⟨loop_quiet.listeners, loop_quiet.others⟩ session_live 1 go toolTurn hlisteners (by decide +kernel)).mpr ?_
  refine fun _ _ => ⟨fun hsecond => absurd hsecond.allowed (by decide), fun call _ => ⟨rfl, ?_⟩⟩
  intro m hm
  rw [List.mem_singleton.mp hm]
  rfl

open OneTool in
/-- A turn that runs a tool and then takes a second step: its result is in the derived messages twice. -/
theorem delivered_twice : NoPreStep toolTurn ∧
    (loop.runTurn 1 go toolTurn session).2.events.flatMap SessionEvent.callIds = ["c1"] ∧
    (loop.runTurn 1 go toolTurn session).2.resultCount "c1" = 2 ∧
    ¬(loop.runTurn 1 go toolTurn session).2.DeliveredOnce 0 := by
  have hlisteners : NoPreStep toolTurn := by
    intro step
    unfold toolTurn
    split <;> rfl
  have htwice : (loop.runTurn 1 go toolTurn session).2.resultCount "c1" = 2 := by decide +kernel
  have hids : (loop.runTurn 1 go toolTurn session).2.events.flatMap SessionEvent.callIds = ["c1"] := by decide +kernel
  have hanswered : (loop.runTurn 1 go toolTurn session).2.events.any (fun e => e.answers "c1") = true := by decide +kernel
  refine ⟨hlisteners, hids, htwice, fun honce => ?_⟩
  have hone := honce "c1" (by rw [List.drop_zero, hids]; exact List.mem_singleton.mpr rfl)
    (List.any_eq_true.mp hanswered)
  rw [htwice] at hone
  cases hone

end Pydsh
