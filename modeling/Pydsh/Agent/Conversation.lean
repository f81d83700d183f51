import Pydsh.Agent.Parts
import Pydsh.Persistence.Sqlite
import Pydsh.Session.Calls

/-!
# What a turn says

The conversation of a turn, without the session: `stepSaid` and `turnSaid` give the messages that a step and a turn put on the
surface, as a function of what the steps meet outside, of the pending input and of whether the session's history can be made
into a request. `steps_says` and `runTurn_tells` connect it to the loop: a turn adds to the session what it says, and nothing
else to the surface, whatever other code appends in between.
-/

namespace Pydsh

open Effect (Does)

/-! ## The conversation -/

/-- The messages that enter, as entries. -/
def entered (messages : List Message) : List Entry := messages.map (fun m => ⟨.userMessage, m⟩)

/-- The results of a step, as entries. -/
def StepWorld.answered (w : StepWorld) : List Entry := w.calls.map (fun call => ⟨.toolResult, w.resultOf call⟩)

namespace Loop

variable (l : Loop)

/-- What a step that has its reply says, and how it ends. -/
def replySaid (w : StepWorld) : List Entry × Except Raised (Option PyValue × List Message) :=
  let said : Entry := ⟨.assistantMessage, l.replyMessage w w.assembler⟩
  if w.assembler.finishKind = some "error" then ([], .ok (some (.dict w.assembler.finish), []))
  else
    match w.recorded l with
    | .error e => ([], .error e)
    | .ok () =>
      if w.assembler.finishKind = some "max-tokens" then ([said], .ok (some (reasonOf "max-tokens"), []))
      else if w.calls.isEmpty then ([said], .ok (some (reasonOf "completed"), []))
      else
        match w.gathered with
        | .error e => ([said], .error e)
        | .ok () => (said :: w.answered, .ok (none, w.calls.map w.resultOf))

/-- What a step says, and how it ends. -/
def stepSaid (ready : Except Raised Unit) (w : StepWorld) : List Entry × Except Raised (Option PyValue × List Message) :=
  match w.reply l ready with
  | .error e => ([], .error e)
  | .ok () => l.replySaid w

/-- What a turn says from its step number `step` on, with the steps that remain, and how its loop ends. -/
def turnSaid (ready : Except Raised Unit) (world : Nat → StepWorld) : Nat → Nat → List Message →
    List Entry × Except Raised PyValue
  | 0, step, _ =>
    match (world step).abortedBefore with
    | some reason => ([], .error (.cancelled reason))
    | none => ([], .ok (reasonOf "max-steps"))
  | remaining + 1, step, pending =>
    match (world step).abortedBefore with
    | some reason => ([], .error (.cancelled reason))
    | none =>
      match (world step).entering pending with
      | .error e => ([], .error e)
      | .ok none => ([], .ok (reasonOf "blocked"))
      | .ok (some messages) =>
        match (world step).appended with
        | .error e => (entered messages, .error e)
        | .ok () =>
          match l.stepSaid ready (world step) with
          | (said, .error e) => (entered messages ++ said, .error e)
          | (said, .ok (reason, results)) =>
            match (world step).abortedAfter with
            | some reason => (entered messages ++ said, .error (.cancelled reason))
            | none =>
              match reason with
              | some reason => (entered messages ++ said, .ok reason)
              | none =>
                let rest := turnSaid ready world remaining (step + 1) results
                (entered messages ++ said ++ rest.1, rest.2)

/-- What a whole turn says. -/
def said (s : Session) (claimed : List Message) (world : Nat → StepWorld) : List Entry :=
  (l.turnSaid (l.ready s) world l.options.maxSteps.toNat 1 claimed).1

end Loop

/-! ## Steps that run their tools -/

/-- The signal is not aborted before the step, and its input enters. -/
structure StepWorld.Enters (w : StepWorld) : Prop where
  live : w.abortedBefore = none
  decided : w.decision = .ok .noOpinion ∨ ∃ messages, w.decision = .ok (.enter messages)
  entered : w.appended = .ok ()

/-- The step enters, has its reply, and runs the tools the reply asks for. -/
structure StepWorld.RunsTools (w : StepWorld) (l : Loop) (ready : Except Raised Unit) : Prop where
  enters : w.Enters
  runs : w.Ends l ready .ranTools

/-- The step runs its tools, and the signal is not aborted after it: the loop goes on to the next step. -/
structure StepWorld.GoesOn (w : StepWorld) (l : Loop) (ready : Except Raised Unit) : Prop extends w.RunsTools l ready where
  liveAfter : w.abortedAfter = none

theorem StepWorld.resultOf_answers (w : StepWorld) (call : ToolCallBlock) :
    Entry.answers call.id ⟨.toolResult, w.resultOf call⟩ = true := by
  simp [Entry.answers, StepWorld.resultOf, resultMessage, createUserMessage, ContentBlock.answers]

namespace Loop

variable (l : Loop)

theorem reply_callIds (w : StepWorld) :
    (⟨.assistantMessage, l.replyMessage w w.assembler⟩ : Entry).callIds = w.calls.map (·.id) := by
  simp [Entry.callIds, Loop.replyMessage, createAssistantMessage, StepWorld.calls, BlockAssembler.toolCalls]

theorem stepSaid_of_ends {ready : Except Raised Unit} {w : StepWorld} {ended : StepEnd} (h : w.Ends l ready ended) :
    l.stepSaid ready w =
      (ended.told [⟨.assistantMessage, l.replyMessage w w.assembler⟩] w.answered, ended.result w) := by
  unfold Loop.stepSaid Loop.replySaid
  cases h with
  | unreplied raised => simp only [raised, StepEnd.told, StepEnd.result]
  | errorFinish replied error => simp only [replied, if_pos error, StepEnd.told, StepEnd.result]
  | unrecorded replied noError refused => simp only [replied, if_neg noError, refused, StepEnd.told, StepEnd.result]
  | maxTokens replies ceiling =>
    simp only [replies.replied, if_neg replies.noError, replies.recorded, if_pos ceiling, StepEnd.told, StepEnd.result]
  | completed replies noCeiling uncalled =>
    simp only [replies.replied, if_neg replies.noError, replies.recorded, if_neg noCeiling, uncalled, List.isEmpty_nil,
      StepEnd.told, StepEnd.result]
    rfl
  | toolsRaised replies noCeiling called raised =>
    have hcalls : w.calls.isEmpty = false := by simpa using called
    simp [replies.replied, replies.noError, replies.recorded, noCeiling, hcalls, raised, StepEnd.told, StepEnd.result]
  | ranTools replies noCeiling called gathered =>
    have hcalls : w.calls.isEmpty = false := by simpa using called
    simp [replies.replied, replies.noError, replies.recorded, noCeiling, hcalls, gathered, StepEnd.told, StepEnd.result]

/-- A step that ends without a reason for the turn to end has run its tools, and carries their results in. -/
theorem stepSaid_eq_none {ready : Except Raised Unit} {w : StepWorld} {said : List Entry} {results : List Message}
    (h : l.stepSaid ready w = (said, .ok (none, results))) :
    w.Ends l ready .ranTools ∧ said = ⟨.assistantMessage, l.replyMessage w w.assembler⟩ :: w.answered ∧
      results = w.calls.map w.resultOf := by
  obtain ⟨ended, hends⟩ := w.exists_ends l ready
  rw [l.stepSaid_of_ends hends] at h
  cases ended <;> cases h
  exact ⟨hends, rfl, rfl⟩

theorem entering_eq_some {w : StepWorld} {pending messages : List Message} (h : w.entering pending = .ok (some messages)) :
    w.decision = .ok .noOpinion ∧ messages = pending ∨ w.decision = .ok (.enter messages) := by
  unfold StepWorld.entering at h
  cases hdecision : w.decision with
  | error e => simp [hdecision, Except.map] at h
  | ok decision =>
    cases decision with
    | reject => simp [hdecision, Except.map] at h
    | enter entering =>
      simp only [hdecision, Except.map, Except.ok.injEq, Option.some.injEq] at h
      exact Or.inr (by rw [h])
    | noOpinion =>
      simp only [hdecision, Except.map, Except.ok.injEq, Option.some.injEq] at h
      exact Or.inl ⟨rfl, h.symm⟩

end Loop

/-! ## The session tells what was said -/

theorem Session.Live.tidy {loadsText : String → Option (List (PyKey × PyValue))} {s : Session} (h : s.Live loadsText) :
    s.Tidy := by
  induction h with
  | create id createdAt cwd => simp [Session.Tidy, Session.new]
  | resume db id s hload =>
    obtain ⟨header, -, hseed⟩ := load_eq_some_iff.mp hload
    exact Session.Tidy.seedAll (by simp [Session.Tidy, Session.new]) hseed
  | append c _ ih => exact ih.append c
  | setRequest request _ ih => exact ih

theorem Session.Tidy.appends {s : Session} (hs : s.Tidy) (calls : List AppendCall) : (s.appends calls).Tidy := by
  unfold Session.appends
  induction calls generalizing s with
  | nil => exact hs
  | cons c calls ih => exact ih (hs.append c)

/-- Other code appends no message during a turn. -/
structure Loop.Quiet (l : Loop) : Prop where
  listeners : ∀ seq, ∀ c ∈ l.listeners seq, c.eventType.isSurface = false
  others : ∀ seq, ∀ c ∈ l.others seq, c.eventType.isSurface = false

/-- From the session the code ends with the result, and puts the entries on the surface. -/
abbrev Says {α : Type} (m : LoopM α) (s : Session) (r : Except Raised α) (said : List Entry) : Prop :=
  Does Session.Tells m s r said

theorem Session.Tells.appends_logOnly (s : Session) {calls : List AppendCall}
    (h : ∀ c ∈ calls, c.eventType.isSurface = false) : s.Tells (s.appends calls) [] := by
  unfold Session.appends
  induction calls generalizing s with
  | nil => exact .refl s
  | cons c calls ih =>
    have hrest := ih (s.append c).2 (fun c' hc' => h c' (List.mem_cons_of_mem c hc'))
    exact (Session.Tells.append_other s (h c List.mem_cons_self)).trans hrest

theorem Session.telling : Effect.Telling Session.Tells := ⟨.refl, .trans⟩

namespace Loop

theorem setRequest_tells (l : Loop) (s : Session) : s.Tells (l.setRequest s) [] :=
  ⟨[], ⟨by simp [Loop.setRequest], by simp [Loop.setRequest], .nil, by simp, Nat.le_refl _⟩, .nil⟩

/-- A record of parsed values and one more value is appended as that value is. -/
theorem decodeList_messages (payloads : List Json) (ms : List Message) :
    decodeList (payloads ++ ms.map Message.toJson) = (decodeList payloads).map (fun vs => vs ++ ms.map Message.toPy) := by
  induction payloads with
  | nil =>
    induction ms with
    | nil => rfl
    | cons m ms ih =>
      simp only [List.nil_append, List.map_cons] at ih ⊢
      simp only [decodeList, decodePayload_message, ih]
      rfl
  | cons payload payloads ih =>
    simp only [List.cons_append, decodeList, ih]
    cases decodePayload payload with
    | error e => rfl
    | ok v => cases decodeList payloads <;> rfl

/-- Whether the history can be made into a request does not depend on what a turn says. -/
theorem ready_tells (l : Loop) {s s' : Session} {entries : List Entry} (hs : s.Tidy) (h : s.Tells s' entries) : l.ready s' = l.ready s := by
  have hmap : entries.map (·.message.toJson) = (entries.map (·.message)).map Message.toJson := by simp
  unfold Loop.ready Loop.requestMessages
  rw [h.deriveMessages hs, hmap]
  cases s.deriveMessages with
  | error e => rfl
  | ok payloads =>
    simp only [Except.map, decodeList_messages]
    cases decodeList payloads <;> rfl

end Loop

namespace Loop.Quiet

variable {l : Loop} (hl : l.Quiet) {turn step : Nat} {w : StepWorld}

include hl

theorem interleave_tells (s : Session) : s.Tells (l.interleave s) [] := .appends_logOnly s (hl.others s.seq)

theorem listen_tells (s : Session) : s.Tells (l.listen s) [] := .appends_logOnly s (hl.listeners s.seq)

/-- A log-only event of the loop: nothing is said, whether it is appended or refused. -/
theorem write_logOnly (s : Session) {type : EventType} (hknown : type.isKnown = true) (hlog : type.isSurface = false)
    (data : PyValue) : Says (l.write type data) s (l.gate data) [] := by
  have htells := (hl.interleave_tells s).trans (Session.Tells.append_other (l.interleave s)
    (c := { eventType := type, data, time := l.clock (l.interleave s).seq }) hlog)
  exact ⟨_, Prod.ext (l.write_fst s hknown data) (l.write_snd s type data), htells⟩

theorem reports : l.Reports Session.Tells where
  telling := Session.telling
  listens := hl.listen_tells
  routes := l.setRequest_tells
  chunk s data := hl.write_logOnly s rfl rfl data

theorem write_refused (s : Session) {type : EventType} (hknown : type.isKnown = true) {data : PyValue} {e : Raised}
    (h : l.gate data = .error e) : Says (l.write type data) s (.error e) [] :=
  ⟨l.interleave s, l.write_of_refused s hknown h, hl.interleave_tells s⟩

/-- A log-only event of the loop whose data is made of parsed values. -/
theorem write_plain (s : Session) {type : EventType} (hknown : type.isKnown = true) (hlog : type.isSurface = false)
    (j : Json) : Says (l.write type j.loads) s (.ok ()) [] :=
  l.gate_loads j ▸ hl.write_logOnly s hknown hlog j.loads

theorem write_surface (s : Session) {type : EventType} (hsurface : type.isSurface = true) {j : Json} {m : Message}
    (hm : ∀ e : SessionEvent, e.type = type → e.data = j → deriveEventMessage e = .ok m.toJson) :
    Says (l.write type j.loads) s (.ok ()) [⟨type, m⟩] := by
  obtain ⟨e, s', happ, htells⟩ := Session.Tells.append_surface (l.interleave s)
    (c := { eventType := type, data := j.loads, time := l.clock (l.interleave s).seq }) rfl hsurface rfl hm
  refine ⟨s', ?_, (hl.interleave_tells s).trans htells⟩
  simp only [Loop.write, happ]

/-! ## The parts of a step -/

theorem writeResults_says (s : Session) (calls : List ToolCallBlock) :
    Says (l.writeResults turn step w calls) s (.ok (calls.map w.resultOf))
      (calls.map (fun call => ⟨.toolResult, w.resultOf call⟩)) := by
  induction calls generalizing s with
  | nil => exact .pure Session.telling _
  | cons call calls ih =>
    refine .after Session.telling (hl.write_plain s rfl rfl _) (fun s₁ _ => ?_)
    have hwrite : Says (l.write .toolResult (Json.obj [("turn", .int turn), ("step", .int step),
        ("message", (w.resultOf call).toJson), ("error", .bool (w.outcome call).isError), ("meta", .null)]).loads) s₁ (.ok ())
        [⟨.toolResult, w.resultOf call⟩] := by
      refine hl.write_surface s₁ rfl (fun e htype hdata => ?_)
      simp [deriveEventMessage, htype, hdata]
    exact .bind Session.telling hwrite (fun s₂ _ => .returns Session.telling (ih s₂) rfl)

/-- The tool phase, where it returns: every call is answered, in call order. -/
theorem executeToolCalls_says (s : Session) (h : w.gathered = .ok ()) (calls : List ToolCallBlock) :
    Says (l.executeToolCalls turn step w calls) s (.ok (calls.map w.resultOf))
      (calls.map (fun call => ⟨.toolResult, w.resultOf call⟩)) :=
  .of_ok h (hl.writeResults_says s calls)

/-- The reply goes onto the surface where its usage passes the gate. -/
theorem writeReply_says (turn step : Nat) (s : Session) (h : w.recorded l = .ok ()) :
    Says (l.write .assistantMessage (l.replyData turn step w w.assembler)) s (.ok ())
      [⟨.assistantMessage, l.replyMessage w w.assembler⟩] := by
  obtain ⟨usage, husage⟩ := l.gate_eq_ok_iff.mp h
  unfold Loop.replyData
  rw [encodePayload_message, husage]
  have hwrite : Says (l.write .assistantMessage (Json.obj [("turn", .int turn), ("step", .int step),
      ("message", (l.replyMessage w w.assembler).toJson), ("usage", usage)]).loads) s (.ok ())
      [⟨.assistantMessage, l.replyMessage w w.assembler⟩] := by
    refine hl.write_surface s rfl (fun e htype hdata => ?_)
    simp [deriveEventMessage, htype, hdata]
  exact hwrite

/-- A step on a session whose history can or cannot be made into a request. -/
theorem runStep_says {s : Session} (hs : s.Tidy) :
    Says (l.runStep turn step w) s (l.stepSaid (l.ready s) w).2 (l.stepSaid (l.ready s) w).1 := by
  obtain ⟨ended, hends⟩ := w.exists_ends l (l.ready s)
  rw [l.stepSaid_of_ends hends]
  refine hl.reports.endedStep_does (l.ready_tells hs (hl.listen_tells s) ▸ hends) (fun h s' => hl.writeReply_says turn step s' h)
    (fun e h s' => hl.write_refused s' rfl ((l.gate_reply turn step w).trans h))
    (fun h s' => hl.executeToolCalls_says s' h w.calls)

/-! ## A turn -/

theorem enter_says (s : Session) (messages : List Message) :
    Says (l.enter messages) s (.ok ()) (entered messages) := by
  induction messages generalizing s with
  | nil => exact .pure Session.telling ()
  | cons m messages ih =>
    have hwrite : Says (l.write .userMessage m.toJson.loads) s (.ok ()) [⟨.userMessage, m⟩] := by
      refine hl.write_surface s rfl (fun e htype hdata => ?_)
      simp [deriveEventMessage, htype, hdata]
    exact .bind Session.telling hwrite (fun s₁ _ => ih s₁)

/-- A step with its `step/end`, which comes however the step ends. -/
theorem closedStep_says (turn step : Nat) (w : StepWorld) {s : Session} (hs : s.Tidy) :
    Says (Effect.ensure (l.runStep turn step w)
      (l.write .stepEnd (Json.obj [("turn", .int turn), ("step", .int step)]).loads)) s
      (l.stepSaid (l.ready s) w).2 (l.stepSaid (l.ready s) w).1 := by
  have hend : ∀ s₁, s.Tells s₁ (l.stepSaid (l.ready s) w).1 →
      Says (l.write .stepEnd (Json.obj [("turn", .int turn), ("step", .int step)]).loads) s₁ (.ok ()) [] :=
    fun s₁ _ => hl.write_plain s₁ rfl rfl _
  simpa using (hl.runStep_says hs).ensure Session.telling hend

theorem enteredStep_raises {s : Session} (hs : s.Tidy) {messages : List Message}
    {f : Option PyValue × List Message → LoopM PyValue} {said : List Entry} {e : Raised}
    (hsaid : l.stepSaid (l.ready s) w = (said, .error e)) : Says (do
      l.enter messages
      Effect.result (.ok ())
      l.write .stepStart (Json.obj [("turn", .int turn), ("step", .int step)]).loads
      let ended ← Effect.ensure (l.runStep turn step w)
        (l.write .stepEnd (Json.obj [("turn", .int turn), ("step", .int step)]).loads)
      f ended) s (.error e) (entered messages ++ said) := by
  refine .bind Session.telling (hl.enter_says s messages) (fun s₁ htells₁ => ?_)
  refine .of_ok rfl ?_
  refine .after Session.telling (hl.write_plain s₁ rfl rfl _) (fun s₂ htells₂ => ?_)
  have hclosed := hl.closedStep_says turn step w (htells₂.tidy (htells₁.tidy hs))
  rw [l.ready_tells (htells₁.tidy hs) htells₂, l.ready_tells hs htells₁, hsaid] at hclosed
  exact .bind_error hclosed

/-- What follows a step that returns runs in a session that tells what entered and what the step said. -/
theorem enteredStep_returns {s : Session} (hs : s.Tidy) {messages : List Message}
    {f : Option PyValue × List Message → LoopM PyValue} {said rest : List Entry} {ended : Option PyValue × List Message}
    {r : Except Raised PyValue} (hsaid : l.stepSaid (l.ready s) w = (said, .ok ended))
    (hf : ∀ s', s.Tells s' (entered messages ++ said) → Says (f ended) s' r rest) : Says (do
      l.enter messages
      Effect.result (.ok ())
      l.write .stepStart (Json.obj [("turn", .int turn), ("step", .int step)]).loads
      let ended ← Effect.ensure (l.runStep turn step w)
        (l.write .stepEnd (Json.obj [("turn", .int turn), ("step", .int step)]).loads)
      f ended) s r (entered messages ++ said ++ rest) := by
  rw [List.append_assoc]
  refine .bind Session.telling (hl.enter_says s messages) (fun s₁ htells₁ => ?_)
  refine .of_ok rfl ?_
  refine .after Session.telling (hl.write_plain s₁ rfl rfl _) (fun s₂ htells₂ => ?_)
  have hclosed := hl.closedStep_says turn step w (htells₂.tidy (htells₁.tidy hs))
  rw [l.ready_tells (htells₁.tidy hs) htells₂, l.ready_tells hs htells₁, hsaid] at hclosed
  refine .bind Session.telling hclosed (fun s₃ htells₃ => hf s₃ ?_)
  simpa using htells₁.trans (htells₂.trans htells₃)

/-- What follows a step that returns, where it says nothing itself. -/
theorem enteredStep_ends {s : Session} (hs : s.Tidy) {messages : List Message}
    {f : Option PyValue × List Message → LoopM PyValue} {said : List Entry} {ended : Option PyValue × List Message}
    {r : Except Raised PyValue} (hsaid : l.stepSaid (l.ready s) w = (said, .ok ended)) (hf : ∀ s', Says (f ended) s' r []) :
    Says (do
      l.enter messages
      Effect.result (.ok ())
      l.write .stepStart (Json.obj [("turn", .int turn), ("step", .int step)]).loads
      let ended ← Effect.ensure (l.runStep turn step w)
        (l.write .stepEnd (Json.obj [("turn", .int turn), ("step", .int step)]).loads)
      f ended) s r (entered messages ++ said) := by
  have hends : ∀ s', s.Tells s' (entered messages ++ said) → Says (f ended) s' r [] := fun s' _ => hf s'
  simpa using hl.enteredStep_returns hs hsaid hends

theorem steps_says (turn : Nat) {ready : Except Raised Unit} (world : Nat → StepWorld) (remaining step : Nat)
    (pending : List Message) {s : Session} (hs : s.Tidy) (hready : l.ready s = ready) :
    Says (l.steps turn world remaining step pending) s (l.turnSaid ready world remaining step pending).2
      (l.turnSaid ready world remaining step pending).1 := by
  induction remaining generalizing step pending s with
  | zero =>
    unfold Loop.steps Loop.turnSaid
    cases (world step).abortedBefore with
    | some reason => exact .bind_error (hl.reports.throwIfAborted_some s reason)
    | none => exact .returns Session.telling (hl.reports.throwIfAborted_none s) rfl
  | succ remaining ih =>
    unfold Loop.steps Loop.turnSaid
    cases (world step).abortedBefore with
    | some reason => exact .bind_error (hl.reports.throwIfAborted_some s reason)
    | none =>
      refine .after Session.telling (hl.reports.throwIfAborted_none s) (fun s₁ htells₁ => ?_)
      have hdecision := hl.reports.preStep_does (w := world step) s₁ pending
      cases hentering : (world step).entering pending with
      | error e =>
        rw [hentering] at hdecision
        exact .bind_error hdecision
      | ok entering =>
        rw [hentering] at hdecision
        refine .after Session.telling hdecision (fun s₂ htells₂ => ?_)
        cases entering with
        | none => exact .pure Session.telling _
        | some messages =>
          have htidy : s₂.Tidy := htells₂.tidy (htells₁.tidy hs)
          have hready₂ : l.ready s₂ = ready :=
            ((l.ready_tells (htells₁.tidy hs) htells₂).trans (l.ready_tells hs htells₁)).trans hready
          subst hready₂
          cases hentered : (world step).appended with
          | error e =>
            exact .raises Session.telling (hl.enter_says s₂ messages) (fun s₃ => .of_error Session.telling rfl)
          | ok u =>
            rcases hsaid : l.stepSaid (l.ready s₂) (world step) with ⟨said, e | ⟨reason, results⟩⟩
            · exact hl.enteredStep_raises htidy hsaid
            · cases (world step).abortedAfter with
              | some cause =>
                refine hl.enteredStep_ends htidy hsaid (fun s₃ => ?_)
                exact .bind_error (hl.reports.throwIfAborted_some s₃ cause)
              | none =>
                cases reason with
                | some reason =>
                  refine hl.enteredStep_ends htidy hsaid (fun s₃ => ?_)
                  exact .returns Session.telling (hl.reports.throwIfAborted_none s₃) rfl
                | none =>
                  refine hl.enteredStep_returns htidy hsaid (fun s₃ htells₃ => ?_)
                  refine .after Session.telling (hl.reports.throwIfAborted_none s₃) (fun s₄ htells₄ => ?_)
                  have htidy₃ := htells₃.tidy htidy
                  exact ih _ _ (htells₄.tidy htidy₃) ((l.ready_tells htidy₃ htells₄).trans (l.ready_tells htidy htells₃))

/-- The end of a turn says nothing, whether its `turn/end` is written or refused. -/
theorem closeTurn_tells (turn : Nat) (s : Session) (ended : Except Raised PyValue) : s.Tells (l.closeTurn turn ended s).2 [] := by
  have hend : ∀ reason, s.Tells (l.endTurn turn reason s).2 [] := fun _ => (hl.write_logOnly s rfl rfl _).told
  cases ended with
  | ok reason => exact hend _
  | error e =>
    cases e with
    | cancelled reason => exact hend _
    | failed error => exact Effect.state_raise_after (l.endTurn turn _) (Raised.failed error) s ▸ hend _
    | base => exact Effect.state_raise_after (l.endTurn turn _) Raised.base s ▸ hend _

theorem runTurn_tells {s : Session} (hs : s.Tidy) (turn : Nat) (claimed : List Message) (world : Nat → StepWorld) :
    s.Tells (l.runTurn turn claimed world s).2 (l.said s claimed world) := by
  have hstart : Says (l.write .turnStart (Json.obj [("turn", .int turn)]).loads) s (.ok ()) [] :=
    hl.write_plain s rfl rfl _
  refine Does.told_bind Session.telling hstart (fun s₁ htells₁ => ?_)
  have hsteps := hl.steps_says turn world l.options.maxSteps.toNat 1 claimed (htells₁.tidy hs) (l.ready_tells hs htells₁)
  have hclosed := hsteps.attempt.told_bind Session.telling (fun s₂ _ => hl.closeTurn_tells turn s₂ _)
  rwa [List.append_nil] at hclosed

end Loop.Quiet

end Pydsh
