import Pydsh.Agent.Loop
import Pydsh.Session.Append

/-!
# What the parts of a step do

A step's parts up to its end, for any reading of what the loop appends: `Loop.Reports` says of a reading that the parts that run
before the reply tell nothing in it. `StepEnd` names the ways a step ends, `StepWorld.Ends` says which of them the world of a
step leads to, and `runStep_does` that the code of the step ends in that way, in every reading.
-/

namespace Pydsh

open Effect (Does)

/-! ## How a step ends -/

/-- The assembler of a step's last attempt, finalized. -/
def StepWorld.assembler (w : StepWorld) : BlockAssembler := (w.chunks.foldl BlockAssembler.push {}).finalize

/-- The tool calls of a step's reply. -/
def StepWorld.calls (w : StepWorld) : List ToolCallBlock := w.assembler.toolCalls

/-- The result message of a call. -/
def StepWorld.resultOf (w : StepWorld) (call : ToolCallBlock) : Message :=
  resultMessage (w.resultId call) call (w.outcome call)

/-- How an append of data to a session ends. -/
def Loop.gate (l : Loop) (data : PyValue) : Except Raised Unit :=
  match validateLosslessJson data with
  | .ok _ => .ok ()
  | .error e => .error (.failed (l.sessionText e))

/-- How the appends of some frames end. -/
def Loop.accepts (l : Loop) : List StreamChunk → Except Raised Unit
  | [] => .ok ()
  | chunk :: chunks => do
    l.gate (encodePayload chunk.toPy)
    Loop.accepts l chunks

/-- How building the request from a session ends, up to the messages. -/
def Loop.ready (l : Loop) (s : Session) : Except Raised Unit := (l.requestMessages s).map (fun _ => ())

/-- How the stream of a step ends, with the attempts that are retried. -/
def StepWorld.streams (w : StepWorld) (l : Loop) (retried : List (List StreamChunk)) : Except Raised Unit := do
  l.accepts retried.flatten
  l.accepts w.chunks
  w.streamed

/-- How a step ends up to its reply, where `ready` is how its request is built. -/
def StepWorld.reply (w : StepWorld) (l : Loop) (ready : Except Raised Unit) : Except Raised Unit := do
  w.request
  ready
  w.prompt
  w.streams l w.retried

/-- How the append of the reply ends: its message always passes the gate, its usage may not. -/
def StepWorld.recorded (w : StepWorld) (l : Loop) : Except Raised Unit := l.gate (optPy .dict w.assembler.usage)

/-- How the messages that enter are decided. -/
def StepWorld.entering (w : StepWorld) (pending : List Message) : Except Raised (Option (List Message)) :=
  w.decision.map (fun decision =>
    match decision with
    | .reject => none
    | .enter messages => some messages
    | .noOpinion => some pending)

/-- The ways a step ends. -/
inductive StepEnd where
  | unreplied (e : Raised)
  | errorFinish
  | unrecorded (e : Raised)
  | maxTokens
  | completed
  | toolsRaised (e : Raised)
  | ranTools

/-- The step appends its reply. -/
structure StepWorld.Replies (w : StepWorld) (l : Loop) (ready : Except Raised Unit) : Prop where
  replied : w.reply l ready = .ok ()
  noError : w.assembler.finishKind ≠ some "error"
  recorded : w.recorded l = .ok ()

/-- The way the step ends, where `ready` is how its request is built. -/
inductive StepWorld.Ends (w : StepWorld) (l : Loop) (ready : Except Raised Unit) : StepEnd → Prop where
  | unreplied {e : Raised} (raised : w.reply l ready = .error e) : w.Ends l ready (.unreplied e)
  | errorFinish (replied : w.reply l ready = .ok ()) (error : w.assembler.finishKind = some "error") : w.Ends l ready .errorFinish
  | unrecorded {e : Raised} (replied : w.reply l ready = .ok ()) (noError : w.assembler.finishKind ≠ some "error")
      (refused : w.recorded l = .error e) : w.Ends l ready (.unrecorded e)
  | maxTokens (replies : w.Replies l ready) (ceiling : w.assembler.finishKind = some "max-tokens") : w.Ends l ready .maxTokens
  | completed (replies : w.Replies l ready) (noCeiling : w.assembler.finishKind ≠ some "max-tokens") (uncalled : w.calls = []) :
      w.Ends l ready .completed
  | toolsRaised {e : Raised} (replies : w.Replies l ready) (noCeiling : w.assembler.finishKind ≠ some "max-tokens")
      (called : w.calls ≠ []) (raised : w.gathered = .error e) : w.Ends l ready (.toolsRaised e)
  | ranTools (replies : w.Replies l ready) (noCeiling : w.assembler.finishKind ≠ some "max-tokens") (called : w.calls ≠ [])
      (gathered : w.gathered = .ok ()) : w.Ends l ready .ranTools

/-- What the step returns or raises. -/
def StepEnd.result (w : StepWorld) : StepEnd → Except Raised (Option PyValue × List Message)
  | .unreplied e | .unrecorded e | .toolsRaised e => .error e
  | .errorFinish => .ok (some (.dict w.assembler.finish), [])
  | .maxTokens => .ok (some (reasonOf "max-tokens"), [])
  | .completed => .ok (some (reasonOf "completed"), [])
  | .ranTools => .ok (none, w.calls.map w.resultOf)

/-- What the step tells, where the reply and the results of the tools are told so. -/
def StepEnd.told {τ : Type} (reply results : List τ) : StepEnd → List τ
  | .unreplied _ | .errorFinish | .unrecorded _ => []
  | .maxTokens | .completed | .toolsRaised _ => reply
  | .ranTools => reply ++ results

theorem StepWorld.exists_ends (w : StepWorld) (l : Loop) (ready : Except Raised Unit) : ∃ ended, w.Ends l ready ended := by
  cases hreply : w.reply l ready with
  | error e => exact ⟨_, .unreplied hreply⟩
  | ok u =>
    by_cases herror : w.assembler.finishKind = some "error"
    · exact ⟨_, .errorFinish hreply herror⟩
    · cases hrecorded : w.recorded l with
      | error e => exact ⟨_, .unrecorded hreply herror hrecorded⟩
      | ok u =>
        have hreplies : w.Replies l ready := ⟨hreply, herror, hrecorded⟩
        by_cases hmax : w.assembler.finishKind = some "max-tokens"
        · exact ⟨_, .maxTokens hreplies hmax⟩
        · by_cases hcalls : w.calls = []
          · exact ⟨_, .completed hreplies hmax hcalls⟩
          · cases hgathered : w.gathered with
            | error e => exact ⟨_, .toolsRaised hreplies hmax hcalls hgathered⟩
            | ok u => exact ⟨_, .ranTools hreplies hmax hcalls hgathered⟩

/-! ## The gate -/

namespace Loop

variable (l : Loop)

/-- A record of parsed values and one more value is appended as that value is. -/
theorem gate_record (kvs : List (String × Json)) (k : String) (v : PyValue) :
    l.gate (.record (kvs.map (fun kv => (kv.1, kv.2.loads)) ++ [(k, v)])) = l.gate v := by
  unfold Loop.gate
  rw [validateLosslessJson_record]
  cases validateLosslessJson v <;> rfl

theorem gate_loads (j : Json) : l.gate j.loads = .ok () := by
  simp only [Loop.gate, validateLosslessJson_loads]

theorem gate_eq_ok_iff {v : PyValue} : l.gate v = .ok () ↔ ∃ j : Json, v = j.loads := by
  constructor
  · intro h
    unfold Loop.gate at h
    cases hv : validateLosslessJson v with
    | error e => simp [hv] at h
    | ok j => exact ⟨j, (validateLosslessJson_eq_ok_iff v j).mp hv⟩
  · rintro ⟨j, rfl⟩
    exact l.gate_loads j

theorem gate_reply (turn step : Nat) (w : StepWorld) : l.gate (l.replyData turn step w w.assembler) = w.recorded l := by
  unfold Loop.replyData
  rw [encodePayload_message]
  exact l.gate_record [("turn", .int turn), ("step", .int step), ("message", (l.replyMessage w w.assembler).toJson)] "usage" _

theorem accepts_append (xs ys : List StreamChunk) : l.accepts (xs ++ ys) = (do l.accepts xs; l.accepts ys) := by
  induction xs with
  | nil => rfl
  | cons chunk xs ih =>
    simp only [List.cons_append, Loop.accepts, ih]
    cases l.gate (encodePayload chunk.toPy) <;> rfl

theorem pushAll_cons (turn step : Nat) (a : BlockAssembler) (chunk : StreamChunk) (chunks : List StreamChunk) :
    l.pushAll turn step a (chunk :: chunks) =
      l.write .assistantChunk (.record [("turn", .int turn), ("step", .int step), ("chunk", encodePayload chunk.toPy)]) >>=
        fun _ => l.pushAll turn step (a.push chunk) chunks := rfl

/-- The loop's append of an event ends as the gate does, whatever other code appends before it. -/
theorem write_fst (s : Session) {type : EventType} (hknown : type.isKnown = true) (data : PyValue) :
    (l.write type data s).1 = l.gate data := by
  simp only [Loop.write, Session.append, SurfaceOp.isReplace_text, hknown, Loop.gate]
  cases validateLosslessJson data <;> cases type.isSurface <;> rfl

/-- An append the gate refuses leaves the session to other code. -/
theorem write_of_refused (s : Session) {type : EventType} (hknown : type.isKnown = true) {data : PyValue} {e : Raised}
    (h : l.gate data = .error e) : l.write type data s = (.error e, l.interleave s) := by
  unfold Loop.gate at h
  cases hdata : validateLosslessJson data with
  | ok j => simp [hdata] at h
  | error err =>
    simp only [hdata, Except.error.injEq] at h
    simp [Loop.write, Session.append, hknown, hdata, h]

theorem write_snd (s : Session) (type : EventType) (data : PyValue) : (l.write type data s).2 =
    ((l.interleave s).append { eventType := type, data, time := l.clock (l.interleave s).seq }).2 := by
  simp only [Loop.write]
  split
  · rename_i happ
    rw [happ]
  · rename_i happ
    rw [happ]

end Loop

/-! ## The parts of a step, in a reading -/

variable {τ : Type}

/-- A reading in which what comes before the reply tells nothing. -/
structure Loop.Reports (l : Loop) (R : Session → Session → List τ → Prop) : Prop where
  telling : Effect.Telling R
  listens : ∀ s, R s (l.listen s) []
  routes : ∀ s, R s (l.setRequest s) []
  chunk : ∀ s data, Does R (l.write .assistantChunk data) s (l.gate data) []

namespace Loop.Reports

variable {l : Loop} {R : Session → Session → List τ → Prop} (hR : l.Reports R) {turn step : Nat} {w : StepWorld}

include hR

theorem throwIfAborted_none (s : Session) : Does R (throwIfAborted none) s (.ok ()) [] := .pure hR.telling ()

theorem throwIfAborted_some (s : Session) (reason : PyValue) :
    Does R (throwIfAborted (some reason)) s (.error (.cancelled reason)) [] := .raise hR.telling _

theorem preStep_does (s : Session) (pending : List Message) : Does R (preStep w pending) s (w.entering pending) [] := by
  unfold preStep StepWorld.entering
  cases hdecision : w.decision with
  | error e => exact .of_error hR.telling rfl
  | ok decision =>
    refine .of_ok rfl ?_
    cases decision <;> exact .pure hR.telling _

/-- `_build_request`. -/
theorem buildRequest_does (w : StepWorld) (s : Session) :
    ∃ messages, Does R (l.buildRequest w) s (((l.ready s).bind (fun _ => w.prompt)).map (fun _ => messages)) [] := by
  have hreads := Does.reads (s := s) hR.telling l.requestMessages
  unfold Loop.ready
  cases hmessages : l.requestMessages s with
  | error e =>
    rw [hmessages] at hreads
    exact ⟨[], .bind_error hreads⟩
  | ok messages =>
    rw [hmessages] at hreads
    refine ⟨messages, .after hR.telling hreads (fun s₁ _ => ?_)⟩
    cases hprompt : w.prompt with
    | error e => exact .of_error hR.telling rfl
    | ok u => exact .of_ok rfl (.pure hR.telling _)

/-- The frames of an attempt; a frame that is refused ends it. -/
theorem pushAll_does (turn step : Nat) (s : Session) (a : BlockAssembler) (chunks : List StreamChunk) :
    Does R (l.pushAll turn step a chunks) s ((l.accepts chunks).map (fun _ => chunks.foldl BlockAssembler.push a)) [] := by
  induction chunks generalizing s a with
  | nil => exact .pure hR.telling _
  | cons chunk chunks ih =>
    have hwrite := hR.chunk s (.record [("turn", .int turn), ("step", .int step), ("chunk", encodePayload chunk.toPy)])
    have hgate := l.gate_record [("turn", .int turn), ("step", .int step)] "chunk" (encodePayload chunk.toPy)
    rw [Loop.pushAll_cons, Loop.accepts]
    cases hchunk : l.gate (encodePayload chunk.toPy) with
    | error e => exact .bind_error (hgate.trans hchunk ▸ hwrite)
    | ok u => exact .after hR.telling (hgate.trans hchunk ▸ hwrite) (fun s' _ => ih s' (a.push chunk))

/-- Streaming returns the frames of the last attempt, folded, where no frame is refused. -/
theorem stream_does (turn step : Nat) (w : StepWorld) (s : Session) (retried : List (List StreamChunk)) :
    Does R (l.stream turn step w retried) s ((w.streams l retried).map (fun _ => w.chunks.foldl BlockAssembler.push {})) [] := by
  induction retried generalizing s with
  | nil =>
    have hpush := hR.pushAll_does turn step s {} w.chunks
    simp only [Loop.stream, StepWorld.streams, List.flatten_nil, Loop.accepts]
    cases hchunks : l.accepts w.chunks with
    | error e =>
      rw [hchunks] at hpush
      exact .bind_error hpush
    | ok u =>
      rw [hchunks] at hpush
      refine .after hR.telling hpush (fun s₁ _ => ?_)
      cases hstreamed : w.streamed with
      | error e => exact .of_error hR.telling rfl
      | ok u => exact .of_ok rfl (.pure hR.telling _)
  | cons chunks retried ih =>
    have hpush := hR.pushAll_does turn step s {} chunks
    simp only [StepWorld.streams] at ih
    simp only [Loop.stream, StepWorld.streams, List.flatten_cons, accepts_append]
    cases hchunks : l.accepts chunks with
    | error e =>
      rw [hchunks] at hpush
      exact .bind_error hpush
    | ok u =>
      rw [hchunks] at hpush
      exact .after hR.telling hpush (fun s' _ => ih s')

/-- `_run_step` up to the finished assembler: what raises before the reply ends it, and otherwise the rest runs. -/
theorem runStep_does {s : Session} {r : Except Raised (Option PyValue × List Message)} {told : List τ}
    (hraised : ∀ e, w.reply l (l.ready (l.listen s)) = .error e → r = .error e ∧ told = [])
    (hreplied : w.reply l (l.ready (l.listen s)) = .ok () → ∀ s', Does R (l.finishStep turn step w w.assembler) s' r told) :
    Does R (l.runStep turn step w) s r told := by
  obtain ⟨messages, hbuild⟩ := hR.buildRequest_does w (l.listen s)
  unfold StepWorld.reply at hraised hreplied
  refine .changed hR.telling (hR.listens s) ?_
  cases hrequest : w.request with
  | error e =>
    rw [hrequest] at hraised
    obtain ⟨rfl, rfl⟩ := hraised e rfl
    exact .of_error hR.telling rfl
  | ok u =>
    rw [hrequest] at hraised hreplied
    refine .of_ok rfl ?_
    cases hready : l.ready (l.listen s) with
    | error e =>
      rw [hready] at hraised hbuild
      obtain ⟨rfl, rfl⟩ := hraised e rfl
      exact .bind_error hbuild
    | ok u =>
      rw [hready] at hraised hreplied hbuild
      cases hprompt : w.prompt with
      | error e =>
        rw [hprompt] at hraised hbuild
        obtain ⟨rfl, rfl⟩ := hraised e rfl
        exact .bind_error hbuild
      | ok u =>
        rw [hprompt] at hraised hreplied hbuild
        refine .after hR.telling hbuild (fun s₁ _ => ?_)
        refine .changed hR.telling (hR.routes s₁) ?_
        have hstream := hR.stream_does turn step w (l.setRequest s₁) w.retried
        cases hstreams : w.streams l w.retried with
        | error e =>
          rw [hstreams] at hraised hstream
          obtain ⟨rfl, rfl⟩ := hraised e rfl
          exact .bind_error hstream
        | ok u =>
          rw [hstreams] at hreplied hstream
          exact .after hR.telling hstream (fun s₂ _ => hreplied rfl s₂)

theorem endedStep_does {s : Session} {ended : StepEnd} (hends : w.Ends l (l.ready (l.listen s)) ended) {reply results : List τ}
    (hreply : w.recorded l = .ok () → ∀ s',
      Does R (l.write .assistantMessage (l.replyData turn step w w.assembler)) s' (.ok ()) reply)
    (hrefused : ∀ e, w.recorded l = .error e → ∀ s',
      Does R (l.write .assistantMessage (l.replyData turn step w w.assembler)) s' (.error e) [])
    (hresults : w.gathered = .ok () → ∀ s',
      Does R (l.executeToolCalls turn step w w.calls) s' (.ok (w.calls.map w.resultOf)) results) :
    Does R (l.runStep turn step w) s (ended.result w) (ended.told reply results) := by
  refine hR.runStep_does (fun e he => ?_) (fun hreplied s' => ?_)
  · cases hends with
    | unreplied raised =>
      rw [raised] at he
      cases he
      exact ⟨rfl, rfl⟩
    | errorFinish replied error =>
      rw [replied] at he
      cases he
    | unrecorded replied noError refused =>
      rw [replied] at he
      cases he
    | _ replies =>
      rw [replies.replied] at he
      cases he
  · unfold Loop.finishStep
    cases hends with
    | unreplied raised =>
      rw [raised] at hreplied
      cases hreplied
    | errorFinish replied error =>
      rw [if_pos error]
      exact .pure hR.telling _
    | unrecorded replied noError refused =>
      rw [if_neg noError]
      exact .bind_error (hrefused _ refused s')
    | maxTokens replies ceiling =>
      rw [if_neg replies.noError]
      exact .returns hR.telling (hreply replies.recorded s') (by rw [if_pos ceiling])
    | completed replies noCeiling uncalled =>
      rw [if_neg replies.noError]
      refine .returns hR.telling (hreply replies.recorded s') ?_
      rw [if_neg noCeiling, if_pos (by simpa [StepWorld.calls] using uncalled)]
    | @toolsRaised e replies noCeiling called raised =>
      rw [if_neg replies.noError, if_neg noCeiling, if_neg (by simpa [StepWorld.calls] using called)]
      exact .raises hR.telling (hreply replies.recorded s') (fun s₁ => .bind_error (.of_error hR.telling raised))
    | ranTools replies noCeiling called gathered =>
      rw [if_neg replies.noError, if_neg noCeiling, if_neg (by simpa [StepWorld.calls] using called)]
      exact .bind hR.telling (hreply replies.recorded s') (fun s₁ _ => .returns hR.telling (hresults gathered s₁) rfl)

end Loop.Reports

end Pydsh
