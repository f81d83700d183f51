import Pydsh.Agent.Outcome
import Pydsh.Llm.Attempts

/-!
# Stopping a turn

A turn over the OpenAI-compatible adapter whose activity is aborted while a step runs. The loop looks at the signal when the step is
over, and the adapter's line loop looks at it at each line. A line that comes after the abort ends the stream; without its `[DONE]` the
stream counts as truncated, and this failure leaves the step before the loop can look (`cut_recorded_failed`). So a stop is recorded
as a stop exactly if nothing but the abort's own `CancelledError` leaves the step, and the gate takes the reason
(`stop_recorded_iff`).
-/

namespace Pydsh

open Effect (Does)

/-- Who aborts an activity. -/
inductive Abort where
  | cancel (cause : PyValue)
  | lifetime (reason : PyValue)

/-- `signal.reason`. -/
def Abort.reason : Abort → PyValue
  | .cancel cause => cause
  | .lifetime reason => reason

/-- What the loop takes of the model call of a step. -/
def StepWorld.streaming (w : StepWorld) : Streamed := ⟨w.retried, w.chunks, w.streamed⟩

/-- How a step goes up to its model call. -/
def StepWorld.begun (w : StepWorld) (ready : Except Raised Unit) : Except Raised Unit := do
  w.request
  ready
  w.prompt

/-- How the appends of a step's frames end. -/
def StepWorld.frames (w : StepWorld) (l : Loop) : Except Raised Unit := l.accepts (w.retried.flatten ++ w.chunks)

/-- A turn's loop comes from a step, its session and its input to another one: the steps in between ran their tools. -/
inductive Loop.Comes (l : Loop) (turn : Nat) (world : Nat → StepWorld) :
    Session → Nat → List Message → Session → Nat → List Message → Prop where
  | here {s : Session} {step : Nat} {pending : List Message} : Comes l turn world s step pending s step pending
  | next {s s' : Session} {step step' : Nat} {pending messages pending' : List Message}
      (taken : (world step).Taken l step pending messages)
      (ends : (world step).Ends l (l.readyAt turn step (world step) messages s) .ranTools)
      (live : (world step).abortedAfter = none)
      (rest : Comes l turn world (l.afterStep turn step (world step) messages s) (step + 1)
        ((world step).calls.map (world step).resultOf) s' step' pending') : Comes l turn world s step pending s' step' pending'

/-- `_drain`, from a turn on in which the activity is aborted, and `run`, which awaits it: where input is pending, the check before the
next turn raises; a `CancelledError` is swallowed. -/
def Loop.drainFrom (l : Loop) (turn : Nat) (claimed : List Message) (world : Nat → StepWorld) (reason : PyValue) (hasPending : Bool) :
    LoopM Unit := do
  let ended ← Effect.attempt (l.runTurn turn claimed world >>= fun _ => throwIfAborted (if hasPending then some reason else none))
  match ended with
  | .error (.cancelled _) => return ()
  | ended => Effect.result ended

/-- A run of a turn over the adapter whose activity is aborted while a step runs: the turn comes to that step and takes it, the model
call of each step is one of the adapter, and the signal is found aborted after the step. -/
structure StopRun (l : Loop) where
  adapter : Adapter
  turn : Nat
  claimed : List Message
  session : Session
  world : Nat → StepWorld
  attempts : Nat → List Attempt
  step : Nat
  moment : Moment
  abort : Abort
  hasPending : Bool
  stepSession : Session
  pending : List Message
  messages : List Message
  comes : l.Comes turn world (l.write .turnStart (Json.obj [("turn", .int turn)]).loads session).2 1 claimed stepSession step pending
  taken : (world step).Taken l step pending messages
  before : ∀ n, 1 ≤ n → n < step → adapter.stream none 0 0 (attempts n) = some (world n).streaming
  during : adapter.stream (some ⟨moment, abort.reason⟩) 0 0 (attempts step) = some (world step).streaming
  after : (world step).abortedAfter = some abort.reason

namespace StopRun

variable {l : Loop} (r : StopRun l)

/-- The aborted step. -/
def stepWorld : StepWorld := r.world r.step

/-- How the request of the aborted step is built. -/
def ready : Except Raised Unit := l.readyAt r.turn r.step r.stepWorld r.messages r.stepSession

/-- The drain from the turn on. -/
def drain : Except Raised Unit × Session := l.drainFrom r.turn r.claimed r.world r.abort.reason r.hasPending r.session

/-- `{"kind": "cancelled", "reason": reason}`. -/
def cancelledJson (reason : Json) : Json := .obj [("kind", .str "cancelled"), ("reason", reason)]

/-- The stop is recorded as one: the turn has one `turn/end`, of kind `cancelled` with the abort's reason, and `run` returns. -/
def Recorded : Prop :=
  r.drain.1 = .ok () ∧ ∃ j : Json, r.abort.reason = j.loads ∧
    turnEnds (r.session.entriesSince r.drain.2) = [(.turnEnd, turnEndData r.turn (cancelledJson j))]

/-- Nothing but the abort's own `CancelledError` leaves the aborted step: not its listeners, the making of its request, the appends of
its frames, its model call, the append of its reply or its tools. -/
structure OnlyStops : Prop where
  begun : RaisesOnly r.abort.reason (r.stepWorld.begun r.ready)
  frames : r.stepWorld.begun r.ready = .ok () → RaisesOnly r.abort.reason (r.stepWorld.frames l)
  call : r.stepWorld.begun r.ready = .ok () → r.stepWorld.frames l = .ok () →
    r.adapter.Stops ⟨r.moment, r.abort.reason⟩ 0 0 (r.attempts r.step)
  recorded : r.stepWorld.reply l r.ready = .ok () → r.stepWorld.assembler.finishKind ≠ some "error" →
    RaisesOnly r.abort.reason (r.stepWorld.recorded l)
  tools : r.stepWorld.Replies l r.ready → r.stepWorld.assembler.finishKind ≠ some "max-tokens" → r.stepWorld.calls ≠ [] →
    RaisesOnly r.abort.reason r.stepWorld.gathered

end StopRun

/-! ## What leaves a step -/

@[simp] theorem raisesOnly_ok {α : Type} {reason : PyValue} {a : α} : RaisesOnly reason (.ok a) := by
  rintro e ⟨⟩

@[simp] theorem raisesOnly_error {α : Type} {reason : PyValue} {e : Raised} :
    RaisesOnly reason (.error e : Except Raised α) ↔ e = .cancelled reason := by
  constructor
  · exact fun h => h e rfl
  · rintro h e' ⟨⟩
    exact h

theorem RaisesOnly.bind_iff {α β : Type} {reason : PyValue} {x : Except Raised α} {f : α → Except Raised β} :
    RaisesOnly reason (x >>= f) ↔ RaisesOnly reason x ∧ ∀ a, x = .ok a → RaisesOnly reason (f a) := by
  cases x with
  | error e =>
    have hbind : (Except.error e >>= f) = .error e := rfl
    simp [hbind]
  | ok a =>
    have hbind : (Except.ok a >>= f) = f a := rfl
    simp [hbind]

/-- A step comes to its reply by its begin, its frames and its model call. -/
theorem StepWorld.reply_eq (w : StepWorld) (l : Loop) (ready : Except Raised Unit) :
    w.reply l ready = (w.begun ready >>= fun _ => w.frames l >>= fun _ => w.streamed) := by
  unfold StepWorld.reply StepWorld.begun StepWorld.frames StepWorld.streams
  rw [Loop.accepts_append]
  cases w.request <;> cases ready <;> cases w.prompt <;> cases l.accepts w.retried.flatten <;> cases l.accepts w.chunks <;> rfl

/-- What leaves a step by a raise is what its way to the reply raises, the append of the reply, or the tools. -/
theorem StepWorld.Ends.raisesOnly_iff {w : StepWorld} {l : Loop} {ready : Except Raised Unit} {ended : StepEnd}
    (h : w.Ends l ready ended) (reason : PyValue) : RaisesOnly reason (ended.exit w) ↔ RaisesOnly reason (w.reply l ready) ∧
      (w.reply l ready = .ok () → w.assembler.finishKind ≠ some "error" → RaisesOnly reason (w.recorded l)) ∧
      (w.Replies l ready → w.assembler.finishKind ≠ some "max-tokens" → w.calls ≠ [] → RaisesOnly reason w.gathered) := by
  cases h with
  | unreplied raised =>
    have hreplies : ¬w.Replies l ready := fun replies => by
      rw [replies.replied] at raised
      cases raised
    simp [StepEnd.exit, raised, hreplies]
  | errorFinish replied error =>
    have hreplies : ¬w.Replies l ready := fun replies => replies.noError error
    simp [StepEnd.exit, replied, error, hreplies]
  | unrecorded replied noError refused =>
    have hreplies : ¬w.Replies l ready := fun replies => by
      rw [replies.recorded] at refused
      cases refused
    simp [StepEnd.exit, replied, noError, refused, hreplies]
  | maxTokens replies ceiling => simp [StepEnd.exit, replies.replied, replies.recorded, ceiling]
  | completed replies noCeiling uncalled => simp [StepEnd.exit, replies.replied, replies.recorded, uncalled]
  | toolsRaised replies noCeiling called raised =>
    simp [StepEnd.exit, replies, replies.replied, replies.recorded, noCeiling, called, raised]
  | ranTools replies noCeiling called gathered => simp [StepEnd.exit, replies.replied, replies.recorded, gathered]

theorem Loop.Comes.turnEnds {l : Loop} {turn : Nat} {world : Nat → StepWorld} {s s' : Session} {step step' : Nat}
    {pending pending' : List Message} (h : l.Comes turn world s step pending s' step' pending') {exit : TurnExit}
    (hends : l.TurnEnds turn world s' step' pending' exit) : l.TurnEnds turn world s step pending exit := by
  induction h with
  | here => exact hends
  | next taken ends live _ ih => exact .next taken ends live (ih hends)

/-- The drain ends with what the turn raised, but for a `CancelledError`, in the session the turn left. -/
theorem Loop.drainFrom_eq (l : Loop) (turn : Nat) (claimed : List Message) (world : Nat → StepWorld) (reason : PyValue)
    (hasPending : Bool) (s : Session) : (l.drainFrom turn claimed world reason hasPending s).2 = (l.runTurn turn claimed world s).2 ∧
      (∀ u, (l.runTurn turn claimed world s).1 = .ok u → (l.drainFrom turn claimed world reason hasPending s).1 = .ok ()) ∧
      (∀ error, (l.runTurn turn claimed world s).1 = .error (.failed error) →
        (l.drainFrom turn claimed world reason hasPending s).1 = .error (.failed error)) ∧
      ((l.runTurn turn claimed world s).1 = .error .base →
        (l.drainFrom turn claimed world reason hasPending s).1 = .error .base) := by
  unfold Loop.drainFrom
  simp only [bind, Effect.attempt]
  rcases l.runTurn turn claimed world s with ⟨e | u, s'⟩
  · cases e <;> simp [Effect.result, pure]
  · cases hasPending <;> simp [throwIfAborted, Effect.result, Effect.raise, pure]

namespace StopRun

variable {l : Loop} (hl : l.OwnsBrackets) (r : StopRun l)

/-- The model call of the aborted step raises nothing but the abort's `CancelledError` exactly if its attempts stop so. -/
theorem streamed_iff : RaisesOnly r.abort.reason r.stepWorld.streamed ↔
    r.adapter.Stops ⟨r.moment, r.abort.reason⟩ 0 0 (r.attempts r.step) :=
  Adapter.raisesOnly_iff_stops r.during

/-- The aborted step ends in a way that raises nothing else exactly if nothing else leaves it. -/
theorem onlyStops_iff {ended : StepEnd} (hends : r.stepWorld.Ends l r.ready ended) :
    RaisesOnly r.abort.reason (ended.exit r.stepWorld) ↔ r.OnlyStops := by
  rw [hends.raisesOnly_iff, StepWorld.reply_eq, RaisesOnly.bind_iff]
  constructor
  · rintro ⟨⟨hbegun, hframes⟩, hrecorded, htools⟩
    refine ⟨hbegun, fun h => (RaisesOnly.bind_iff.mp (hframes () h)).1, fun h h' => ?_, fun h => ?_, htools⟩
    · exact r.streamed_iff.mp ((RaisesOnly.bind_iff.mp (hframes () h)).2 () h')
    · rw [StepWorld.reply_eq] at h
      exact hrecorded h
  · rintro ⟨hbegun, hframes, hcall, hrecorded, htools⟩
    refine ⟨⟨hbegun, fun u h => RaisesOnly.bind_iff.mpr ⟨hframes h, fun u' h' => r.streamed_iff.mpr (hcall h h')⟩⟩, fun h => ?_, htools⟩
    rw [← StepWorld.reply_eq] at h
    exact hrecorded h

include hl

/-- The stop is recorded as one exactly if the turn comes to the exit of a cancellation with the abort's reason, which the gate takes. -/
theorem recorded_iff_exit {exit : TurnExit} (h : l.Exits r.turn r.claimed r.world r.session exit) :
    r.Recorded ↔ exit = .cancelled r.abort.reason ∧ r.abort.reason.Lossless := by
  obtain ⟨hsession, hreturns, -, -⟩ := l.drainFrom_eq r.turn r.claimed r.world r.abort.reason r.hasPending r.session
  constructor
  · rintro ⟨-, j, hj, hends⟩
    have hrecordable : exit.Recordable := by
      by_contra hrefused
      rw [drain, hsession, hl.runTurn_unrecorded h hrefused] at hends
      cases hends
    obtain ⟨k, hk⟩ := exit.recordable_iff.mp hrecordable
    rw [drain, hsession, (hl.runTurn_recorded h hk).1] at hends
    have hdata : turnEndData r.turn k = turnEndData r.turn (cancelledJson j) := congrArg Prod.snd (List.head_eq_of_cons_eq hends)
    obtain rfl : k = cancelledJson j := by simpa [turnEndData] using hdata
    refine ⟨?_, j, hj⟩
    cases exit with
    | cancelled cause =>
      have hcause : cause = j.loads := by simpa [TurnExit.reason, PyValue.record, cancelledJson, Json.loads, Json.loadsFields] using hk
      rw [hcause, hj]
    | errorFinish finish =>
      have hkind := Loop.TurnEnds.finish_error h finish rfl
      obtain rfl : finish = Json.loadsFields [("kind", .str "cancelled"), ("reason", j)] := PyValue.dict.inj hk
      simp [PyDict.get?, Json.loadsFields, Json.loads] at hkind
    | failed error => simp [TurnExit.reason, PyValue.record, cancelledJson, Json.loads, Json.loadsFields] at hk
    | _ => simp [TurnExit.reason, reasonOf, PyValue.record, cancelledJson, Json.loads, Json.loadsFields] at hk
  · rintro ⟨rfl, j, hj⟩
    have hk : (TurnExit.cancelled r.abort.reason).reason = (cancelledJson j).loads := by
      rw [hj]
      rfl
    obtain ⟨replies, -, hputs, -, -⟩ := hl.runTurn_puts h
    obtain ⟨s', hrun, -⟩ := hputs _ hk
    refine ⟨hreturns () (by rw [hrun]; rfl), j, hj, ?_⟩
    rw [drain, hsession]
    exact (hl.runTurn_recorded h hk).1

/-- An attempt of the aborted step that the line loop cuts before its `[DONE]`, where neither the service nor the listeners retry it: the
turn is recorded as failed, and `run` raises. -/
theorem cut_recorded_failed {a : Attempt} {attempts : List Attempt} {n : Nat} (hattempts : r.attempts r.step = a :: attempts)
    (hmoment : r.moment = .streaming 0 n) (hbegun : r.stepWorld.begun r.ready = .ok ()) (hframes : r.stepWorld.frames l = .ok ())
    (hsetup : a.setup = .ok ()) (hcut : n < a.lines.length)
    (hopen : (r.adapter.wire.read ((a.lines.take n).filterMap payloadOf) {}).1 = .ok false)
    (hpolicy : ∀ policy ∈ r.adapter.policy, policy.shouldRetry streamClosed.code 0 = false) (hrecovery : a.recovery = .ok false) :
    r.drain.1 = .error (.failed streamClosed.text) ∧ turnEnds (r.session.entriesSince r.drain.2) = [(.turnEnd, turnEndData r.turn
      (.obj [("kind", .str "failed"), ("error", .str streamClosed.text)]))] := by
  have hrun : r.adapter.attempt (some ⟨r.moment, r.abort.reason⟩) 0 a = a.run r.adapter.wire (some n) := by
    simp [Adapter.attempt, hmoment, Moment.within]
  have hresult : (a.run r.adapter.wire (some n)).result = .error (.llm streamClosed) :=
    (Adapter.attempt_cut hsetup (by simpa [Attempt.cut] using hcut) hopen).1
  have hretries : r.adapter.retries (a.run r.adapter.wire (some n)) streamClosed 0 = false := by
    unfold Adapter.retries
    cases hp : r.adapter.policy with
    | none => simp
    | some policy => simp [hpolicy policy hp]
  have hstreamed : r.stepWorld.streamed = .error (.failed streamClosed.text) := by
    have hduring := r.during
    rw [hattempts] at hduring
    simp only [Adapter.stream, hrun, hresult, hretries, hrecovery, Bool.false_eq_true, if_false, Option.some.injEq] at hduring
    exact (congrArg Streamed.streamed hduring).symm
  have hends : r.stepWorld.Ends l r.ready (.unreplied (.failed streamClosed.text)) := by
    refine .unreplied ?_
    rw [StepWorld.reply_eq, hbegun, hframes, hstreamed]
    rfl
  have hexit : l.Exits r.turn r.claimed r.world r.session (.failed streamClosed.text) :=
    r.comes.turnEnds (.raised r.taken hends rfl)
  obtain ⟨hsession, -, hfails, -⟩ := l.drainFrom_eq r.turn r.claimed r.world r.abort.reason r.hasPending r.session
  obtain ⟨replies, -, hputs, -, -⟩ := hl.runTurn_puts hexit
  obtain ⟨s', hran, -⟩ := hputs (.obj [("kind", .str "failed"), ("error", .str streamClosed.text)]) rfl
  refine ⟨hfails _ (by rw [hran]; rfl), ?_⟩
  rw [drain, hsession]
  exact (hl.runTurn_recorded hexit rfl).1

end StopRun

/-- For every run of a turn over the adapter and every moment of the abort while a step runs: the stop is recorded as one, and `run`
returns, if and only if the gate takes the abort's reason and nothing but the abort's own `CancelledError` leaves the step. -/
theorem stop_recorded_iff {l : Loop} (hl : l.OwnsBrackets) (r : StopRun l) :
    r.Recorded ↔ r.abort.reason.Lossless ∧ r.OnlyStops := by
  obtain ⟨ended, hends⟩ := r.stepWorld.exists_ends l r.ready
  have honly := r.onlyStops_iff hends
  cases hexit : ended.exit r.stepWorld with
  | error e =>
    have hexits : l.Exits r.turn r.claimed r.world r.session e.exit := r.comes.turnEnds (.raised r.taken hends hexit)
    rw [hexit, raisesOnly_error] at honly
    rw [r.recorded_iff_exit hl hexits, ← honly]
    constructor
    · rintro ⟨he, hlossless⟩
      refine ⟨hlossless, ?_⟩
      cases e with
      | cancelled reason =>
        cases he
        rfl
      | failed error => cases he
      | base => cases he
    · rintro ⟨hlossless, rfl⟩
      exact ⟨rfl, hlossless⟩
  | ok exit =>
    have hexits : l.Exits r.turn r.claimed r.world r.session (.cancelled r.abort.reason) :=
      r.comes.turnEnds (.abortedAfter r.taken hends hexit r.after)
    rw [hexit] at honly
    rw [r.recorded_iff_exit hl hexits]
    exact ⟨fun h => ⟨h.2, honly.mp raisesOnly_ok⟩, fun h => ⟨rfl, h.1⟩⟩

namespace Stopped

/-- A parser that knows one payload: a text. -/
def wire : Wire where
  loads payload := if payload = "hi" then
      .ok (.record [("choices", .list [.record [("delta", .record [("content", .str "hi")])]])])
    else .error .decode
  upper reason := reason
  floats _ _ := .error "TypeError"
  text v := match v with
    | .str s => s
    | _ => ""
  text_str := Eq.refl

/-- The adapter, with no retries. -/
def adapter : Adapter := { wire }

/-- The adapter over attempts without a line, aborted in the first one. -/
theorem stream_isSome_empty : (adapter.stream (some ⟨.streaming 0 0, .str "user"⟩) 0 0 [{ lines := [] }, { lines := [] }]).isSome = true :=
  Adapter.stream_isSome rfl (by simp) (by decide) (by decide)

/-- A stream with one text and its `[DONE]`. -/
def attempt : Attempt := { lines := ["data: hi", "data: [DONE]"] }

/-- What the loop raises for what an attempt does, where nothing retries it. -/
def surfaced : Except StreamError Unit → Except Raised Unit
  | .ok _ => .ok ()
  | .error (.llm e) => .error (.failed e.text)
  | .error (.other e) => .error e

/-- A step whose model call is the attempt. -/
def streamingWorld (stop : Stop) : Nat → StepWorld := fun _ =>
  { chunks := (adapter.attempt (some stop) 0 attempt).chunks
    streamed := surfaced (adapter.attempt (some stop) 0 attempt).result
    messageId := "a1"
    outcome := fun _ => ⟨"", false⟩
    resultId := fun call => call.id
    abortedAfter := some stop.reason }

theorem streams (stop : Stop) (n : Nat) : adapter.stream (some stop) 0 0 [attempt] = some (streamingWorld stop n).streaming := by
  have hpolicy : adapter.policy = none := rfl
  have hrecovery : attempt.recovery = .ok false := rfl
  unfold StepWorld.streaming streamingWorld
  cases hresult : (adapter.attempt (some stop) 0 attempt).result with
  | ok u => simp [Adapter.stream, hresult, surfaced]
  | error e => cases e <;> simp [Adapter.stream, hresult, surfaced, Adapter.retries, hpolicy, hrecovery]

theorem taken (stop : Stop) : (streamingWorld stop 1).Taken loop 1 [] [] := by
  have hallowed : ((1 : Nat) : Int) ≤ loop.options.maxSteps := by decide
  exact ⟨⟨rfl, hallowed, rfl⟩, rfl⟩

theorem before_first {P : Nat → Prop} (n : Nat) (h : 1 ≤ n) (hlt : n < 1) : P n := absurd h (by omega)

/-- A turn over the adapter that is stopped by the user in its first step, at a moment. -/
def stopRun (moment : Moment) : StopRun loop where
  adapter := adapter
  turn := 1
  claimed := []
  session := session
  world := streamingWorld ⟨moment, .str "user"⟩
  attempts _ := [attempt]
  step := 1
  moment := moment
  abort := .cancel (.str "user")
  hasPending := false
  stepSession := (loop.write .turnStart (Json.obj [("turn", .int 1)]).loads session).2
  pending := []
  messages := []
  comes := .here
  taken := taken _
  before := before_first
  during := streams _ 1
  after := rfl

end Stopped

open Stopped in
/-- A turn that is stopped when its model call is over. -/
theorem stop_recorded_iff_afterStream :
    (stopRun .afterStream).stepWorld.chunks.map StreamChunk.type = [.blockStart, .textDelta, .blockEnd, .finish] ∧
    (stopRun .afterStream).Recorded := by
  refine ⟨by decide +kernel, (stop_recorded_iff (l := loop) ⟨by simp [loop], by simp [loop]⟩ _).mpr ⟨⟨.str "user", rfl⟩, ?_⟩⟩
  have hbegun : (stopRun .afterStream).stepWorld.begun (stopRun .afterStream).ready = .ok () := rfl
  have hframes : (stopRun .afterStream).stepWorld.frames loop = .ok () := rfl
  have hcalls : (stopRun .afterStream).stepWorld.calls = [] := rfl
  refine ⟨by simp [hbegun], fun _ => by simp [hframes], fun _ _ => .last (.finished rfl), fun _ _ => ?_, fun _ _ h => absurd hcalls h⟩
  have hrecorded : (stopRun .afterStream).stepWorld.recorded loop = .ok () := rfl
  simp [hrecorded]

open Stopped in
/-- A turn that is stopped between the first line of its stream and the second: it is recorded as failed, and `run` raises. -/
theorem stop_recorded_failed :
    (stopRun (.streaming 0 1)).drain.1 = .error (.failed streamClosed.text) ∧
    turnEnds (session.entriesSince (stopRun (.streaming 0 1)).drain.2) = [(.turnEnd, turnEndData 1
      (.obj [("kind", .str "failed"), ("error", .str streamClosed.text)]))] ∧
    ¬(stopRun (.streaming 0 1)).Recorded := by
  have hattempts : (stopRun (.streaming 0 1)).attempts 1 = [attempt] := rfl
  have hfailed := (stopRun (.streaming 0 1)).cut_recorded_failed ⟨by simp [loop], by simp [loop]⟩ hattempts (n := 1)
    rfl rfl rfl rfl (by decide) rfl (by simp [stopRun, adapter]) rfl
  refine ⟨hfailed.1, hfailed.2, ?_⟩
  rintro ⟨hreturns, -⟩
  rw [hfailed.1] at hreturns
  cases hreturns

end Pydsh
