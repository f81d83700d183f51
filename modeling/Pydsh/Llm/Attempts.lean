import Pydsh.Llm.Translate

/-!
# The attempts of a model call

What stands between the lines of an SSE stream and the loop: the adapter's line loop, which stops when the signal is aborted
(`OpenAICompatibleAdapter.stream`), the service's retries, before the first frame only (`llm/service.py`, `_adapter_stream`), and
the agent's, which its listeners decide on (`agent/agent.py`, `_stream`). The attempts of a step run one after another, until one of
them finishes or its failure is not retried (`Adapter.stream`).
-/

namespace Pydsh

/-- The payload of an SSE line, where it has one. -/
def payloadOf (line : String) : Option String :=
  let line := pyStrip line
  if "data:".toList.isPrefixOf line.toList then some (pyStrip (String.ofList (line.toList.drop 5))) else none

/-- What an attempt meets outside. -/
structure Attempt where
  /-- How it goes up to its first line: the endpoint, the key, the body, the call of the transport. -/
  setup : Except StreamError Unit := .ok ()
  /-- The lines the transport gives, and how it ends after them. -/
  lines : List String
  ending : Except StreamError Unit := .ok ()
  /-- How the sleep before a retry ends. -/
  slept : Except Raised Unit := .ok ()
  /-- Whether the `agent/request-error` listeners ask for another attempt, if they are asked. -/
  recovery : Except Raised Bool := .ok false

/-- How an attempt ends: the frames it gave, what it raised, and whether the signal was aborted by then. -/
structure AttemptEnd where
  chunks : List StreamChunk
  result : Except StreamError Unit
  aborted : Bool

/-- `STREAM_CLOSED`. -/
def streamClosed : LlmError :=
  { message := "the SSE stream ended before [DONE]; the response is truncated"
    code := "STREAM_CLOSED" }

/-- The lines the line loop takes, where the signal is aborted once so many lines have come. -/
def Attempt.heard (a : Attempt) : Option Nat → List String
  | none => a.lines
  | some n => a.lines.take n

/-- The lines go on after the signal is aborted, so that the line loop sees it. -/
def Attempt.cut (a : Attempt) : Option Nat → Bool
  | none => false
  | some n => n < a.lines.length

/-- One run of the adapter's `stream`. A line that comes after the abort ends the payloads, and so does the end of the lines; the
translation raises then, unless it had its `[DONE]`. -/
def Attempt.run (wire : Wire) (a : Attempt) (abort : Option Nat) : AttemptEnd :=
  match a.setup with
  | .error e => ⟨[], .error e, abort == some 0⟩
  | .ok _ =>
    match wire.read ((a.heard abort).filterMap payloadOf) {} with
    | (.error e, t) => ⟨t.yielded, .error e, false⟩
    | (.ok true, t) => ⟨t.yielded, .ok (), false⟩
    | (.ok false, t) =>
      if a.cut abort then ⟨t.yielded, .error (.llm streamClosed), true⟩
      else ⟨t.yielded, a.ending.bind (fun _ => .error (.llm streamClosed)), abort.any (· ≤ a.lines.length)⟩

/-! ## Retries -/

/-- `RETRY_MODES`. -/
inductive RetryMode where
  | normal | always
  deriving DecidableEq

/-- `ResolvedRetryPolicy`, up to its delays. -/
structure RetryPolicy where
  mode : RetryMode
  maxRetries : Nat := 2
  retryableCodes : List String := ["EMPTY_RESPONSE", "RATE_LIMIT", "SERVER", "TIMEOUT", "TRANSPORT"]

/-- `should_retry`. -/
def RetryPolicy.shouldRetry (policy : RetryPolicy) (code : String) (attempts : Nat) : Bool :=
  policy.mode == .always || (attempts < policy.maxRetries && policy.retryableCodes.contains code)

/-- When the activity is aborted, while a step runs: in an attempt of its model call, when so many lines of it have come (none: at
any time before its first line, from the end of the attempt before on), or after the model call. -/
inductive Moment where
  | streaming (attempt line : Nat)
  | afterStream

/-- When an attempt finds the signal aborted. -/
def Moment.within : Moment → Nat → Option Nat
  | .streaming attempt line, i => if i < attempt then none else if i = attempt then some line else some 0
  | .afterStream, _ => none

/-- The abort of an activity. -/
structure Stop where
  moment : Moment
  reason : PyValue

/-- The adapter on its route. -/
structure Adapter where
  wire : Wire
  policy : Option RetryPolicy := none

/-- What the loop takes of the attempts: the frames of those that are retried, those of the last one, and how this one ends. -/
structure Streamed where
  retried : List (List StreamChunk)
  chunks : List StreamChunk
  streamed : Except Raised Unit

/-- The code raises nothing but the `CancelledError` of an abort with the reason. -/
def RaisesOnly {α : Type} (reason : PyValue) (r : Except Raised α) : Prop := ∀ e, r = .error e → e = .cancelled reason

namespace Adapter

variable (adapter : Adapter)

/-- The attempt of a number, with the abort if there is one. -/
def attempt (stop : Option Stop) (i : Nat) (a : Attempt) : AttemptEnd :=
  a.run adapter.wire (stop.bind (fun stop => stop.moment.within i))

/-- The service retries a failure: nothing was given yet, and the route's policy says so. -/
def retries (ended : AttemptEnd) (e : LlmError) (spent : Nat) : Bool :=
  ended.chunks.isEmpty && adapter.policy.any (fun policy => policy.shouldRetry e.code spent)

/-- The `throw_if_aborted` before a retry, where the attempt before it found the signal aborted. -/
def checkpoint (stop : Option Stop) (ended : AttemptEnd) : Except Raised Unit :=
  match stop with
  | some stop => if ended.aborted then .error (.cancelled stop.reason) else .ok ()
  | none => .ok ()

/-- The attempts of a step from the one of a number on, where the service has spent so many retries on this call; `none` where there
are more attempts than these. -/
def stream (stop : Option Stop) : Nat → Nat → List Attempt → Option Streamed
  | _, _, [] => none
  | i, spent, a :: attempts =>
    let ended := adapter.attempt stop i a
    match ended.result with
    | .ok _ => some ⟨[], ended.chunks, .ok ()⟩
    | .error (.other e) => some ⟨[], ended.chunks, .error e⟩
    | .error (.llm e) =>
      if adapter.retries ended e spent then
        match checkpoint stop ended, a.slept with
        | .error e, _ => some ⟨[], ended.chunks, .error e⟩
        | .ok _, .error e => some ⟨[], ended.chunks, .error e⟩
        | .ok _, .ok _ => (stream stop (i + 1) (spent + 1) attempts).map (fun rest => { rest with
            retried := ended.chunks :: rest.retried })
      else
        match a.recovery with
        | .error e => some ⟨[], ended.chunks, .error e⟩
        | .ok false => some ⟨[], ended.chunks, .error (.failed e.text)⟩
        | .ok true => (stream stop (i + 1) 0 attempts).map (fun rest => { rest with
            retried := ended.chunks :: rest.retried })

/-! ## What stops a model call cleanly -/

/-- An attempt of an aborted step after which the model call is over, with its reply or with the abort's own `CancelledError`. -/
inductive Settles (stop : Stop) (i spent : Nat) (a : Attempt) : Prop where
  | finished (done : (adapter.attempt (some stop) i a).result = .ok ())
  | raised (raised : (adapter.attempt (some stop) i a).result = .error (.other (.cancelled stop.reason)))
  | checked {e : LlmError} (failed : (adapter.attempt (some stop) i a).result = .error (.llm e))
      (retried : adapter.retries (adapter.attempt (some stop) i a) e spent = true)
      (aborted : (adapter.attempt (some stop) i a).aborted = true)
  | slept {e : LlmError} (failed : (adapter.attempt (some stop) i a).result = .error (.llm e))
      (retried : adapter.retries (adapter.attempt (some stop) i a) e spent = true)
      (live : (adapter.attempt (some stop) i a).aborted = false) (raised : a.slept = .error (.cancelled stop.reason))
  | recovering {e : LlmError} (failed : (adapter.attempt (some stop) i a).result = .error (.llm e))
      (surfaced : adapter.retries (adapter.attempt (some stop) i a) e spent = false)
      (raised : a.recovery = .error (.cancelled stop.reason))

/-- An attempt that is followed by another one, with the retries spent then. -/
inductive Repeats (stop : Stop) (i spent : Nat) (a : Attempt) : Nat → Prop where
  | retried {e : LlmError} (failed : (adapter.attempt (some stop) i a).result = .error (.llm e))
      (retried : adapter.retries (adapter.attempt (some stop) i a) e spent = true)
      (live : (adapter.attempt (some stop) i a).aborted = false) (slept : a.slept = .ok ()) : Repeats stop i spent a (spent + 1)
  | recovered {e : LlmError} (failed : (adapter.attempt (some stop) i a).result = .error (.llm e))
      (surfaced : adapter.retries (adapter.attempt (some stop) i a) e spent = false)
      (recovered : a.recovery = .ok true) : Repeats stop i spent a 0

/-- The attempts of an aborted step end with one that settles the call. -/
inductive Stops (stop : Stop) : Nat → Nat → List Attempt → Prop where
  | last {i spent : Nat} {a : Attempt} {attempts : List Attempt} (settles : adapter.Settles stop i spent a) :
      Stops stop i spent (a :: attempts)
  | next {i spent spent' : Nat} {a : Attempt} {attempts : List Attempt} (repeats : adapter.Repeats stop i spent a spent')
      (rest : Stops stop (i + 1) spent' attempts) : Stops stop i spent (a :: attempts)

variable {adapter} {stop : Stop} {i spent : Nat} {a : Attempt} {attempts : List Attempt}

/-- An attempt of an aborted step is followed by another one exactly where the code goes on to it. -/
theorem stream_repeats {spent' : Nat} (h : adapter.Repeats stop i spent a spent') :
    adapter.stream (some stop) i spent (a :: attempts) =
      (adapter.stream (some stop) (i + 1) spent' attempts).map (fun rest => { rest with
        retried := (adapter.attempt (some stop) i a).chunks :: rest.retried }) := by
  cases h with
  | retried failed retried live slept => simp [stream, failed, retried, checkpoint, live, slept]
  | recovered failed surfaced recovered => simp [stream, failed, surfaced, recovered]

/-- An attempt that settles the call leaves its reply, or the abort's own `CancelledError`. -/
theorem Settles.raisesOnly {streamed : Streamed} (hsettles : adapter.Settles stop i spent a)
    (h : adapter.stream (some stop) i spent (a :: attempts) = some streamed) : RaisesOnly stop.reason streamed.streamed := by
  intro e he
  cases hsettles with
  | finished done =>
    simp only [stream, done, Option.some.injEq] at h
    subst h
    cases he
  | raised raised =>
    simp only [stream, raised, Option.some.injEq] at h
    subst h
    cases he
    rfl
  | checked failed retried aborted =>
    simp only [stream, failed, retried, checkpoint, aborted, if_true, Option.some.injEq] at h
    subst h
    cases he
    rfl
  | slept failed retried live raised =>
    simp only [stream, failed, retried, checkpoint, live, raised, if_true, Bool.false_eq_true, if_false,
      Option.some.injEq] at h
    subst h
    cases he
    rfl
  | recovering failed surfaced raised =>
    simp only [stream, failed, surfaced, raised, Bool.false_eq_true, if_false, Option.some.injEq] at h
    subst h
    cases he
    rfl

/-- The first attempt of a call that raises nothing but the abort's `CancelledError` settles the call or is followed by another. -/
theorem settles_or_repeats {streamed : Streamed} (h : adapter.stream (some stop) i spent (a :: attempts) = some streamed)
    (honly : RaisesOnly stop.reason streamed.streamed) :
    adapter.Settles stop i spent a ∨ ∃ spent', adapter.Repeats stop i spent a spent' := by
  cases hresult : (adapter.attempt (some stop) i a).result with
  | ok u => exact .inl (.finished hresult)
  | error e =>
    cases e with
    | other e =>
      simp only [stream, hresult, Option.some.injEq] at h
      subst h
      obtain rfl := honly e rfl
      exact .inl (.raised hresult)
    | llm e =>
      cases hretries : adapter.retries (adapter.attempt (some stop) i a) e spent with
      | true =>
        cases haborted : (adapter.attempt (some stop) i a).aborted with
        | true => exact .inl (.checked hresult hretries haborted)
        | false =>
          cases hslept : a.slept with
          | error e' =>
            simp only [stream, hresult, hretries, checkpoint, haborted, hslept, if_true, Bool.false_eq_true, if_false,
              Option.some.injEq] at h
            subst h
            obtain rfl := honly e' rfl
            exact .inl (.slept hresult hretries haborted hslept)
          | ok u => exact .inr ⟨spent + 1, .retried hresult hretries haborted hslept⟩
      | false =>
        rcases hrecovery : a.recovery with e' | again
        · simp only [stream, hresult, hretries, hrecovery, Bool.false_eq_true, if_false, Option.some.injEq] at h
          subst h
          obtain rfl := honly e' rfl
          exact .inl (.recovering hresult hretries hrecovery)
        · cases again with
          | false =>
            simp only [stream, hresult, hretries, hrecovery, Bool.false_eq_true, if_false, Option.some.injEq] at h
            subst h
            cases honly _ rfl
          | true => exact .inr ⟨0, .recovered hresult hretries hrecovery⟩

/-- The model call of an aborted step, once its attempts are over, ends with its reply or raises the abort's `CancelledError`, and
nothing else, exactly if the attempts end with one that settles the call. -/
theorem raisesOnly_iff_stops {streamed : Streamed} (h : adapter.stream (some stop) i spent attempts = some streamed) :
    RaisesOnly stop.reason streamed.streamed ↔ adapter.Stops stop i spent attempts := by
  induction attempts generalizing i spent streamed with
  | nil => cases h
  | cons a attempts ih =>
    constructor
    · intro honly
      obtain settles | ⟨spent', hrepeats⟩ := settles_or_repeats h honly
      · exact .last settles
      · rw [stream_repeats hrepeats] at h
        obtain ⟨rest, hrest, rfl⟩ := Option.map_eq_some_iff.mp h
        exact .next hrepeats ((ih hrest).mp honly)
    · intro hstops
      cases hstops with
      | last settles => exact settles.raisesOnly h
      | next repeats rest =>
        rw [stream_repeats repeats] at h
        obtain ⟨streamed, hrest, rfl⟩ := Option.map_eq_some_iff.mp h
        exact (ih hrest).mpr rest

/-- A stream that the line loop stops at the abort fails as a truncated one. -/
theorem attempt_cut {wire : Wire} {a : Attempt} {abort : Option Nat} (hsetup : a.setup = .ok ()) (hcut : a.cut abort = true)
    (hopen : (wire.read ((a.heard abort).filterMap payloadOf) {}).1 = .ok false) :
    (a.run wire abort).result = .error (.llm streamClosed) ∧ (a.run wire abort).aborted = true := by
  unfold Attempt.run
  rcases hread : wire.read ((a.heard abort).filterMap payloadOf) {} with ⟨r, t⟩
  rw [hread] at hopen
  obtain rfl : r = .ok false := hopen
  simp [hsetup, hcut]

/-- An attempt that starts with the signal aborted finds it so. -/
theorem aborted_of_within_zero (wire : Wire) (a : Attempt) : (a.run wire (some 0)).aborted = true := by
  unfold Attempt.run
  cases hsetup : a.setup with
  | error e => simp
  | ok u =>
    have hread : wire.read ((a.heard (some 0)).filterMap payloadOf) {} = (.ok false, {}) := rfl
    simp only [hread]
    split <;> simp

/-- The model call of an aborted step ends with the attempt after the abort at the latest, unless the listeners ask for another one:
the service's own retries stop at their checkpoint. -/
theorem stream_isSome {attempt line : Nat} (hmoment : stop.moment = .streaming attempt line)
    (hrecovery : ∀ a ∈ attempts.drop (attempt + 1 - i), a.recovery ≠ .ok true) (hle : i ≤ attempt + 1)
    (hlength : attempt + 1 < i + attempts.length) : (adapter.stream (some stop) i spent attempts).isSome = true := by
  induction attempts generalizing i spent with
  | nil =>
    simp only [List.length_nil] at hlength
    omega
  | cons a attempts ih =>
    simp only [List.length_cons] at hlength
    have hrest : ∀ spent', adapter.Repeats stop i spent a spent' →
        (adapter.stream (some stop) (i + 1) spent' attempts).isSome = true := by
      intro spent' hrepeats
      by_cases hlast : i = attempt + 1
      · subst hlast
        have hwithin : (some stop).bind (fun stop => stop.moment.within (attempt + 1)) = some 0 := by
          simp [hmoment, Moment.within]
        have hstarted : adapter.attempt (some stop) (attempt + 1) a = a.run adapter.wire (some 0) := by
          unfold Adapter.attempt
          rw [hwithin]
        cases hrepeats with
        | retried failed retried live slept =>
          rw [hstarted] at failed live
          rw [aborted_of_within_zero] at live
          cases live
        | recovered failed surfaced recovered => exact absurd recovered (hrecovery a (by simp))
      · have hdrop : attempt + 1 - i = (attempt + 1 - (i + 1)) + 1 := by omega
        rw [hdrop, List.drop_succ_cons] at hrecovery
        exact ih hrecovery (by omega) (by omega)
    cases hresult : (adapter.attempt (some stop) i a).result with
    | ok u => simp [stream, hresult]
    | error e =>
      cases e with
      | other e => simp [stream, hresult]
      | llm e =>
        cases hretries : adapter.retries (adapter.attempt (some stop) i a) e spent with
        | true =>
          cases haborted : (adapter.attempt (some stop) i a).aborted with
          | true => simp [stream, hresult, hretries, checkpoint, haborted]
          | false =>
            cases hslept : a.slept with
            | error e' => simp [stream, hresult, hretries, checkpoint, haborted, hslept]
            | ok u =>
              have hrepeats : adapter.Repeats stop i spent a (spent + 1) := .retried hresult hretries haborted hslept
              rw [stream_repeats hrepeats, Option.isSome_map]
              exact hrest _ hrepeats
        | false =>
          rcases hrecovered : a.recovery with e' | again
          · simp [stream, hresult, hretries, hrecovered]
          · cases again with
            | false => simp [stream, hresult, hretries, hrecovered]
            | true =>
              have hrepeats : adapter.Repeats stop i spent a 0 := .recovered hresult hretries hrecovered
              rw [stream_repeats hrepeats, Option.isSome_map]
              exact hrest _ hrepeats

end Adapter

end Pydsh
