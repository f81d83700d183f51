import Mathlib.Algebra.Ring.Nat
import Pydsh.Llm.Attempts

/-!
# The retries of the service

The loop of `_adapter_stream` (`llm/service.py`) by itself, for one call of the service: it takes the adapter's attempts one after
another, passes on what each yields as it comes, and asks the policy of the route about a failure that comes before anything was
yielded. `Adapter.stream` has this loop inside the agent's own; here its policy has its delays as well (`llm/retry.py`), and its
consumer is whoever reads the stream.
-/

namespace Pydsh

variable {χ : Type}

/-- `ResolvedRetryPolicy`. -/
structure ResolvedRetryPolicy extends RetryPolicy where
  initialDelayMs : Nat := 500
  maxDelayMs : Nat := 10000
  jitterRatio : Rat := 1 / 10

/-- `delay_for`, where `random.random` gives the draw. -/
def ResolvedRetryPolicy.delayFor (policy : ResolvedRetryPolicy) (attempt : Nat) (draw : Rat) : Rat :=
  let base : Nat := min (policy.initialDelayMs * 2 ^ (attempt - 1)) policy.maxDelayMs
  let jitter := 1 + (-policy.jitterRatio + 2 * policy.jitterRatio * draw)
  base * jitter / 1000

/-- How an attempt of the adapter goes, and what the loop meets between it and the next one. -/
structure AttemptOutcome (χ : Type) where
  /-- What its stream yields, and how it ends. -/
  chunks : List χ
  result : Except StreamError Unit
  /-- `throw_if_aborted` after it, the draw of its delay, and how the sleep ends. -/
  checked : Except Raised Unit := .ok ()
  draw : Rat := 0
  slept : Except Raised Unit := .ok ()

/-- What comes of a call: the attempts that another one followed and the delays before these, the attempt that ended the call (`none`
while one is under way), what the consumer was given, and what the call ends with. -/
structure ServedCall (χ : Type) where
  retried : List (AttemptOutcome χ) := []
  delays : List Rat := []
  last : Option (AttemptOutcome χ) := none
  chunks : List χ := []
  result : Option (Except StreamError Unit) := none

/-- `emitted` and what the consumer has, after the `async for` over an attempt. -/
def passOn (yielded chunks : List χ) : Bool × List χ :=
  chunks.foldl (fun s chunk => (true, s.2 ++ [chunk])) (false, yielded)

/-- The `except` clause of the loop, with so many retries spent: the delay before the next attempt, or what is raised. -/
def afterFailure (policy : Option ResolvedRetryPolicy) (attempts : Nat) (emitted : Bool) (o : AttemptOutcome χ) (e : LlmError) :
    Except StreamError Rat :=
  if emitted then .error (.llm e)
  else match policy with
    | none => .error (.llm e)
    | some policy =>
      if policy.shouldRetry e.code attempts then do
        o.checked.mapError .other
        o.slept.mapError .other
        return policy.delayFor (attempts + 1) o.draw
      else .error (.llm e)

/-- The loop of `_adapter_stream`, with so many retries spent and so much yielded. -/
def adapterStream (policy : Option ResolvedRetryPolicy) : Nat → List χ → List (AttemptOutcome χ) → ServedCall χ
  | _, yielded, [] => { chunks := yielded }
  | attempts, yielded, o :: outcomes =>
    let (emitted, yielded) := passOn yielded o.chunks
    match o.result with
    | .ok _ => { last := some o, chunks := yielded, result := some (.ok ()) }
    | .error (.other e) => { last := some o, chunks := yielded, result := some (.error (.other e)) }
    | .error (.llm e) =>
      match afterFailure policy attempts emitted o e with
      | .error e => { last := some o, chunks := yielded, result := some (.error e) }
      | .ok delay =>
        let served := adapterStream policy (attempts + 1) yielded outcomes
        { served with retried := o :: served.retried, delays := delay :: served.delays }

/-! ## What one attempt does -/

theorem foldl_passOn (chunks : List χ) (emitted : Bool) (yielded : List χ) :
    chunks.foldl (fun s chunk => (true, s.2 ++ [chunk])) (emitted, yielded) = (emitted || !chunks.isEmpty, yielded ++ chunks) := by
  induction chunks generalizing emitted yielded with
  | nil => simp
  | cons chunk chunks ih => simp [ih]

@[simp] theorem passOn_eq (yielded chunks : List χ) : passOn yielded chunks = (!chunks.isEmpty, yielded ++ chunks) := by
  simp [passOn, foldl_passOn]

/-- A failure that another attempt follows: the attempt yielded nothing, the policy says so, the signal is not aborted and the sleep
ends by itself. -/
structure Retried (policy : ResolvedRetryPolicy) (attempts : Nat) (o : AttemptOutcome χ) (e : LlmError) : Prop where
  failed : o.result = .error (.llm e)
  silent : o.chunks = []
  asked : policy.shouldRetry e.code attempts = true
  checked : o.checked = .ok ()
  slept : o.slept = .ok ()

theorem afterFailure_eq_ok {policy : Option ResolvedRetryPolicy} {attempts : Nat} {emitted : Bool} {o : AttemptOutcome χ}
    {e : LlmError} {delay : Rat} : afterFailure policy attempts emitted o e = .ok delay ↔
      emitted = false ∧ ∃ p, policy = some p ∧ p.shouldRetry e.code attempts = true ∧ o.checked = .ok () ∧ o.slept = .ok () ∧
        delay = p.delayFor (attempts + 1) o.draw := by
  cases emitted with
  | true => simp [afterFailure]
  | false =>
    cases policy with
    | none => simp [afterFailure]
    | some p =>
      by_cases hasked : p.shouldRetry e.code attempts = true
      · cases hchecked : o.checked with
        | error e => simp [afterFailure, hasked, hchecked, Except.mapError, bind, Except.bind]
        | ok u =>
          cases hslept : o.slept with
          | error e => simp [afterFailure, hasked, hchecked, hslept, Except.mapError, bind, Except.bind]
          | ok u =>
            simp only [afterFailure, Bool.false_eq_true, if_false, hasked, if_true, hchecked, hslept, Except.mapError, bind,
              Except.bind, pure, Except.pure, Except.ok.injEq, true_and, Option.some.injEq, exists_eq_left']
            exact eq_comm
      · simp [afterFailure, hasked]

variable {policy : Option ResolvedRetryPolicy} {attempts : Nat} {yielded : List χ} {o : AttemptOutcome χ}
  {outcomes : List (AttemptOutcome χ)}

/-- Another attempt follows a failure that is retried, with one more retry spent and nothing more yielded. -/
theorem adapterStream_retried {p : ResolvedRetryPolicy} {e : LlmError} (h : Retried p attempts o e) :
    adapterStream (some p) attempts yielded (o :: outcomes) =
      { adapterStream (some p) (attempts + 1) yielded outcomes with
        retried := o :: (adapterStream (some p) (attempts + 1) yielded outcomes).retried
        delays := p.delayFor (attempts + 1) o.draw :: (adapterStream (some p) (attempts + 1) yielded outcomes).delays } := by
  have hafter : afterFailure (some p) attempts false o e = .ok (p.delayFor (attempts + 1) o.draw) :=
    afterFailure_eq_ok.mpr ⟨rfl, p, rfl, h.asked, h.checked, h.slept, rfl⟩
  simp [adapterStream, h.failed, h.silent, hafter]

/-- An attempt whose failure is not retried ends the call, with what it yielded. -/
theorem adapterStream_last (h : ∀ p e, policy = some p → ¬Retried p attempts o e) :
    ∃ result, adapterStream policy attempts yielded (o :: outcomes) =
      { last := some o, chunks := yielded ++ o.chunks, result := some result } := by
  cases hresult : o.result with
  | ok u => exact ⟨.ok (), by simp [adapterStream, hresult]⟩
  | error e =>
    cases e with
    | other e => exact ⟨.error (.other e), by simp [adapterStream, hresult]⟩
    | llm e =>
      cases hafter : afterFailure policy attempts (!o.chunks.isEmpty) o e with
      | error e' => exact ⟨.error e', by simp [adapterStream, hresult, hafter]⟩
      | ok delay =>
        obtain ⟨hsilent, p, hp, hasked, hchecked, hslept, -⟩ := afterFailure_eq_ok.mp hafter
        have hempty : o.chunks = [] := by simpa using hsilent
        exact absurd ⟨hresult, hempty, hasked, hchecked, hslept⟩ (h p e hp)

/-- A normal policy asks for another attempt only after a failure with one of its codes, and while it has retries left. -/
theorem RetryPolicy.shouldRetry_normal {p : RetryPolicy} (hmode : p.mode = .normal) {code : String} {spent : Nat} :
    p.shouldRetry code spent = true ↔ spent < p.maxRetries ∧ code ∈ p.retryableCodes := by
  simp [RetryPolicy.shouldRetry, hmode]

/-! ## What the consumer sees -/

/-- What a call makes of the attempts that the adapter would make, from a number of retries on. -/
structure Accounted (policy : Option ResolvedRetryPolicy) (attempts : Nat) (outcomes : List (AttemptOutcome χ))
    (served : ServedCall χ) : Prop where
  /-- It makes them in order. -/
  made : served.retried = outcomes.take served.retried.length
  ended : served.last = outcomes[served.retried.length]?
  /-- Each but the last failed so that another one followed, after the policy's own delay. -/
  retried : ∀ i o, served.retried[i]? = some o → ∃ p e, policy = some p ∧ Retried p (attempts + i) o e ∧
    served.delays[i]? = some (p.delayFor (attempts + i + 1) o.draw)
  /-- The last one did not. -/
  settled : ∀ o, served.last = some o → ∀ p e, policy = some p → ¬Retried p (attempts + served.retried.length) o e

/-- The attempts of a call are the adapter's, each but the last one retried; the consumer sees the chunks of the last of them, after
what it has. -/
theorem adapterStream_spec (policy : Option ResolvedRetryPolicy) (attempts : Nat) (yielded : List χ)
    (outcomes : List (AttemptOutcome χ)) :
    (adapterStream policy attempts yielded outcomes).chunks =
        yielded ++ (adapterStream policy attempts yielded outcomes).last.elim [] (·.chunks) ∧
      Accounted policy attempts outcomes (adapterStream policy attempts yielded outcomes) := by
  induction outcomes generalizing attempts with
  | nil =>
    exact ⟨by simp [adapterStream], by simp [adapterStream], by simp [adapterStream], by simp [adapterStream],
      by simp [adapterStream]⟩
  | cons o outcomes ih =>
    by_cases hretried : ∃ p e, policy = some p ∧ Retried p attempts o e
    · obtain ⟨p, e, rfl, hretried⟩ := hretried
      obtain ⟨hchunks, hrest⟩ := ih (attempts + 1)
      have hplus : ∀ i, attempts + (i + 1) = attempts + 1 + i := fun i => by omega
      rw [adapterStream_retried hretried]
      refine ⟨hchunks, ?_, ?_, ?_, ?_⟩
      · rw [List.length_cons, List.take_succ_cons, ← hrest.made]
      · simpa using hrest.ended
      · intro i o' ho'
        cases i with
        | zero =>
          cases ho'
          exact ⟨p, e, rfl, hretried, rfl⟩
        | succ i =>
          rw [hplus]
          exact hrest.retried i o' ho'
      · intro o' ho'
        rw [List.length_cons, hplus]
        exact hrest.settled o' ho'
    · have hlast : ∀ p e, policy = some p → ¬Retried p attempts o e := fun p e hp h => hretried ⟨p, e, hp, h⟩
      obtain ⟨result, hcall⟩ := @adapterStream_last χ policy attempts yielded o outcomes hlast
      rw [hcall]
      refine ⟨by simp, by simp, by simp, by simp, ?_⟩
      rintro o' ⟨⟩
      exact hlast

theorem Accounted.silent {served : ServedCall χ} (h : Accounted policy attempts outcomes served) (o : AttemptOutcome χ)
    (ho : o ∈ served.retried) : o.chunks = [] := by
  obtain ⟨i, hi⟩ := List.getElem?_of_mem ho
  obtain ⟨p, e, -, hretried, -⟩ := h.retried i o hi
  exact hretried.silent

/-- An attempt that is made is followed by another one exactly if it is one to retry. -/
theorem Accounted.lt_iff {served : ServedCall χ} (h : Accounted policy attempts outcomes served) {i : Nat}
    (hi : i ≤ served.retried.length) (ho : outcomes[i]? = some o) :
    i < served.retried.length ↔ ∃ p e, policy = some p ∧ Retried p (attempts + i) o e := by
  constructor
  · intro hlt
    have hsame : served.retried[i]? = some o := by rw [h.made, List.getElem?_take_of_lt hlt, ho]
    obtain ⟨p, e, hp, hretried, -⟩ := h.retried i o hsame
    exact ⟨p, e, hp, hretried⟩
  · rintro ⟨p, e, hp, hretried⟩
    by_contra hge
    obtain rfl : i = served.retried.length := by omega
    exact h.settled o (h.ended.trans ho) p e hp hretried

/-- A call in normal mode spends no more retries than the policy has. -/
theorem Accounted.retried_le {p : ResolvedRetryPolicy} (hmode : p.mode = .normal) {served : ServedCall χ}
    (h : Accounted (some p) 0 outcomes served) : served.retried.length ≤ p.maxRetries := by
  by_contra hle
  have hlt : p.maxRetries < served.retried.length := Nat.lt_of_not_le hle
  obtain ⟨p', e, hp, hretried, -⟩ := h.retried _ _ (List.getElem?_eq_getElem hlt)
  cases hp
  have hspent := ((RetryPolicy.shouldRetry_normal hmode).mp hretried.asked).1
  omega

/-- Whatever the attempts of a call meet, its consumer sees the chunks of one of them, those before it having yielded none. In normal
mode only failures with the policy's codes are retried, and there are at most `maxRetries + 1` attempts. -/
theorem adapterStream_invisible (policy : Option ResolvedRetryPolicy) (outcomes : List (AttemptOutcome χ)) :
    let served := adapterStream policy 0 [] outcomes
    served.retried = outcomes.take served.retried.length ∧ served.last = outcomes[served.retried.length]? ∧
      (∀ o ∈ served.retried, o.chunks = []) ∧ served.chunks = served.last.elim [] (·.chunks) ∧
      (∀ p, policy = some p → p.mode = .normal →
        (∀ o ∈ served.retried, ∃ e, o.result = .error (.llm e) ∧ e.code ∈ p.retryableCodes) ∧
          served.retried.length + 1 ≤ p.maxRetries + 1) := by
  intro served
  obtain ⟨hchunks, hserved⟩ := adapterStream_spec policy 0 [] outcomes
  refine ⟨hserved.made, hserved.ended, hserved.silent, by simpa using hchunks, ?_⟩
  rintro p rfl hmode
  refine ⟨?_, Nat.succ_le_succ (hserved.retried_le hmode)⟩
  intro o ho
  obtain ⟨i, hi⟩ := List.getElem?_of_mem ho
  obtain ⟨p', e, hp, hretried, -⟩ := hserved.retried i o hi
  cases hp
  exact ⟨e, hretried.failed, ((RetryPolicy.shouldRetry_normal hmode).mp hretried.asked).2⟩

end Pydsh
