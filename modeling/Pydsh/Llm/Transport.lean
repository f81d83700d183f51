import Mathlib.Algebra.Field.Rat
import Pydsh.Llm.Service
import Pydsh.Llm.Shapes
import Pydsh.Python.Pattern

/-!
# From the transport to the retries

A failure of the endpoint is named three times before a policy decides on it. The default transport calls every refusal
`HTTP_<status>`, and lets the exceptions of httpx through as they are (`llm/adapters/transport.py`, `httpx_transport`); a bound on
silence, where an adapter has one, raises `TIMEOUT` (`with_idle_timeout`); and one adapter reads the status and the body and gives
the code a sharper name (`llm/adapters/deepseek.py`, `reclassify`). `sharpens` says which failures come out of this with a code that is
retried by default.
-/

namespace Pydsh

/-! ## The default transport -/

/-- The backslash and the two quotes, as code points. -/
def backslash : Char := Char.ofNat 92

def singleQuote : Char := Char.ofNat 39

def doubleQuote : Char := Char.ofNat 34

/-- A byte in the `repr` of a `bytes` object between quotes. -/
def reprByte (quote : Char) (b : UInt8) : List Char :=
  let c := Char.ofNat b.toNat
  let hex := fun n => (Nat.digitChar n)
  if c = quote ∨ c = backslash then [backslash, c]
  else if b = 9 then [backslash, 't']
  else if b = 10 then [backslash, 'n']
  else if b = 13 then [backslash, 'r']
  else if b < 32 ∨ 127 ≤ b then [backslash, 'x', hex (b.toNat / 16), hex (b.toNat % 16)]
  else [c]

/-- `repr` of a `bytes` object. -/
def reprBytes (bytes : List UInt8) : String :=
  let quote := if 39 ∈ bytes ∧ 34 ∉ bytes then doubleQuote else singleQuote
  String.ofList (['b', quote] ++ bytes.flatMap (reprByte quote) ++ [quote])

/-- The `LlmError` of `httpx_transport` for an answer with a status from 400 on; 200 is `ERROR_BODY_CHARS`. -/
def httpError (status : Nat) (body : List UInt8) : LlmError :=
  { message := "HTTP " ++ toString status ++ ": " ++ reprBytes (body.take 200)
    code := "HTTP_" ++ toString status }

/-- `TransportUnavailable`. -/
def transportUnavailable : LlmError :=
  { name := "TransportUnavailable"
    message := "no transport was supplied and httpx is not installed; install pydsh[http] or pass transport= when registering the adapter"
    code := "TRANSPORT_UNAVAILABLE" }

/-- How the lines of an answer end: by themselves, with an exception of httpx, or not at all, until httpx gives up with its own. -/
inductive LinesEnd where
  | closed
  | broken (error : String)
  | stalled (readTimeout : String)

/-- What the default transport meets: httpx is not there, the connection fails with an exception of httpx, the answer has a status from
400 on, or its lines come (none of them where the endpoint never answers). -/
inductive Exchange where
  | unavailable
  | unreachable (error : String)
  | refused (status : Nat) (body : List UInt8)
  | answered (lines : List String) (ending : LinesEnd)

/-- `DEFAULT_TIMEOUT_SECONDS`, which httpx waits for a read. -/
def defaultTimeoutSeconds : ℚ≥0 := 300

/-- The bound of `with_idle_timeout`, with the text that its message has. -/
structure IdleBound where
  seconds : ℚ≥0
  text : String

/-- The `LlmError` of `with_idle_timeout`. -/
def IdleBound.error (bound : IdleBound) : LlmError :=
  { message := "the stream produced nothing for " ++ bound.text ++ "s"
    code := "TIMEOUT" }

/-- How lines end for the adapter: a silence runs into its own bound, if that is not the longer one, or else into that of httpx. -/
def LinesEnd.result (bound : Option IdleBound) : LinesEnd → Except StreamError Unit
  | .closed => .ok ()
  | .broken error => .error (.other (.failed error))
  | .stalled readTimeout =>
    match bound with
    | some bound =>
      if bound.seconds ≤ defaultTimeoutSeconds then .error (.llm bound.error) else .error (.other (.failed readTimeout))
    | none => .error (.other (.failed readTimeout))

namespace Exchange

/-- The lines that come. -/
def lines : Exchange → List String
  | .answered lines _ => lines
  | _ => []

/-- How they end, where the adapter bounds the silence between them. -/
def ending (bound : Option IdleBound) : Exchange → Except StreamError Unit
  | .unavailable => .error (.llm transportUnavailable)
  | .unreachable error => .error (.other (.failed error))
  | .refused status body => .error (.llm (httpError status body))
  | .answered _ ending => ending.result bound

end Exchange

/-! ## What DeepSeek makes of a refusal -/

section

open Pattern

/-- `[\s_-]+`. -/
def gap : Pattern := .run (fun c => isSpace c || c == '_' || c == '-')

/-- `\s+`. -/
def spaces : Pattern := .run isSpace

/-- `credits?`. -/
def credits : Pattern := all (word "credit") [.opt (word "s")]

/-- `_QUOTA_PATTERNS`. -/
def quotaPatterns : List Pattern :=
  [all .edge [word "insufficient", gap, .alt (words "quota" ["balance"]) credits, .edge],
    all .edge [.alt (word "quota") (all (word "usage") [gap, word "limit"]), gap, words "exceeded" ["exhausted", "reached"], .edge],
    all .edge [.alt (word "balance") credits, gap,
      .opt (all (words "is" ["are", "was", "were", "has", "have"]) [gap, .opt (all (word "been") [gap])]),
      words "exhausted" ["depleted"], .edge],
    all .edge [word "out", gap, word "of", gap, .alt credits (word "budget"), .edge]]

/-- `_CONTEXT_WINDOW_PATTERNS`. -/
def contextWindowPatterns : List Pattern :=
  [all .edge [words "maximum" ["max"], .opt (all spaces [words "allowed" ["supported"]]), spaces, word "context", spaces,
      words "length" ["window"], .edge],
    all .edge [words "input" ["prompt", "request"], spaces, .opt (all (word "is") [spaces]), word "too", spaces,
      words "long" ["large"], spaces, word "for", spaces, words "this" ["the"], spaces, word "model", .edge],
    all .edge [words "context" ["token"], gap, words "length" ["window"], gap,
      .alt (word "exceeded") (all (word "too") [gap, word "long"]), .edge]]

end

/-- `is_quota_exceeded`. -/
def isQuotaExceeded (detail : String) : Bool := quotaPatterns.any (·.search detail)

/-- `is_context_window_exceeded`. -/
def isContextWindowExceeded (detail : String) : Bool := contextWindowPatterns.any (·.search detail)

/-- The error body of a provider, `error_detail` of it; an entry that is missing is empty. -/
structure ErrorBody where
  code : String := ""
  type : String := ""
  message : String := ""

/-- `error_detail`. -/
def ErrorBody.detail (error : ErrorBody) : String :=
  " ".intercalate ([error.code, error.type, error.message].filter (· ≠ ""))

/-- `http_error_code`. -/
def httpErrorCode (status : Nat) (error : ErrorBody) : String :=
  if status = 401 ∨ status = 403 then "AUTH"
  else if isQuotaExceeded error.detail then "QUOTA"
  else if status = 429 then "RATE_LIMIT"
  else if status = 400 then
    if isContextWindowExceeded error.detail then "CONTEXT_WINDOW_EXCEEDED" else "INVALID_REQUEST"
  else if 500 ≤ status then "SERVER"
  else "HTTP_" ++ toString status

/-- The status in a code that `HTTP_(\d{3})` matches whole. -/
def httpStatus? (code : String) : Option Nat :=
  if "HTTP_".toList.isPrefixOf code.toList then
    let digits := code.toList.drop 5
    if digits.length = 3 ∧ digits.all Char.isDigit then some (Nat.ofDigitChars 10 digits 0) else none
  else none

/-- `reclassify`. -/
def reclassify (error : LlmError) : LlmError :=
  match httpStatus? error.code with
  | none => error
  | some status =>
    let code := httpErrorCode status { message := error.message }
    if code = error.code then error
    else
      { message := error.message
        code }

/-! ## The adapters -/

/-- `OpenAICompatibleAdapter`; `DeepSeekAdapter` with its `idle_timeout`; `PiAiAdapter` with the `stream_idle_timeout` of the route, which
`resolve_profiles` has checked. -/
inductive AdapterClass where
  | openAICompatible
  | deepSeek (idleTimeout : IdleBound)
  | piAi (streamIdleTimeout : IdleBound) (positive : 0 < streamIdleTimeout.seconds)

/-- What a request to an adapter meets: how it goes up to the transport, what the transport meets, the abort of the signal once so many
lines have come, and the delay after it. -/
structure TransportedRequest where
  setup : Except StreamError Unit := .ok ()
  exchange : Exchange
  abort : Option (Nat × PyValue) := none
  draw : Rat := 0
  slept : Except Raised Unit := .ok ()

namespace AdapterClass

/-- The bound on the silence between lines: `wrap_lines`, or `with_idle_timeout` in the `stream` of pi-ai. -/
def idleBound : AdapterClass → Option IdleBound
  | .openAICompatible => none
  | .deepSeek idleTimeout => if idleTimeout.seconds = 0 then none else some idleTimeout
  | .piAi streamIdleTimeout _ => some streamIdleTimeout

/-- What an adapter raises for an error of its stream. -/
def raised : AdapterClass → StreamError → StreamError
  | .deepSeek _, .llm error => .llm (reclassify error)
  | _, error => error

/-- How a request goes. -/
def ended (adapter : AdapterClass) (wire : Wire) (r : TransportedRequest) : AttemptEnd :=
  ({ setup := r.setup
     lines := r.exchange.lines
     ending := r.exchange.ending adapter.idleBound } : Attempt).run wire (r.abort.map (·.1))

/-- The attempt of the service that a request is. -/
def outcome (adapter : AdapterClass) (wire : Wire) (r : TransportedRequest) : AttemptOutcome StreamChunk :=
  { chunks := (adapter.ended wire r).chunks
    result := (adapter.ended wire r).result.mapError adapter.raised
    checked := match r.abort with
      | some (_, reason) => if (adapter.ended wire r).aborted then .error (.cancelled reason) else .ok ()
      | none => .ok ()
    draw := r.draw
    slept := r.slept }

end AdapterClass

/-! ## Which failures are retried -/

/-- A policy in normal mode with the codes that are retried by default. -/
def normalPolicy (maxRetries initialDelayMs maxDelayMs : Nat) (jitterRatio : Rat) : ResolvedRetryPolicy :=
  { mode := .normal
    maxRetries
    initialDelayMs
    maxDelayMs
    jitterRatio }

/-- The refusal says that the quota is spent. -/
def quotaSpent (status : Nat) (body : List UInt8) : Bool := isQuotaExceeded (httpError status body).message

namespace Exchange

/-- A failure that passes: a rate limit, a server error, a connection that fails, or a stall. -/
def Transient : Exchange → Prop
  | .refused status body => (status = 429 ∧ quotaSpent status body = false) ∨ 500 ≤ status
  | .unreachable _ | .answered _ (.broken _) | .answered _ (.stalled _) => True
  | .unavailable | .answered _ .closed => False

/-- A failure that stays: a spent quota, or an invalid request. -/
def Lasting : Exchange → Prop
  | .refused status body => quotaSpent status body = true ∨ status = 400
  | _ => False

end Exchange

/-- The adapter gives a failure a code that is retried by default: DeepSeek for a status, and who bounds the silence no later than httpx
does for a stall. -/
def AdapterClass.sharpens (adapter : AdapterClass) : Exchange → Prop
  | .refused status body =>
    (∃ idleTimeout, adapter = .deepSeek idleTimeout) ∧ (status = 429 ∨ 500 ≤ status ∧ status ≤ 999) ∧ quotaSpent status body = false
  | .answered _ (.stalled _) => ∃ bound, adapter.idleBound = some bound ∧ bound.seconds ≤ defaultTimeoutSeconds
  | _ => False

/-- A request fails with what the transport meets, before its first chunk: it gets as far, the lines that come bring neither the end of
the stream nor a chunk nor an error of the translation, and the signal is not aborted. -/
structure TransportedRequest.FailsOutside (wire : Wire) (r : TransportedRequest) : Prop where
  setup : r.setup = .ok ()
  unfinished : (wire.read (r.exchange.lines.filterMap payloadOf) {}).1 = .ok false
  silent : (wire.read (r.exchange.lines.filterMap payloadOf) {}).2.yielded = []
  live : ∀ n reason, r.abort = some (n, reason) → r.exchange.lines.length < n

/-- The codes that are retried by default begin with another letter than the code of a status. -/
theorem not_retryable_status (status : Nat) (maxRetries initialDelayMs maxDelayMs : Nat) (jitterRatio : Rat) :
    "HTTP_" ++ toString status ∉ (normalPolicy maxRetries initialDelayMs maxDelayMs jitterRatio).retryableCodes := by
  have hfirst : ∀ code ∈ ["EMPTY_RESPONSE", "RATE_LIMIT", "SERVER", "TIMEOUT", "TRANSPORT"], code.toList.head? ≠ some 'H' := by
    decide
  intro hmem
  exact hfirst _ hmem (by simp)

/-- The status of an answer is found in its code again, if it has three digits. -/
theorem httpStatus?_code (status : Nat) :
    httpStatus? ("HTTP_" ++ toString status) = if 100 ≤ status ∧ status ≤ 999 then some status else none := by
  have hprefix : "HTTP_".toList.isPrefixOf ("HTTP_" ++ toString status).toList = true := by simp
  have hdrop : ("HTTP_" ++ toString status).toList.drop 5 = Nat.toDigits 10 status := by
    simp
  have hdigits : (Nat.toDigits 10 status).all Char.isDigit = true := by
    rw [List.all_eq_true]
    exact fun c hc => Nat.isDigit_of_mem_toDigits (by decide) (by decide) hc
  have hthree : (Nat.toDigits 10 status).length = 3 ↔ 100 ≤ status ∧ status ≤ 999 := by
    have htwo := Nat.length_toDigits_le_iff (n := status) (b := 10) (k := 2) (by decide) (by decide)
    have hthree := Nat.length_toDigits_le_iff (n := status) (b := 10) (k := 3) (by decide) (by decide)
    omega
  unfold httpStatus?
  rw [if_pos hprefix, hdrop]
  simp [hthree, hdigits, Nat.ofDigitChars_ten_toDigits]

section

variable {maxRetries initialDelayMs maxDelayMs : Nat} {jitterRatio : Rat}

/-- A policy of the default codes asks for another attempt only after one of them. -/
theorem mem_retryableCodes {code : String} :
    code ∈ (normalPolicy maxRetries initialDelayMs maxDelayMs jitterRatio).retryableCodes ↔
      code = "EMPTY_RESPONSE" ∨ code = "RATE_LIMIT" ∨ code = "SERVER" ∨ code = "TIMEOUT" ∨ code = "TRANSPORT" := by
  simp [normalPolicy]

/-- A status and an error body are named with a code that is retried by default where they are a rate limit or a server error, and say
nothing of a quota. -/
theorem httpErrorCode_retryable (status : Nat) (error : ErrorBody) :
    httpErrorCode status error ∈ (normalPolicy maxRetries initialDelayMs maxDelayMs jitterRatio).retryableCodes ↔
      (status = 429 ∨ 500 ≤ status) ∧ isQuotaExceeded error.detail = false := by
  have hstatus := not_retryable_status status maxRetries initialDelayMs maxDelayMs jitterRatio
  rw [mem_retryableCodes] at hstatus ⊢
  unfold httpErrorCode
  by_cases hauth : status = 401 ∨ status = 403
  · rw [if_pos hauth]
    simp only [String.reduceEq, or_self, false_iff]
    omega
  · rw [if_neg hauth]
    cases hquota : isQuotaExceeded error.detail with
    | true => simp
    | false =>
      rw [if_neg Bool.false_ne_true]
      by_cases hrate : status = 429
      · simp [hrate]
      · rw [if_neg hrate]
        by_cases hrequest : status = 400
        · rw [if_pos hrequest, hrequest]
          cases isContextWindowExceeded error.detail <;> simp
        · rw [if_neg hrequest]
          by_cases hserver : 500 ≤ status
          · simp [hserver]
          · rw [if_neg hserver]
            simp only [hstatus, hrate, hserver, or_self, false_and]

/-- DeepSeek's code for a refusal is retried by default after a rate limit or a server error that says nothing of a quota. -/
theorem reclassify_retryable (status : Nat) (body : List UInt8) :
    (reclassify (httpError status body)).code ∈ (normalPolicy maxRetries initialDelayMs maxDelayMs jitterRatio).retryableCodes ↔
      (status = 429 ∨ 500 ≤ status ∧ status ≤ 999) ∧ quotaSpent status body = false := by
  have hcode : (reclassify (httpError status body)).code =
      if 100 ≤ status ∧ status ≤ 999 then httpErrorCode status { message := (httpError status body).message }
      else "HTTP_" ++ toString status := by
    unfold reclassify
    have hstatus : httpStatus? (httpError status body).code = _ := httpStatus?_code status
    rw [hstatus]
    by_cases hthree : 100 ≤ status ∧ status ≤ 999
    · simp only [if_pos hthree]
      split
      · rename_i hsame
        exact hsame.symm
      · rfl
    · simp only [if_neg hthree]
      rfl
  have hdetail : ({ message := (httpError status body).message } : ErrorBody).detail = (httpError status body).message := by
    have hne : (httpError status body).message ≠ "" := by simp [httpError]
    simp [ErrorBody.detail, hne]
  rw [hcode]
  by_cases hthree : 100 ≤ status ∧ status ≤ 999
  · rw [if_pos hthree, httpErrorCode_retryable, hdetail]
    refine and_congr_left' (or_congr_right ?_)
    exact ⟨fun h => ⟨h, hthree.2⟩, fun h => h.1⟩
  · rw [if_neg hthree]
    have hnot := not_retryable_status status maxRetries initialDelayMs maxDelayMs jitterRatio
    constructor
    · exact fun h => absurd h hnot
    · rintro ⟨hstatus, -⟩
      omega

/-- A request that fails outside yields nothing, fails as its exchange does (or as a stream without its end), and finds the signal as it
was. -/
theorem ended_failsOutside {wire : Wire} {r : TransportedRequest} (adapter : AdapterClass) (h : r.FailsOutside wire) :
    adapter.ended wire r =
      ⟨[], (r.exchange.ending adapter.idleBound).bind (fun _ => .error (.llm streamClosed)), false⟩ := by
  have habort : ∀ n, r.abort.map (·.1) = some n → r.exchange.lines.length < n := by
    intro n hn
    obtain ⟨⟨n', reason⟩, habort, rfl⟩ := Option.map_eq_some_iff.mp hn
    exact h.live n' reason habort
  unfold AdapterClass.ended Attempt.run
  rw [h.setup]
  obtain ⟨t, hread, hsilent⟩ : ∃ t, wire.read (r.exchange.lines.filterMap payloadOf) {} = (.ok false, t) ∧ t.yielded = [] :=
    ⟨_, Prod.ext h.unfinished rfl, h.silent⟩
  cases hsignal : r.abort.map (·.1) with
  | none => simp [Attempt.heard, Attempt.cut, hread, hsilent]
  | some n =>
    have hlt := habort n hsignal
    have htake : r.exchange.lines.take n = r.exchange.lines := List.take_of_length_le (Nat.le_of_lt hlt)
    have hge : ¬n < r.exchange.lines.length := Nat.lt_asymm hlt
    simp [Attempt.heard, Attempt.cut, htake, hread, hsilent, hge, hlt]

/-- Where a request fails outside, the service makes another attempt exactly if the failure has a code to retry, there is a retry left
and the sleep ends by itself. -/
theorem retried_failsOutside {wire : Wire} {r : TransportedRequest} {adapter : AdapterClass} {policy : ResolvedRetryPolicy}
    (hmode : policy.mode = .normal) (h : r.FailsOutside wire) (spent : Nat) :
    (∃ e, Retried policy spent (adapter.outcome wire r) e) ↔
      (∃ e, (adapter.outcome wire r).result = .error (.llm e) ∧ e.code ∈ policy.retryableCodes) ∧ spent < policy.maxRetries ∧
        r.slept = .ok () := by
  have hended := ended_failsOutside adapter h
  have hsilent : (adapter.outcome wire r).chunks = [] := by
    unfold AdapterClass.outcome
    rw [hended]
  have hchecked : (adapter.outcome wire r).checked = .ok () := by
    unfold AdapterClass.outcome
    rw [hended]
    cases r.abort <;> simp
  constructor
  · rintro ⟨e, hretried⟩
    obtain ⟨hspare, hcode⟩ := (RetryPolicy.shouldRetry_normal hmode).mp hretried.asked
    exact ⟨⟨e, hretried.failed, hcode⟩, hspare, hretried.slept⟩
  · rintro ⟨⟨e, hfailed, hcode⟩, hspare, hslept⟩
    exact ⟨e, hfailed, hsilent, (RetryPolicy.shouldRetry_normal hmode).mpr ⟨hspare, hcode⟩, hchecked, hslept⟩

@[simp] theorem raised_other (adapter : AdapterClass) (e : Raised) : adapter.raised (.other e) = .other e := by
  cases adapter <;> rfl

@[simp] theorem raised_timeout (adapter : AdapterClass) (bound : IdleBound) :
    adapter.raised (.llm bound.error) = .llm bound.error := by
  have hname : httpStatus? bound.error.code = none := by
    change httpStatus? "TIMEOUT" = none
    decide
  have hsame : reclassify bound.error = bound.error := by
    unfold reclassify
    rw [hname]
  cases adapter <;> simp [AdapterClass.raised, hsame]

/-- A request that fails outside raises what the adapter makes of the error that its exchange ends with. -/
theorem result_failsOutside {wire : Wire} {r : TransportedRequest} {adapter : AdapterClass} (h : r.FailsOutside wire)
    {error : StreamError} (hending : r.exchange.ending adapter.idleBound = .error error) :
    (adapter.outcome wire r).result = .error (adapter.raised error) := by
  unfold AdapterClass.outcome
  rw [ended_failsOutside adapter h, hending]
  rfl

/-- What an adapter raises for a request that fails outside has a code to retry exactly if the adapter sharpens the failure, which is one
that passes or stays. -/
theorem retryable_failsOutside {wire : Wire} {r : TransportedRequest} (adapter : AdapterClass) (h : r.FailsOutside wire)
    (hfailure : r.exchange.Transient ∨ r.exchange.Lasting) :
    (∃ e, (adapter.outcome wire r).result = .error (.llm e) ∧
        e.code ∈ (normalPolicy maxRetries initialDelayMs maxDelayMs jitterRatio).retryableCodes) ↔
      adapter.sharpens r.exchange := by
  have hresult : ∀ error, r.exchange.ending adapter.idleBound = .error error →
      (adapter.outcome wire r).result = .error (adapter.raised error) := fun _ => result_failsOutside h
  cases hexchange : r.exchange with
  | unavailable => simp [hexchange, Exchange.Transient, Exchange.Lasting] at hfailure
  | unreachable error =>
    rw [hexchange] at hresult
    rw [hresult _ rfl]
    simp [AdapterClass.sharpens]
  | refused status body =>
    rw [hexchange] at hresult
    rw [hresult _ rfl]
    have hplain : (httpError status body).code ∉
        (normalPolicy maxRetries initialDelayMs maxDelayMs jitterRatio).retryableCodes :=
      not_retryable_status status maxRetries initialDelayMs maxDelayMs jitterRatio
    cases adapter with
    | openAICompatible => simp [AdapterClass.raised, AdapterClass.sharpens, hplain]
    | deepSeek idleTimeout => simp [AdapterClass.raised, AdapterClass.sharpens, reclassify_retryable]
    | piAi streamIdleTimeout positive => simp [AdapterClass.raised, AdapterClass.sharpens, hplain]
  | answered lines ending =>
    rw [hexchange] at hresult
    cases ending with
    | closed => simp [hexchange, Exchange.Transient, Exchange.Lasting] at hfailure
    | broken error =>
      rw [hresult _ rfl]
      simp [AdapterClass.sharpens]
    | stalled readTimeout =>
      cases hbound : adapter.idleBound with
      | none =>
        have hending : (Exchange.answered lines (.stalled readTimeout)).ending adapter.idleBound =
            .error (.other (.failed readTimeout)) := by
          rw [hbound]
          rfl
        rw [hresult _ hending]
        simp [AdapterClass.sharpens, hbound]
      | some bound =>
        by_cases hsooner : bound.seconds ≤ defaultTimeoutSeconds
        · have hending : (Exchange.answered lines (.stalled readTimeout)).ending adapter.idleBound = .error (.llm bound.error) := by
            simp [Exchange.ending, LinesEnd.result, hbound, hsooner]
          have hcode : bound.error.code ∈ (normalPolicy maxRetries initialDelayMs maxDelayMs jitterRatio).retryableCodes :=
            mem_retryableCodes.mpr (by simp [IdleBound.error])
          rw [hresult _ hending]
          simp [AdapterClass.sharpens, hbound, hsooner, hcode]
        · have hending : (Exchange.answered lines (.stalled readTimeout)).ending adapter.idleBound =
              .error (.other (.failed readTimeout)) := by
            simp [Exchange.ending, LinesEnd.result, hbound, hsooner]
          rw [hresult _ hending]
          simp [AdapterClass.sharpens, hbound, hsooner]

/-- The calls of an adapter with requests one after another, under a normal policy. -/
def AdapterClass.serve (adapter : AdapterClass) (wire : Wire) (policy : ResolvedRetryPolicy) (requests : List TransportedRequest) :
    ServedCall StreamChunk :=
  adapterStream (some policy) 0 [] (requests.map (adapter.outcome wire))

/-- In every call, whatever its requests meet, a request that is made and fails outside is retried, while there is a retry left and the
sleep ends by itself, exactly if the adapter sharpens its failure, should this be one that passes; and one that stays is not retried. -/
theorem transient_retried_iff (wire : Wire) (adapter : AdapterClass) (requests : List TransportedRequest) {i : Nat}
    {r : TransportedRequest} (hr : requests[i]? = some r)
    (hmade : i ≤ (adapter.serve wire (normalPolicy maxRetries initialDelayMs maxDelayMs jitterRatio) requests).retried.length)
    (hfails : r.FailsOutside wire) :
    let served := adapter.serve wire (normalPolicy maxRetries initialDelayMs maxDelayMs jitterRatio) requests
    (r.exchange.Transient → i < maxRetries → r.slept = .ok () →
        (i < served.retried.length ↔ adapter.sharpens r.exchange)) ∧
      (r.exchange.Lasting → ¬i < served.retried.length) := by
  intro served
  obtain ⟨-, hserved⟩ := adapterStream_spec (some (normalPolicy maxRetries initialDelayMs maxDelayMs jitterRatio)) 0 []
    (requests.map (adapter.outcome wire))
  have houtcome : (requests.map (adapter.outcome wire))[i]? = some (adapter.outcome wire r) := by
    rw [List.getElem?_map, hr]
    rfl
  have hretried : i < served.retried.length ↔
      ∃ e, Retried (normalPolicy maxRetries initialDelayMs maxDelayMs jitterRatio) i (adapter.outcome wire r) e := by
    have hnext := hserved.lt_iff hmade houtcome
    rw [Nat.zero_add] at hnext
    refine hnext.trans ⟨?_, fun ⟨e, h⟩ => ⟨_, e, rfl, h⟩⟩
    rintro ⟨p, e, hp, h⟩
    cases hp
    exact ⟨e, h⟩
  have hasked : (∃ e, Retried (normalPolicy maxRetries initialDelayMs maxDelayMs jitterRatio) i (adapter.outcome wire r) e) ↔ _ :=
    retried_failsOutside rfl hfails i
  rw [hretried, hasked]
  constructor
  · intro htransient hspare hslept
    rw [retryable_failsOutside adapter hfails (.inl htransient)]
    exact ⟨fun h => h.1, fun h => ⟨h, hspare, hslept⟩⟩
  · intro hlasting h
    have hsharp := (retryable_failsOutside adapter hfails (.inr hlasting)).mp h.1
    cases hexchange : r.exchange with
    | refused status body =>
      rw [hexchange] at hsharp hlasting
      obtain ⟨-, hstatus, hquota⟩ := hsharp
      rcases hlasting with hspent | hinvalid
      · rw [hquota] at hspent
        cases hspent
      · omega
    | unavailable => exact (hexchange ▸ hlasting : Exchange.unavailable.Lasting)
    | unreachable error => exact (hexchange ▸ hlasting : (Exchange.unreachable error).Lasting)
    | answered lines ending => exact (hexchange ▸ hlasting : (Exchange.answered lines ending).Lasting)

/-- DeepSeek's bound on silence, as it is by default. -/
def defaultIdleTimeout : IdleBound where
  seconds := 300
  text := "300.0"

/-- A 503 of DeepSeek is retried. -/
theorem transient_retried_deepSeek :
    0 < ((AdapterClass.deepSeek defaultIdleTimeout).serve Wire.listWire (normalPolicy 2 500 10000 (1 / 10))
      [{ exchange := .refused 503 [] }]).retried.length := by
  have hfails : ({ exchange := .refused 503 [] } : TransportedRequest).FailsOutside Wire.listWire :=
    ⟨rfl, rfl, rfl, by simp⟩
  have hiff := (@transient_retried_iff 2 500 10000 (1 / 10) Wire.listWire (.deepSeek defaultIdleTimeout)
    [{ exchange := .refused 503 [] }] 0 _ rfl (Nat.zero_le _) hfails).1 (.inr (by decide)) (by decide) rfl
  exact hiff.mpr ⟨⟨_, rfl⟩, .inr (by decide), by decide⟩

/-- A 503 of an OpenAI-compatible endpoint ends the call, though the next attempt would be answered and two retries are left. -/
theorem transient_not_retried :
    let refused : TransportedRequest := { exchange := .refused 503 [] }
    let served := AdapterClass.openAICompatible.serve Wire.listWire (normalPolicy 2 500 10000 (1 / 10))
      [refused, { exchange := .answered ["data: [DONE]"] .closed }]
    refused.exchange.Transient ∧ refused.FailsOutside Wire.listWire ∧ served.retried.length = 0 ∧
      served.result.isSome = true := by
  refine ⟨.inr (by decide), ⟨rfl, rfl, rfl, by simp⟩, ?_, ?_⟩
  · rfl
  · rfl

end

end Pydsh
