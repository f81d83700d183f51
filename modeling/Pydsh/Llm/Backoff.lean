import Pydsh.Llm.Service
import Pydsh.Mcp.Reconnect

/-!
# The delays between retries

`llm/retry.py`: `resolve_retry_policy` checks the retry settings of a route, and `delay_for` computes the delay before a retry, which
doubles from the initial delay on, stops at the maximum and is then spread at random. Here the doubling and the cap are over integers, and
only what is capped is made a float; but the maximum has no bound, and a delay that is no float raises. With the delays between
reconnects, `backoff_grows_iff` says which delays are as they are to be.
-/

namespace Pydsh

/-- Why a policy is refused: with a `RetryPolicyError`, or with the `TypeError` of `set`. -/
inductive RetryPolicyError where
  | invalid (message : String)
  | unhashable (message : String)

/-- The fields of a retry configuration. -/
def retryFields : List String := ["mode", "maxRetries", "retryableCodes", "backoff"]

/-- An `int` that is no bool and greater than zero. -/
def positiveInt? : PyValue → Option Nat
  | .int i => if i ≤ 0 then none else some i.toNat
  | _ => none

/-- `_validate_backoff`, with what it lets through. -/
def validateBackoff (initial maximum jitter : PyValue) : Except RetryPolicyError (Nat × Nat × ℚ) :=
  match positiveInt? initial with
  | none => .error (.invalid "initialDelayMs must be a positive integer")
  | some initial =>
    match positiveInt? maximum with
    | none => .error (.invalid "maxDelayMs must be a positive integer")
    | some maximum =>
      if initial > maximum then .error (.invalid "initialDelayMs must not exceed maxDelayMs")
      else
        match jitter.number? with
        | none => .error (.invalid "jitterRatio must be a number in [0, 1]")
        | some (.finite ratio) =>
          if 0 ≤ ratio ∧ ratio ≤ 1 then .ok (initial, maximum, ratio) else .error (.invalid "jitterRatio must be in [0, 1]")
        | some _ => .error (.invalid "jitterRatio must be in [0, 1]")

/-- The check of `mode`. -/
def checkMode (path : String) : PyValue → Except RetryPolicyError RetryMode
  | .str "normal" => .ok .normal
  | .str "always" => .ok .always
  | _ => .error (.invalid (path ++ ".mode must be one of ['normal', 'always']"))

/-- The check of `retryableCodes`. Of the codes, those that are strings are kept: no failure has another. -/
def checkCodes (path : String) : PyValue → Except RetryPolicyError (List String)
  | .none => .ok ["EMPTY_RESPONSE", "RATE_LIMIT", "SERVER", "TIMEOUT", "TRANSPORT"]
  | .list codes | .tuple codes =>
    if codes = [] then .error (.invalid (path ++ ".retryableCodes must be a non-empty array"))
    else do
      let keys ← (codes.mapM PyValue.hashKey).mapError .unhashable
      if keys.Nodup then
        return codes.filterMap (fun code =>
          match code with
          | .str code => some code
          | _ => none)
      else .error (.invalid (path ++ ".retryableCodes must not repeat a code"))
  | _ => .error (.invalid (path ++ ".retryableCodes must be a non-empty array"))

/-- The check of `maxRetries`. -/
def checkRetries (path : String) : PyValue → Except RetryPolicyError Nat
  | .int i => if i < 0 then .error (.invalid (path ++ ".maxRetries must be a non-negative integer")) else .ok i.toNat
  | _ => .error (.invalid (path ++ ".maxRetries must be a non-negative integer"))

/-- `resolve_retry_policy`, where `repr` is that of strings. -/
def resolveRetryPolicy (repr : String → String) (config : Option (List (String × PyValue))) (path : String) :
    Except RetryPolicyError ResolvedRetryPolicy :=
  match config with
  | none => .ok { mode := .normal }
  | some config =>
    let unknown := (config.map (·.1)).filter (fun key => key ∉ retryFields)
    if unknown ≠ [] then
      .error (.invalid (path ++ ": unknown field(s) [" ++
        ", ".intercalate ((unknown.mergeSort (fun a b => a ≤ b)).map repr) ++ "]"))
    else do
      let mode ← checkMode path ((field? config "mode").getD (.str "normal"))
      match ((field? config "backoff").getD .none).orElse (.dict []) with
      | .dict backoff =>
        let (initialDelayMs, maxDelayMs, jitterRatio) ← validateBackoff ((PyDict.get? backoff "initialDelayMs").getD (.int 500))
          ((PyDict.get? backoff "maxDelayMs").getD (.int 10000)) ((PyDict.get? backoff "jitterRatio").getD (.float (.finite (1 / 10))))
        let retryableCodes ← checkCodes path ((field? config "retryableCodes").getD .none)
        let maxRetries ← checkRetries path ((field? config "maxRetries").getD (.int 2))
        return { mode, maxRetries, retryableCodes, initialDelayMs, maxDelayMs, jitterRatio }
      | _ => .error (.invalid (path ++ ".backoff must be an object"))

namespace ResolvedRetryPolicy

variable (policy : ResolvedRetryPolicy)

/-- The delay before a retry, without jitter. -/
def base (attempt : Nat) : Nat := min (policy.initialDelayMs * 2 ^ (attempt - 1)) policy.maxDelayMs

/-- The jitter, `1.0 + random.uniform(-ratio, ratio)`, where `random.random` gives the draw. -/
def jitter (draw : PyFloat) : PyFloat :=
  let spread := (PyFloat.finite policy.jitterRatio).add (.finite policy.jitterRatio)
  (PyFloat.finite 1).add ((PyFloat.finite (-policy.jitterRatio)).add (spread.mul draw))

/-- `delay_for`; `none` where it raises. -/
def delaySeconds (attempt : Nat) (draw : PyFloat) : Option PyFloat :=
  (floatOfInt (policy.base attempt)).map (fun base => (base.mul (policy.jitter draw)).divBy 1000)

/-- The delay before a retry is defined, before jitter between the initial and the maximum one, and no less than before the retries
before. -/
structure Grows (attempt : Nat) : Prop where
  defined : ∀ draw, (policy.delaySeconds attempt draw).isSome = true
  lowest : policy.initialDelayMs ≤ policy.base attempt
  highest : policy.base attempt ≤ policy.maxDelayMs
  grows : ∀ earlier, 1 ≤ earlier → earlier ≤ attempt → policy.base earlier ≤ policy.base attempt

variable {policy}

/-- Of a policy with its delays in order, the delay before a retry is defined and in its bounds exactly if it is a float. -/
theorem grows_iff (hordered : policy.initialDelayMs ≤ policy.maxDelayMs) (attempt : Nat) :
    policy.Grows attempt ↔ policy.initialDelayMs * 2 ^ (attempt - 1) < overflowing ∨ policy.maxDelayMs < overflowing := by
  have hdefined : (∀ draw, (policy.delaySeconds attempt draw).isSome = true) ↔ policy.base attempt < overflowing := by
    rw [← floatOfInt_isSome_iff]
    simp only [delaySeconds, Option.isSome_map]
    exact ⟨fun h => h .nan, fun h _ => h⟩
  have hbase : policy.base attempt < overflowing ↔
      policy.initialDelayMs * 2 ^ (attempt - 1) < overflowing ∨ policy.maxDelayMs < overflowing := min_lt_iff
  rw [← hbase, ← hdefined]
  constructor
  · exact fun h => h.defined
  · intro h
    refine ⟨h, ?_, min_le_right _ _, ?_⟩
    · exact le_min (Nat.le_mul_of_pos_right _ (Nat.two_pow_pos _)) hordered
    · intro earlier _ hearlier
      exact min_le_min_right _ (Nat.mul_le_mul_left _ (Nat.pow_le_pow_right (by omega) (by omega)))

end ResolvedRetryPolicy

theorem le_of_validateBackoff {initial maximum jitter : PyValue} {initialDelayMs maxDelayMs : Nat} {ratio : ℚ}
    (h : validateBackoff initial maximum jitter = .ok (initialDelayMs, maxDelayMs, ratio)) : initialDelayMs ≤ maxDelayMs := by
  unfold validateBackoff at h
  split at h
  · contradiction
  · split at h
    · contradiction
    · split at h
      · contradiction
      · rename_i hordered
        split at h
        · contradiction
        · split at h
          · obtain ⟨rfl, heq⟩ := Prod.mk.inj (Except.ok.inj h)
            obtain ⟨rfl, -⟩ := Prod.mk.inj heq
            omega
          · contradiction
        · contradiction

theorem ordered_of_resolve {repr : String → String} {config : Option (List (String × PyValue))} {path : String}
    {policy : ResolvedRetryPolicy} (h : resolveRetryPolicy repr config path = .ok policy) :
    policy.initialDelayMs ≤ policy.maxDelayMs := by
  unfold resolveRetryPolicy at h
  split at h
  · obtain rfl := Except.ok.inj h
    decide
  · dsimp only at h
    split at h
    · contradiction
    · obtain ⟨mode, -, h⟩ := Except.bind_eq_ok_iff.mp h
      split at h
      · obtain ⟨⟨initialDelayMs, maxDelayMs, ratio⟩, hbackoff, h⟩ := Except.bind_eq_ok_iff.mp h
        obtain ⟨codes, -, h⟩ := Except.bind_eq_ok_iff.mp h
        obtain ⟨retries, -, h⟩ := Except.bind_eq_ok_iff.mp h
        obtain rfl := Except.ok.inj h
        exact le_of_validateBackoff hbackoff
      · contradiction

/-- Of a policy that is accepted, the delay before a reconnect is defined, in its bounds and no less than before exactly up to the 1024th
attempt and for delays that are no NaN; and the delay before a retry exactly if what is capped is a float. -/
theorem backoff_grows_iff (repr : String → String) (config : Option (List (String × PyValue))) (path : String) (attempt : Nat) :
    (∀ policy, resolveReconnectPolicy config path = .ok policy →
      (policy.Grows attempt ↔ attempt ≤ 1024 ∧ policy.initialDelay ≠ .nan ∧ policy.maxDelay ≠ .nan)) ∧
    ∀ policy, resolveRetryPolicy repr config path = .ok policy → 1 ≤ attempt →
      (policy.Grows attempt ↔ policy.initialDelayMs * 2 ^ (attempt - 1) < overflowing ∨ policy.maxDelayMs < overflowing) := by
  constructor
  · intro policy hresolve
    exact (accepted_of_resolve hresolve).grows_iff attempt
  · intro policy hresolve _
    exact policy.grows_iff (ordered_of_resolve hresolve) attempt

/-- A float that compares with none. -/
def PyFloat.isNan : PyFloat → Bool
  | .nan => true
  | _ => false

theorem PyFloat.isNan_iff {x : PyFloat} : x.isNan = true ↔ x = .nan := by
  cases x with
  | nan => exact iff_of_true rfl rfl
  | finite q => exact iff_of_false Bool.false_ne_true (by simp)
  | inf negative => exact iff_of_false Bool.false_ne_true (by simp)

/-- The delays when config says nothing. -/
theorem backoff_grows_default : ∃ policy retries, resolveReconnectPolicy none "reconnect" = .ok policy ∧
    resolveRetryPolicy id none "retry" = .ok retries ∧ policy.Grows 10 ∧ retries.Grows 2 := by
  obtain ⟨policy, hresolve, hnumbers⟩ := Except.exists_of_any (r := resolveReconnectPolicy none "reconnect")
    (fun policy => !policy.initialDelay.isNan && !policy.maxDelay.isNan) (by decide +kernel)
  obtain ⟨hinitial, hmaximum⟩ := Bool.and_eq_true_iff.mp hnumbers
  refine ⟨policy, _, hresolve, rfl, ((backoff_grows_iff id none "reconnect" 10).1 policy hresolve).mpr ⟨by decide, ?_, ?_⟩,
    ((backoff_grows_iff id none "retry" 2).2 _ rfl (by decide)).mpr (Or.inr (by decide +kernel))⟩
  · intro hnan
    rw [PyFloat.isNan_iff.mpr hnan] at hinitial
    contradiction
  · intro hnan
    rw [PyFloat.isNan_iff.mpr hnan] at hmaximum
    contradiction

/-- A route that is to wait longer than a float says. -/
def endless : List (String × PyValue) :=
  [("mode", .str "always"), ("backoff", .dict [(.str "maxDelayMs", .int (2 ^ 1024 : Nat))])]

/-- A server that is to be reached 2000 times has no delay before the 1025th; a maximum that is a NaN bounds nothing; and a retry whose
delay has grown past the floats raises. -/
theorem backoff_undefined :
    (∃ policy, resolveReconnectPolicy (some [("max_attempts", .int 2000)]) "reconnect" = .ok policy ∧ policy.maxAttempts = 2000 ∧
      policy.backoff 1025 = none) ∧
    (∃ policy, resolveReconnectPolicy (some [("max_delay", .float .nan)]) "reconnect" = .ok policy ∧
      ∀ delay, policy.backoff 1 = some delay → delay.le policy.maxDelay = false) ∧
    ∃ policy, resolveRetryPolicy id (some endless) "retry" = .ok policy ∧ policy.mode = .always ∧
      ∀ draw, policy.delaySeconds 1100 draw = none := by
  refine ⟨?_, ?_, ?_⟩
  · obtain ⟨policy, hresolve, hattempts⟩ := Except.exists_of_any
      (r := resolveReconnectPolicy (some [("max_attempts", .int 2000)]) "reconnect")
      (fun policy => policy.maxAttempts == 2000) (by decide +kernel)
    refine ⟨policy, hresolve, eq_of_beq hattempts, ?_⟩
    rw [ResolvedReconnect.backoff_eq, if_neg (by decide)]
  · obtain ⟨policy, hresolve, hnan⟩ := Except.exists_of_any
      (r := resolveReconnectPolicy (some [("max_delay", .float .nan)]) "reconnect")
      (fun policy => policy.maxDelay.isNan) (by decide +kernel)
    refine ⟨policy, hresolve, fun delay _ => ?_⟩
    rw [PyFloat.isNan_iff.mp hnan]
    exact Bool.eq_false_iff.mpr (fun hle => (PyFloat.ne_nan_of_le hle).2 rfl)
  · obtain ⟨policy, hresolve, hsettings⟩ := Except.exists_of_any (r := resolveRetryPolicy id (some endless) "retry")
      (fun policy => policy.mode == .always && !decide (policy.base 1100 < overflowing)) (by decide +kernel)
    obtain ⟨hmode, hlarge⟩ := Bool.and_eq_true_iff.mp hsettings
    refine ⟨policy, hresolve, eq_of_beq hmode, fun draw => ?_⟩
    have hnone : floatOfInt (policy.base 1100) = none := by
      rw [← Option.not_isSome_iff_eq_none, floatOfInt_isSome_iff]
      simpa using hlarge
    rw [ResolvedRetryPolicy.delaySeconds, hnone, Option.map_none]

end Pydsh
