import Pydsh.Lib.Result
import Pydsh.Mcp.Connection
import Pydsh.Python.Dynamic
import Pydsh.Python.Floats

/-!
# The delays between reconnects

`mcp/connection.py`: `resolve_reconnect_policy` checks the settings of a server, and `backoff` computes the delay before an attempt, which
doubles from the initial delay on and stops at the maximum. The power of two is made a float before the product is capped, and there is
no float for the 1025th attempt. And what the checks ask of a delay, that it is not `<= 0` and not `>` the maximum, is true of a NaN. So the
delay is defined, between the two and never less than before exactly up to the 1024th attempt and for delays that are no NaN
(`ResolvedReconnect.grows_iff`).
-/

namespace Pydsh

/-- Why a policy is refused: with an `McpConfigError`, or with the `OverflowError` of `float`. -/
inductive ReconnectError where
  | config (message : String)
  | overflow
  deriving DecidableEq

/-- What `resolve_reconnect_policy` returns. -/
structure ResolvedReconnect where
  enabled : Bool
  initialDelay : PyFloat
  maxDelay : PyFloat
  maxAttempts : Nat

/-- `RECONNECT_DEFAULTS`. -/
def reconnectDefaults : List (String × PyValue) :=
  [("enabled", .bool true), ("initial_delay", .float (.finite (1 / 2))), ("max_delay", .float (.finite 30)), ("max_attempts", .int 10)]

/-- A number that is no bool, by its value. -/
def PyValue.number? : PyValue → Option PyFloat
  | .int i => some (.finite i)
  | .float x => some x
  | _ => Option.none

/-- `float(value)`, of such a number. -/
def PyValue.toFloat : PyValue → Option PyFloat
  | .int i => floatOfInt i
  | .float x => some x.rounded
  | _ => Option.none

/-- A key of `{**RECONNECT_DEFAULTS, **config}`. -/
def reconnectOption (config : List (String × PyValue)) (key : String) : PyValue :=
  (field? config key).getD ((field? reconnectDefaults key).getD .none)

/-- The check of a delay. -/
def checkDelay (path key : String) (value : PyValue) : Except ReconnectError PyFloat :=
  match value.number? with
  | none => .error (.config (path ++ "." ++ key ++ " must be a positive number"))
  | some x => if x.le (.finite 0) then .error (.config (path ++ "." ++ key ++ " must be a positive number")) else .ok x

/-- The check of `max_attempts`. -/
def checkAttempts (path : String) : PyValue → Except ReconnectError Nat
  | .int attempts =>
    if attempts < 1 then .error (.config (path ++ ".max_attempts must be a positive integer")) else .ok attempts.toNat
  | _ => .error (.config (path ++ ".max_attempts must be a positive integer"))

/-- `resolve_reconnect_policy`. -/
def resolveReconnectPolicy (config : Option (List (String × PyValue))) (path : String) : Except ReconnectError ResolvedReconnect :=
  let config := config.getD []
  match config.find? (fun setting => (field? reconnectDefaults setting.1).isNone) with
  | some (key, _) => .error (.config
      (path ++ "." ++ key ++ " is not a reconnect option (options: enabled, initial_delay, max_attempts, max_delay)"))
  | none => do
    let initial ← checkDelay path "initial_delay" (reconnectOption config "initial_delay")
    let maximum ← checkDelay path "max_delay" (reconnectOption config "max_delay")
    if maximum.lt initial then .error (.config (path ++ ".initial_delay must not exceed " ++ path ++ ".max_delay"))
    else
      let maxAttempts ← checkAttempts path (reconnectOption config "max_attempts")
      let initialDelay ← ((reconnectOption config "initial_delay").toFloat).elim (.error .overflow) .ok
      let maxDelay ← ((reconnectOption config "max_delay").toFloat).elim (.error .overflow) .ok
      return {
        enabled := (reconnectOption config "enabled").truthy
        initialDelay
        maxDelay
        maxAttempts }

namespace ResolvedReconnect

/-- `backoff`; `none` where it raises. -/
def backoff (policy : ResolvedReconnect) (attempts : Nat) : Option PyFloat :=
  (floatOfInt (2 ^ (attempts - 1))).map (fun power => (policy.initialDelay.mul power).pyMin policy.maxDelay)

/-- The delay before an attempt is defined, between the initial and the maximum one, and no less than before the attempts before. -/
def Grows (policy : ResolvedReconnect) (attempts : Nat) : Prop :=
  ∃ delay, policy.backoff attempts = some delay ∧ policy.initialDelay.le delay = true ∧ delay.le policy.maxDelay = true ∧
    ∀ earlier ≤ attempts, ∃ before, policy.backoff earlier = some before ∧ before.le delay = true

end ResolvedReconnect

/-! ## What is accepted -/

/-- A float that the checks let through, or a NaN. -/
inductive PyFloat.IsDelay : PyFloat → Prop where
  | nan : IsDelay .nan
  | inf : IsDelay (.inf false)
  | finite {p q : ℚ} (hp : 0 ≤ p) (hround : roundDouble p = .finite q) : IsDelay (.finite q)

/-- The delays of an accepted policy are in order, unless one of them is a NaN. -/
structure ResolvedReconnect.Accepted (policy : ResolvedReconnect) : Prop where
  initial : policy.initialDelay.IsDelay
  maximum : policy.maxDelay.IsDelay
  ordered : policy.initialDelay ≠ .nan → policy.maxDelay ≠ .nan → policy.initialDelay.le policy.maxDelay = true

/-- What a check lets through is a NaN, infinite, or positive. -/
theorem checkDelay_ok {path key : String} {value : PyValue} {x : PyFloat} (h : checkDelay path key value = .ok x) :
    value.number? = some x ∧ (x = .nan ∨ x = .inf false ∨ ∃ p, x = .finite p ∧ 0 < p) := by
  unfold checkDelay at h
  split at h
  · contradiction
  · rename_i y hnumber
    split at h
    · contradiction
    · rename_i hpositive
      obtain rfl := Except.ok.inj h
      refine ⟨hnumber, ?_⟩
      cases y with
      | nan => exact Or.inl rfl
      | inf negative =>
        cases negative with
        | false => exact Or.inr (Or.inl rfl)
        | true => exact absurd rfl hpositive
      | finite p => exact Or.inr (Or.inr ⟨p, rfl, not_le.mp (fun hle => hpositive (decide_eq_true hle))⟩)

/-- `float` rounds. -/
theorem toFloat_eq {value : PyValue} {x y : PyFloat} (hnumber : value.number? = some x) (hfloat : value.toFloat = some y) :
    y = x.rounded := by
  cases value with
  | int i =>
    obtain rfl := Option.some.inj hnumber
    exact PyFloat.eq_of_notInf? hfloat
  | float f =>
    obtain rfl := Option.some.inj hnumber
    exact (Option.some.inj hfloat).symm
  | _ => contradiction

namespace PyFloat

variable {x y : PyFloat}

theorem isDelay_rounded (h : x = .nan ∨ x = .inf false ∨ ∃ p, x = .finite p ∧ 0 < p) : x.rounded.IsDelay := by
  rcases h with rfl | rfl | ⟨p, rfl, hp⟩
  · exact .nan
  · exact .inf
  · rw [rounded_finite]
    rcases roundDouble_cases hp.le with ⟨q, hround⟩ | hround
    · rw [hround]
      exact .finite hp.le hround
    · rw [hround]
      exact .inf

theorem rounded_le_rounded (hx : x = .inf false ∨ ∃ p, x = .finite p ∧ 0 < p) (hy : y = .inf false ∨ ∃ p, y = .finite p ∧ 0 < p)
    (h : y.lt x = false) : x.rounded.le y.rounded = true := by
  rcases hx with rfl | ⟨p, rfl, hp⟩
  · rcases hy with rfl | ⟨q, rfl, hq⟩
    · rfl
    · contradiction
  · rcases hy with rfl | ⟨q, rfl, hq⟩
    · rw [rounded_finite]
      rcases roundDouble_cases hp.le with ⟨q, hround⟩ | hround
      · rw [hround]
        rfl
      · rw [hround]
        rfl
    · rw [rounded_finite, rounded_finite]
      exact roundDouble_mono hp.le (not_lt.mp (of_decide_eq_false h))

theorem inf_mul_pow (n : Nat) : (inf false).mul (.finite (2 ^ n)) = .inf false := by
  have hpos : (0 : ℚ) < 2 ^ n := pow_pos two_pos n
  simp [mul, ne_of_gt hpos, not_lt.mpr hpos.le]

theorem IsDelay.mul_one (h : x.IsDelay) : x.mul (.finite (2 ^ 0)) = x := by
  cases h with
  | nan => rfl
  | inf => exact inf_mul_pow 0
  | finite hp hround =>
    rw [mul, pow_zero, Rat.mul_one]
    exact roundDouble_idem hp hround

theorem IsDelay.mul_pow_ne_nan (h : x.IsDelay) (hx : x ≠ .nan) (n : Nat) : x.mul (.finite (2 ^ n)) ≠ .nan := by
  cases h with
  | nan => exact absurd rfl hx
  | inf => simp [inf_mul_pow]
  | finite hp hround =>
    rw [mul, roundDouble_mul_pow hp hround]
    split
    · simp
    · simp

theorem IsDelay.mul_pow_mono (h : x.IsDelay) (hx : x ≠ .nan) {n m : Nat} (hle : n ≤ m) :
    (x.mul (.finite (2 ^ n))).le (x.mul (.finite (2 ^ m))) = true := by
  cases h with
  | nan => exact absurd rfl hx
  | inf =>
    rw [inf_mul_pow, inf_mul_pow]
    rfl
  | finite hp hround =>
    obtain ⟨hq, -⟩ := bits_of_roundDouble hp hround
    rw [mul, mul]
    refine roundDouble_mono (mul_nonneg hq (pow_nonneg zero_le_two n)) ?_
    exact mul_le_mul_of_nonneg_left (pow_le_pow_right₀ one_le_two hle) hq

end PyFloat

theorem accepted_of_resolve {config : Option (List (String × PyValue))} {path : String} {policy : ResolvedReconnect}
    (h : resolveReconnectPolicy config path = .ok policy) : policy.Accepted := by
  unfold resolveReconnectPolicy at h
  dsimp only at h
  split at h
  · contradiction
  · obtain ⟨initial, hinitial, h⟩ := Except.bind_eq_ok_iff.mp h
    obtain ⟨maximum, hmaximum, h⟩ := Except.bind_eq_ok_iff.mp h
    split at h
    · contradiction
    · rename_i hordered
      obtain ⟨attempts, -, h⟩ := Except.bind_eq_ok_iff.mp h
      obtain ⟨initialDelay, hinitialDelay, h⟩ := Except.bind_eq_ok_iff.mp h
      obtain ⟨maxDelay, hmaxDelay, h⟩ := Except.bind_eq_ok_iff.mp h
      obtain rfl := Except.ok.inj h
      obtain ⟨hinitialNumber, hinitialCases⟩ := checkDelay_ok hinitial
      obtain ⟨hmaximumNumber, hmaximumCases⟩ := checkDelay_ok hmaximum
      have hfloat : ∀ {value : PyValue} {y : PyFloat},
          value.toFloat.elim (.error .overflow) .ok = (.ok y : Except ReconnectError PyFloat) → value.toFloat = some y := by
        intro value y hok
        cases hvalue : value.toFloat with
        | none =>
          rw [hvalue] at hok
          cases hok
        | some z =>
          rw [hvalue] at hok
          exact congrArg some (Except.ok.inj hok)
      have hinitialEq := toFloat_eq hinitialNumber (hfloat hinitialDelay)
      have hmaximumEq := toFloat_eq hmaximumNumber (hfloat hmaxDelay)
      subst hinitialEq hmaximumEq
      refine ⟨PyFloat.isDelay_rounded hinitialCases, PyFloat.isDelay_rounded hmaximumCases, fun hinitialNan hmaximumNan => ?_⟩
      refine PyFloat.rounded_le_rounded ?_ ?_ (Bool.eq_false_iff.mpr hordered)
      · refine hinitialCases.resolve_left ?_
        rintro rfl
        exact hinitialNan rfl
      · refine hmaximumCases.resolve_left ?_
        rintro rfl
        exact hmaximumNan rfl

namespace ResolvedReconnect

variable {policy : ResolvedReconnect}

/-- The delay of the first 1024 attempts, and of none after them. -/
theorem backoff_eq (attempts : Nat) : policy.backoff attempts =
    if attempts ≤ 1024 then some ((policy.initialDelay.mul (.finite (2 ^ (attempts - 1)))).pyMin policy.maxDelay) else none := by
  unfold backoff
  rw [floatOfInt_pow]
  by_cases hle : attempts ≤ 1024
  · have hless : attempts - 1 < topBits := by
      unfold topBits
      omega
    rw [if_pos hle, if_pos hless]
    rfl
  · have hlarge : ¬ attempts - 1 < topBits := by
      unfold topBits
      omega
    rw [if_neg hle, if_neg hlarge]
    rfl

/-- Of an accepted policy, the delay before an attempt is defined, in its bounds, and no less than before, exactly up to the 1024th and for
delays that are no NaN. -/
theorem Accepted.grows_iff (h : policy.Accepted) (attempts : Nat) :
    policy.Grows attempts ↔ attempts ≤ 1024 ∧ policy.initialDelay ≠ .nan ∧ policy.maxDelay ≠ .nan := by
  constructor
  · rintro ⟨delay, hdelay, hinitial, hmaximum, -⟩
    refine ⟨?_, (PyFloat.ne_nan_of_le hinitial).1, (PyFloat.ne_nan_of_le hmaximum).2⟩
    by_contra hlarge
    rw [backoff_eq, if_neg hlarge] at hdelay
    cases hdelay
  · rintro ⟨hle, hinitial, hmaximum⟩
    refine ⟨_, by rw [backoff_eq, if_pos hle], ?_, ?_, ?_⟩
    · refine PyFloat.le_pyMin ?_ (h.ordered hinitial hmaximum)
      calc policy.initialDelay.le (policy.initialDelay.mul (.finite (2 ^ (attempts - 1))))
          = (policy.initialDelay.mul (.finite (2 ^ 0))).le (policy.initialDelay.mul (.finite (2 ^ (attempts - 1)))) := by
            rw [h.initial.mul_one]
        _ = true := h.initial.mul_pow_mono hinitial (Nat.zero_le _)
    · exact PyFloat.pyMin_le_right (h.initial.mul_pow_ne_nan hinitial _) hmaximum
    · intro earlier hearlier
      refine ⟨_, by rw [backoff_eq, if_pos (hearlier.trans hle)], ?_⟩
      exact PyFloat.pyMin_mono (h.initial.mul_pow_ne_nan hinitial _) hmaximum
        (h.initial.mul_pow_mono hinitial (Nat.sub_le_sub_right hearlier 1))

/-- The delay as the supervisor of a connection has it, for delays that are finite. -/
theorem Accepted.backoff_eq_supervised (h : policy.Accepted) {supervised : ReconnectPolicy}
    (hinitial : policy.initialDelay = .finite supervised.initialDelay) (hmaximum : policy.maxDelay = .finite supervised.maxDelay)
    (attempts : Nat) : policy.backoff attempts = (supervised.backoff attempts).map .finite := by
  unfold ReconnectPolicy.backoff
  rw [backoff_eq, hinitial, hmaximum]
  by_cases hle : attempts ≤ 1024
  · rw [if_pos hle, if_pos (by omega), Option.map_some]
    have hinitialDelay := h.initial
    have hmaxDelay := h.maximum
    rw [hinitial] at hinitialDelay
    rw [hmaximum] at hmaxDelay
    cases hinitialDelay with
    | finite hp hround =>
      cases hmaxDelay with
      | finite hp' hround' =>
        obtain ⟨-, htop, -⟩ := bits_of_roundDouble hp' hround'
        rw [PyFloat.mul, roundDouble_mul_pow hp hround]
        split
        · exact congrArg some (PyFloat.pyMin_finite _ _)
        · rename_i hlarge
          rw [min_eq_right (htop.le.trans (not_lt.mp hlarge))]
          rfl
  · rw [if_neg hle, if_neg (by omega), Option.map_none]

end ResolvedReconnect

end Pydsh
