import Mathlib.Tactic.Linarith
import Mathlib.Tactic.Ring
import Pydsh.Python.Double
import Pydsh.Python.Value

/-!
# Floats

What Python computes with floats: a number is rounded to a double, to the nearest and on a tie to the even one, in units of 2^-1074 or of
the last of 53 bits; what is 2^1024 or more after that is infinite, and an `int` that would be raises `OverflowError` in `float`. Rounding
keeps the order (`roundDouble_mono`) and leaves doubles alone, and so the product with a power of two is exact up to the overflow
(`roundDouble_mul_pow`).
-/

namespace Pydsh

/-- Doubles are multiples of `2 ^ -unitBits`. -/
def unitBits : Nat := 1074

/-- Finite doubles are less than `2 ^ topBits`. -/
def topBits : Nat := 1024

/-- The fraction `a / b`, rounded to 53 bits. -/
def roundUnits (a b : Nat) : Nat :=
  let unit := 2 ^ ((a / b).log2 + 1 - 53)
  roundHalfEven a (b * unit) * unit

/-- A rational number, rounded to a double. -/
def roundDouble (q : ℚ) : PyFloat :=
  let units := roundUnits (q.num.natAbs * 2 ^ unitBits) q.den
  if units < 2 ^ (topBits + unitBits) then .finite (if 0 ≤ q then units / 2 ^ unitBits else -(units / 2 ^ unitBits)) else .inf (q < 0)

namespace PyFloat

/-- `x < y`. -/
def lt : PyFloat → PyFloat → Bool
  | .finite p, .finite q => p < q
  | .finite _, .inf negative => !negative
  | .inf negative, .finite _ => negative
  | .inf negative, .inf negative' => negative && !negative'
  | _, _ => false

/-- `x <= y`. -/
def le : PyFloat → PyFloat → Bool
  | .finite p, .finite q => p ≤ q
  | .finite _, .inf negative => !negative
  | .inf negative, .finite _ => negative
  | .inf negative, .inf negative' => negative || !negative'
  | _, _ => false

/-- `min(x, y)`, the first of two that do not compare. -/
def pyMin (x y : PyFloat) : PyFloat := if y.lt x then y else x

/-- `x + y`. -/
def add : PyFloat → PyFloat → PyFloat
  | .finite p, .finite q => roundDouble (p + q)
  | .inf negative, .inf negative' => if negative = negative' then .inf negative else .nan
  | .inf negative, .finite _ => .inf negative
  | .finite _, .inf negative => .inf negative
  | _, _ => .nan

/-- `x * y`. -/
def mul : PyFloat → PyFloat → PyFloat
  | .finite p, .finite q => roundDouble (p * q)
  | .inf negative, .inf negative' => .inf (negative != negative')
  | .inf negative, .finite q => if q = 0 then .nan else .inf (negative != decide (q < 0))
  | .finite p, .inf negative => if p = 0 then .nan else .inf (decide (p < 0) != negative)
  | _, _ => .nan

/-- `x / y`, of a finite `y` that is not zero. -/
def divBy (x : PyFloat) (q : ℚ) : PyFloat :=
  match x with
  | .finite p => roundDouble (p / q)
  | .inf negative => .inf (negative != decide (q < 0))
  | .nan => .nan

/-- A number as a float; a double is one. -/
def rounded : PyFloat → PyFloat
  | .finite q => roundDouble q
  | x => x

/-- A float that is not infinite. -/
def notInf? : PyFloat → Option PyFloat
  | .inf _ => none
  | x => some x

end PyFloat

/-- `float(i)`; `none` where it raises `OverflowError`. -/
def floatOfInt (i : ℤ) : Option PyFloat := (roundDouble i).notInf?

/-! ## The order of floats -/

namespace PyFloat

variable {x y z : PyFloat}

theorem le_refl (hx : x ≠ .nan) : x.le x = true := by
  cases x with
  | finite p => exact decide_eq_true (le_rfl)
  | inf negative => cases negative <;> rfl
  | nan => exact absurd rfl hx

theorem ne_nan_of_le (h : x.le y = true) : x ≠ .nan ∧ y ≠ .nan := by
  constructor
  · rintro rfl
    cases h
  · rintro rfl
    cases x with
    | _ => cases h

theorem le_trans (hxy : x.le y = true) (hyz : y.le z = true) : x.le z = true := by
  cases x with
  | nan => cases hxy
  | finite p =>
    cases y with
    | nan => cases hxy
    | finite q =>
      cases z with
      | nan => cases hyz
      | finite r => exact decide_eq_true ((of_decide_eq_true hxy).trans (of_decide_eq_true hyz))
      | inf negative => exact hyz
    | inf negative =>
      cases z with
      | nan => cases hyz
      | finite r => simp_all [le]
      | inf negative' => simp_all [le]
  | inf negative =>
    cases y with
    | nan => cases hxy
    | finite q =>
      cases z with
      | nan => cases hyz
      | finite r => exact hxy
      | inf negative' => simp_all [le]
    | inf negative' =>
      cases z with
      | nan => cases hyz
      | finite r => simp_all [le]
      | inf negative'' => cases negative' <;> simp_all [le]

/-- Of two numbers that compare, one is not less than the other. -/
theorem le_of_not_lt (hx : x ≠ .nan) (hy : y ≠ .nan) (h : y.lt x = false) : x.le y = true := by
  cases x with
  | nan => exact absurd rfl hx
  | finite p =>
    cases y with
    | nan => exact absurd rfl hy
    | finite q => exact decide_eq_true (not_lt.mp (of_decide_eq_false h))
    | inf negative => simp_all [lt, le]
  | inf negative =>
    cases y with
    | nan => exact absurd rfl hy
    | finite q => simp_all [lt, le]
    | inf negative' => cases negative <;> cases negative' <;> simp_all [lt, le]

theorem le_of_lt (h : x.lt y = true) : x.le y = true := by
  cases x with
  | nan => cases h
  | finite p =>
    cases y with
    | nan => cases h
    | finite q => exact decide_eq_true (of_decide_eq_true h).le
    | inf negative => exact h
  | inf negative =>
    cases y with
    | nan => cases h
    | finite q => exact h
    | inf negative' => simp_all [lt, le]

theorem pyMin_le_right (hx : x ≠ .nan) (hy : y ≠ .nan) : (pyMin x y).le y = true := by
  unfold pyMin
  split
  · exact le_refl hy
  · rename_i h
    exact le_of_not_lt hx hy (Bool.eq_false_iff.mpr h)

theorem le_pyMin (hx : z.le x = true) (hy : z.le y = true) : z.le (pyMin x y) = true := by
  unfold pyMin
  split
  · exact hy
  · exact hx

theorem pyMin_mono (hx : x ≠ .nan) (hy : y ≠ .nan) (h : x.le z = true) : (pyMin x y).le (pyMin z y) = true := by
  refine le_pyMin ?_ (pyMin_le_right hx hy)
  unfold pyMin
  split
  · rename_i hlt
    exact le_trans (le_of_lt hlt) h
  · exact h

theorem pyMin_finite (p q : ℚ) : (finite p).pyMin (finite q) = .finite (min p q) := by
  simp only [pyMin, lt, decide_eq_true_eq]
  by_cases hlt : q < p
  · rw [if_pos hlt, min_eq_right hlt.le]
  · rw [if_neg hlt, min_eq_left (not_lt.mp hlt)]

theorem rounded_finite (q : ℚ) : (finite q).rounded = roundDouble q := rfl

theorem eq_of_notInf? (h : x.notInf? = some y) : y = x := by
  cases x with
  | inf negative => cases h
  | finite q => exact (Option.some.inj h).symm
  | nan => exact (Option.some.inj h).symm

end PyFloat

/-! ## To the nearest -/

theorem le_roundHalfEven (n unit : Nat) : n / unit ≤ roundHalfEven n unit := by
  unfold roundHalfEven
  dsimp only
  split <;> omega

theorem roundHalfEven_le (n unit : Nat) : roundHalfEven n unit ≤ n / unit + 1 := by
  unfold roundHalfEven
  dsimp only
  split <;> omega

theorem roundHalfEven_mono {n m : Nat} (h : n ≤ m) (unit : Nat) : roundHalfEven n unit ≤ roundHalfEven m unit := by
  have hquotient : n / unit ≤ m / unit := Nat.div_le_div_right h
  rcases Nat.eq_or_lt_of_le hquotient with heq | hlt
  · have hn := Nat.div_add_mod n unit
    have hm := Nat.div_add_mod m unit
    rw [heq] at hn
    unfold roundHalfEven
    dsimp only
    rw [heq]
    split_ifs <;> omega
  · exact (roundHalfEven_le n unit).trans ((Nat.succ_le_of_lt hlt).trans (le_roundHalfEven m unit))

theorem roundHalfEven_mul_left {c : Nat} (hc : 0 < c) (n unit : Nat) : roundHalfEven (c * n) (c * unit) = roundHalfEven n unit := by
  have hless : 2 * (c * (n % unit)) < c * unit ↔ 2 * (n % unit) < unit := by
    rw [Nat.mul_left_comm]
    exact Nat.mul_lt_mul_left hc
  have htie : 2 * (c * (n % unit)) = c * unit ↔ 2 * (n % unit) = unit := by
    rw [Nat.mul_left_comm]
    exact Nat.mul_right_inj (Nat.ne_of_gt hc)
  unfold roundHalfEven
  dsimp only
  simp only [Nat.mul_div_mul_left n unit hc, Nat.mul_mod_mul_left, hless, htie]

theorem roundHalfEven_mul_right {unit : Nat} (hunit : 0 < unit) (n : Nat) : roundHalfEven (n * unit) unit = n := by
  unfold roundHalfEven
  dsimp only
  rw [Nat.mul_div_cancel n hunit, Nat.mul_mod_left, if_pos (Or.inl hunit)]

/-! ## To 53 bits -/

/-- A multiple of a power of two is not rounded in units of a smaller one. -/
theorem roundHalfEven_pow {b e k : Nat} (hb : 0 < b) (he : e ≤ k) (m : Nat) :
    roundHalfEven (b * (m * 2 ^ k)) (b * 2 ^ e) * 2 ^ e = m * 2 ^ k := by
  have hsplit : m * 2 ^ k = m * 2 ^ (k - e) * 2 ^ e := by
    rw [Nat.mul_assoc, ← Nat.pow_add, Nat.sub_add_cancel he]
  have hunits : b * (m * 2 ^ k) = m * 2 ^ (k - e) * (b * 2 ^ e) := by
    rw [hsplit]
    ring
  rw [hunits, roundHalfEven_mul_right (Nat.mul_pos hb (Nat.two_pow_pos e)), ← hsplit]

theorem roundUnits_exact {b m k : Nat} (hb : 0 < b) (hm : m < 2 ^ 53) : roundUnits (b * (m * 2 ^ k)) b = m * 2 ^ k := by
  unfold roundUnits
  dsimp only
  rw [Nat.mul_div_cancel_left _ hb]
  refine roundHalfEven_pow hb ?_ m
  by_cases hzero : m * 2 ^ k = 0
  · rw [hzero]
    simp
  · have hlt : m * 2 ^ k < 2 ^ (53 + k) := by
      rw [Nat.pow_add]
      exact Nat.mul_lt_mul_of_pos_right hm (Nat.two_pow_pos k)
    have hlog := (Nat.log2_lt hzero).mpr hlt
    omega

/-- Rounding keeps the order: in one unit, and past the power of two that stands between two. -/
theorem roundUnits_mono {a b c d : Nat} (hb : 0 < b) (hd : 0 < d) (h : a * d ≤ c * b) : roundUnits a b ≤ roundUnits c d := by
  have hfloor : a / b ≤ c / d := by
    rw [Nat.le_div_iff_mul_le hd]
    refine Nat.le_of_mul_le_mul_right ?_ hb
    calc a / b * d * b = a / b * b * d := by ring
      _ ≤ a * d := Nat.mul_le_mul_right d (Nat.div_mul_le_self a b)
      _ ≤ c * b := h
  unfold roundUnits
  dsimp only
  generalize hlower : (a / b).log2 + 1 - 53 = e
  generalize hupper : (c / d).log2 + 1 - 53 = e'
  by_cases heq : e = e'
  · subst heq
    refine Nat.mul_le_mul_right _ ?_
    calc roundHalfEven a (b * 2 ^ e) = roundHalfEven (d * a) (d * (b * 2 ^ e)) := (roundHalfEven_mul_left hd _ _).symm
      _ ≤ roundHalfEven (b * c) (d * (b * 2 ^ e)) := roundHalfEven_mono (by linarith [Nat.mul_comm a d, Nat.mul_comm c b]) _
      _ = roundHalfEven (b * c) (b * (d * 2 ^ e)) := by rw [Nat.mul_left_comm]
      _ = roundHalfEven c (d * 2 ^ e) := roundHalfEven_mul_left hb _ _
  · have hlog : (a / b).log2 ≤ (c / d).log2 := by
      by_cases hzero : a / b = 0
      · rw [hzero]
        simp
      · have hpos : c / d ≠ 0 := fun hnone => hzero (Nat.le_zero.mp (hnone ▸ hfloor))
        exact (Nat.le_log2 hpos).mpr ((Nat.log2_self_le hzero).trans hfloor)
    have hc : c / d ≠ 0 := by
      intro hzero
      rw [hzero] at hupper hlog
      simp only [Nat.log2_zero] at hupper hlog
      omega
    have hbelow : a ≤ b * (1 * 2 ^ ((a / b).log2 + 1)) := by
      have hlt := (Nat.div_lt_iff_lt_mul hb).mp (Nat.lt_log2_self (n := a / b))
      rw [Nat.one_mul, Nat.mul_comm]
      exact hlt.le
    have habove : d * (1 * 2 ^ (c / d).log2) ≤ c := by
      rw [Nat.one_mul, Nat.mul_comm]
      exact (Nat.le_div_iff_mul_le hd).mp (Nat.log2_self_le hc)
    calc roundHalfEven a (b * 2 ^ e) * 2 ^ e
        ≤ roundHalfEven (b * (1 * 2 ^ ((a / b).log2 + 1))) (b * 2 ^ e) * 2 ^ e := Nat.mul_le_mul_right _ (roundHalfEven_mono hbelow _)
      _ = 1 * 2 ^ ((a / b).log2 + 1) := roundHalfEven_pow hb (by omega) 1
      _ ≤ 1 * 2 ^ (c / d).log2 := Nat.mul_le_mul_left 1 (Nat.pow_le_pow_right (by omega) (by omega))
      _ = roundHalfEven (d * (1 * 2 ^ (c / d).log2)) (d * 2 ^ e') * 2 ^ e' := (roundHalfEven_pow hd (by omega) 1).symm
      _ ≤ roundHalfEven c (d * 2 ^ e') * 2 ^ e' := Nat.mul_le_mul_right _ (roundHalfEven_mono habove _)

theorem roundUnits_bits (a b : Nat) : ∃ m k, m < 2 ^ 53 ∧ roundUnits a b = m * 2 ^ k := by
  unfold roundUnits
  dsimp only
  generalize he : (a / b).log2 + 1 - 53 = e
  have hbits : a / (b * 2 ^ e) < 2 ^ 53 := by
    rw [← Nat.div_div_eq_div_mul, Nat.div_lt_iff_lt_mul (Nat.two_pow_pos e), ← Nat.pow_add]
    exact (Nat.lt_log2_self (n := a / b)).trans_le (Nat.pow_le_pow_right (by omega) (by omega))
  have hround := roundHalfEven_le a (b * 2 ^ e)
  rcases Nat.eq_or_lt_of_le (hround.trans (Nat.succ_le_of_lt hbits)) with hfull | hless
  · refine ⟨2 ^ 52, e + 1, Nat.pow_lt_pow_right (by omega) (by omega), ?_⟩
    rw [hfull, ← Nat.pow_add, ← Nat.pow_add]
    congr 1
    omega
  · exact ⟨_, e, hless, rfl⟩

/-! ## Doubles -/

section Doubles

variable {p q : ℚ}

theorem roundDouble_of_nonneg (hq : 0 ≤ q) : roundDouble q =
    if roundUnits (q.num.natAbs * 2 ^ unitBits) q.den < 2 ^ (topBits + unitBits) then
      .finite (roundUnits (q.num.natAbs * 2 ^ unitBits) q.den / 2 ^ unitBits) else .inf false := by
  unfold roundDouble
  dsimp only
  rw [if_pos hq, decide_eq_false (not_lt.mpr hq)]

theorem roundDouble_cases (hq : 0 ≤ q) : (∃ r, roundDouble q = .finite r) ∨ roundDouble q = .inf false := by
  rw [roundDouble_of_nonneg hq]
  split
  · exact Or.inl ⟨_, rfl⟩
  · exact Or.inr rfl

theorem natAbs_num_mul (hq : 0 ≤ q) : (q.num.natAbs : ℚ) = q * q.den := by
  rw [Rat.mul_den_eq_num, ← Int.cast_natCast, Int.natAbs_of_nonneg (Rat.num_nonneg.mpr hq)]

/-- A number of 53 bits is not rounded, if it is not infinite. -/
theorem roundDouble_exact (hq : 0 ≤ q) {m k : Nat} (hm : m < 2 ^ 53) (h : q * 2 ^ unitBits = m * 2 ^ k) :
    roundDouble q = if q < 2 ^ topBits then .finite q else .inf false := by
  have hunits : q.num.natAbs * 2 ^ unitBits = q.den * (m * 2 ^ k) := by
    have hcast : ((q.num.natAbs * 2 ^ unitBits : Nat) : ℚ) = ((q.den * (m * 2 ^ k) : Nat) : ℚ) := by
      push_cast
      rw [natAbs_num_mul hq, ← h]
      ring
    exact_mod_cast hcast
  rw [roundDouble_of_nonneg hq, hunits, roundUnits_exact q.den_pos hm]
  have hpos : (0 : ℚ) < 2 ^ unitBits := pow_pos two_pos unitBits
  have hcast : ((m * 2 ^ k : Nat) : ℚ) = q * 2 ^ unitBits := by
    rw [h, Nat.cast_mul, Nat.cast_pow, Nat.cast_ofNat]
  have hbound : m * 2 ^ k < 2 ^ (topBits + unitBits) ↔ q < 2 ^ topBits := by
    have hlimit : ((2 ^ (topBits + unitBits) : Nat) : ℚ) = 2 ^ topBits * 2 ^ unitBits := by
      rw [← pow_add, Nat.cast_pow, Nat.cast_ofNat]
    rw [← Nat.cast_lt (α := ℚ), hcast, hlimit, mul_lt_mul_iff_left₀ hpos]
  have hvalue : ((m * 2 ^ k : Nat) : ℚ) / 2 ^ unitBits = q := by
    rw [hcast, mul_div_cancel_right₀ q (ne_of_gt hpos)]
  rw [hvalue]
  simp only [hbound]

theorem roundDouble_mono (hp : 0 ≤ p) (h : p ≤ q) : (roundDouble p).le (roundDouble q) = true := by
  have hunits : roundUnits (p.num.natAbs * 2 ^ unitBits) p.den ≤ roundUnits (q.num.natAbs * 2 ^ unitBits) q.den := by
    refine roundUnits_mono p.den_pos q.den_pos ?_
    have hnums : p.num.natAbs * q.den ≤ q.num.natAbs * p.den := by
      have hle := (Rat.le_iff p q).mp h
      have hpnum := Rat.num_nonneg.mpr hp
      have hqnum := Rat.num_nonneg.mpr (hp.trans h)
      zify
      rwa [abs_of_nonneg hpnum, abs_of_nonneg hqnum]
    calc p.num.natAbs * 2 ^ unitBits * q.den = p.num.natAbs * q.den * 2 ^ unitBits := Nat.mul_right_comm _ _ _
      _ ≤ q.num.natAbs * p.den * 2 ^ unitBits := Nat.mul_le_mul_right _ hnums
      _ = q.num.natAbs * 2 ^ unitBits * p.den := Nat.mul_right_comm _ _ _
  rw [roundDouble_of_nonneg hp, roundDouble_of_nonneg (hp.trans h)]
  generalize roundUnits (p.num.natAbs * 2 ^ unitBits) p.den = lower at hunits ⊢
  generalize roundUnits (q.num.natAbs * 2 ^ unitBits) q.den = upper at hunits ⊢
  have hcast : (lower : ℚ) / 2 ^ unitBits ≤ upper / 2 ^ unitBits :=
    div_le_div_of_nonneg_right (Nat.cast_le.mpr hunits) (pow_nonneg zero_le_two unitBits)
  by_cases hupper : upper < 2 ^ (topBits + unitBits)
  · rw [if_pos hupper, if_pos (hunits.trans_lt hupper)]
    exact decide_eq_true hcast
  · rw [if_neg hupper]
    split
    · rfl
    · rfl

theorem bits_of_roundDouble (hp : 0 ≤ p) (h : roundDouble p = .finite q) :
    0 ≤ q ∧ q < 2 ^ topBits ∧ ∃ m k : Nat, m < 2 ^ 53 ∧ q * 2 ^ unitBits = m * 2 ^ k := by
  have hpos : (0 : ℚ) < 2 ^ unitBits := pow_pos two_pos unitBits
  rw [roundDouble_of_nonneg hp] at h
  obtain ⟨m, k, hm, hunits⟩ := roundUnits_bits (p.num.natAbs * 2 ^ unitBits) p.den
  split at h
  · rename_i hless
    obtain rfl := PyFloat.finite.inj h
    rw [hunits] at hless ⊢
    have hcast : ((m * 2 ^ k : Nat) : ℚ) / 2 ^ unitBits * 2 ^ unitBits = m * 2 ^ k := by
      rw [div_mul_cancel₀ _ (ne_of_gt hpos), Nat.cast_mul, Nat.cast_pow, Nat.cast_ofNat]
    refine ⟨div_nonneg (Nat.cast_nonneg _) hpos.le, ?_, m, k, hm, hcast⟩
    rw [div_lt_iff₀ hpos, ← pow_add]
    calc ((m * 2 ^ k : Nat) : ℚ) < (2 ^ (topBits + unitBits) : Nat) := Nat.cast_lt.mpr hless
      _ = 2 ^ (topBits + unitBits) := by rw [Nat.cast_pow, Nat.cast_ofNat]
  · cases h

theorem roundDouble_idem (hp : 0 ≤ p) (h : roundDouble p = .finite q) : roundDouble q = .finite q := by
  obtain ⟨hq, htop, m, k, hm, hbits⟩ := bits_of_roundDouble hp h
  rw [roundDouble_exact hq hm hbits, if_pos htop]

/-- The product of a double with a power of two is exact, or infinite. -/
theorem roundDouble_mul_pow (hp : 0 ≤ p) (h : roundDouble p = .finite q) (n : Nat) :
    roundDouble (q * 2 ^ n) = if q * 2 ^ n < 2 ^ topBits then .finite (q * 2 ^ n) else .inf false := by
  obtain ⟨hq, -, m, k, hm, hbits⟩ := bits_of_roundDouble hp h
  refine roundDouble_exact (k := k + n) (mul_nonneg hq (pow_nonneg zero_le_two n)) hm ?_
  rw [mul_right_comm, hbits, pow_add, mul_assoc]

theorem roundDouble_pow (n : Nat) : roundDouble (2 ^ n) = if n < topBits then .finite (2 ^ n) else .inf false := by
  have hbits : (2 : ℚ) ^ n * 2 ^ unitBits = (1 : Nat) * 2 ^ (n + unitBits) := by
    rw [← pow_add, Nat.cast_one, one_mul]
  have hless : (2 : ℚ) ^ n < 2 ^ topBits ↔ n < topBits := pow_lt_pow_iff_right₀ one_lt_two
  rw [roundDouble_exact (pow_nonneg zero_le_two n) (Nat.one_lt_two_pow (by omega)) hbits]
  by_cases hn : n < topBits
  · rw [if_pos hn, if_pos (hless.mpr hn)]
  · rw [if_neg hn, if_neg (fun h => hn (hless.mp h))]

/-- `float(2 ** n)`. -/
theorem floatOfInt_pow (n : Nat) : floatOfInt (2 ^ n) = if n < topBits then some (.finite (2 ^ n)) else none := by
  have hcast : (((2 : ℤ) ^ n : ℤ) : ℚ) = 2 ^ n := by
    rw [Int.cast_pow, Int.cast_ofNat]
  rw [floatOfInt, hcast, roundDouble_pow, apply_ite PyFloat.notInf?]
  rfl

/-- The first natural number that is no float: halfway between the last double and `2 ^ topBits`. -/
def overflowing : Nat := 2 ^ 1024 - 2 ^ 970

/-- `float(n)` raises from there on. -/
theorem floatOfInt_isSome_iff (n : Nat) : (floatOfInt n).isSome = true ↔ n < overflowing := by
  have hround : roundDouble (n : ℤ) = if roundUnits (n * 2 ^ unitBits) 1 < 2 ^ (topBits + unitBits) then
      .finite (roundUnits (n * 2 ^ unitBits) 1 / 2 ^ unitBits) else .inf false := by
    rw [roundDouble_of_nonneg (by simp)]
    simp
  have hsome : (floatOfInt n).isSome = true ↔ roundUnits (n * 2 ^ unitBits) 1 < 2 ^ (topBits + unitBits) := by
    rw [floatOfInt, hround, apply_ite PyFloat.notInf?]
    split_ifs with hless
    · exact iff_of_true rfl hless
    · exact iff_of_false Bool.false_ne_true hless
  have hfirst : 2 ^ (topBits + unitBits) ≤ roundUnits (overflowing * 2 ^ unitBits) 1 := by decide +kernel
  have hlast : roundUnits ((overflowing - 1) * 2 ^ unitBits) 1 < 2 ^ (topBits + unitBits) := by decide +kernel
  rw [hsome]
  constructor
  · intro hless
    by_contra hlarge
    have hmono := roundUnits_mono (a := overflowing * 2 ^ unitBits) (c := n * 2 ^ unitBits) Nat.one_pos Nat.one_pos
      (Nat.mul_le_mul_right 1 (Nat.mul_le_mul_right _ (Nat.le_of_not_lt hlarge)))
    exact absurd hless (Nat.not_lt.mpr (hfirst.trans hmono))
  · intro hless
    have hmono := roundUnits_mono (a := n * 2 ^ unitBits) (c := (overflowing - 1) * 2 ^ unitBits) Nat.one_pos Nat.one_pos
      (Nat.mul_le_mul_right 1 (Nat.mul_le_mul_right _ (Nat.le_sub_one_of_lt hless)))
    exact hmono.trans_lt hlast

end Doubles

end Pydsh
