import Mathlib.Algebra.Ring.Nat
import Mathlib.Data.Nat.Log

/-!
# Doubles

Where Python multiplies an `int` with a `float` it rounds the `int` to a double first, and the product again: to 53 bits, to the nearest
and on a tie to the even one. A number moves by less than an eighth of itself then (`toDouble_le`), and up to 53 bits not at all.
-/

namespace Pydsh

/-- A multiple of a unit that is nearest to a number, in units; of two the even one. -/
def roundHalfEven (n unit : Nat) : Nat :=
  let q := n / unit
  let r := n % unit
  if 2 * r < unit ∨ (2 * r = unit ∧ q % 2 = 0) then q else q + 1

/-- `float(n)`, of a number below 2^1024. -/
def toDouble (n : Nat) : Nat :=
  let unit := 2 ^ (n.log2 + 1 - 53)
  roundHalfEven n unit * unit

theorem two_mul_roundHalfEven_le (n : Nat) {unit : Nat} (hunit : 0 < unit) : 2 * (roundHalfEven n unit * unit) ≤ 2 * n + unit := by
  have hdiv := Nat.div_add_mod n unit
  rw [Nat.mul_comm] at hdiv
  unfold roundHalfEven
  dsimp only
  split
  · omega
  · rename_i hup
    rw [Nat.add_mul, Nat.one_mul]
    omega

theorem toDouble_le (n : Nat) : 8 * toDouble n ≤ 9 * n := by
  unfold toDouble
  dsimp only
  by_cases hsmall : n.log2 + 1 ≤ 53
  · have hone : n.log2 + 1 - 53 = 0 := Nat.sub_eq_zero_of_le hsmall
    rw [hone]
    have hround := @two_mul_roundHalfEven_le n (2 ^ 0) Nat.one_pos
    omega
  · have hn : n ≠ 0 := by
      rintro rfl
      simp at hsmall
    have hround := @two_mul_roundHalfEven_le n (2 ^ (n.log2 + 1 - 53)) (Nat.two_pow_pos _)
    have hunit : 4 * 2 ^ (n.log2 + 1 - 53) ≤ n := by
      calc 4 * 2 ^ (n.log2 + 1 - 53) = 2 ^ (2 + (n.log2 + 1 - 53)) := by rw [Nat.pow_add]
        _ ≤ 2 ^ n.log2 := Nat.pow_le_pow_right (by omega) (by omega)
        _ ≤ n := Nat.log2_self_le hn
    omega

end Pydsh
