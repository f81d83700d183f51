import Mathlib.Data.List.Basic

/-!
# URL-safe base64, without its padding

`base64.urlsafe_b64encode`, with the "=" at its end left out, and `base64.urlsafe_b64decode` of a text that is filled up with them again.
Three bytes are four digits; a rest of one byte is two digits and a rest of two is three. The bits of the last digit that no byte takes are
dropped when they are read, so several texts have the same bytes.
-/

namespace Base64

/-- The digits. -/
def alphabet : List Char := "ABCDEFGHIJKLMNOPQRSTUVWXYZabcdefghijklmnopqrstuvwxyz0123456789-_".toList

def digit (n : Nat) : Char := alphabet.getD n 'A'

/-- The value of a digit. -/
def value? (c : Char) : Option Nat := alphabet.idxOf? c

def encode : List UInt8 → List Char
  | [] => []
  | [a] => [digit (a.toNat / 4), digit (a.toNat % 4 * 16)]
  | [a, b] => [digit (a.toNat / 4), digit (a.toNat % 4 * 16 + b.toNat / 16), digit (b.toNat % 16 * 4)]
  | a :: b :: c :: rest =>
    digit (a.toNat / 4) :: digit (a.toNat % 4 * 16 + b.toNat / 16) :: digit (b.toNat % 16 * 4 + c.toNat / 64) ::
      digit (c.toNat % 64) :: encode rest

/-- The bytes of some digits; `none` where a digit is missing, or is no digit. -/
def decode : List Char → Option (List UInt8)
  | [] => some []
  | [_] => none
  | [a, b] => do
    let a ← value? a
    let b ← value? b
    return [UInt8.ofNat (a * 4 + b / 16)]
  | [a, b, c] => do
    let a ← value? a
    let b ← value? b
    let c ← value? c
    return [UInt8.ofNat (a * 4 + b / 16), UInt8.ofNat (b % 16 * 16 + c / 4)]
  | a :: b :: c :: d :: rest => do
    let a ← value? a
    let b ← value? b
    let c ← value? c
    let d ← value? d
    let rest ← decode rest
    return UInt8.ofNat (a * 4 + b / 16) :: UInt8.ofNat (b % 16 * 16 + c / 4) :: UInt8.ofNat (c % 4 * 64 + d) :: rest

theorem value_digit : ∀ n < 64, value? (digit n) = some n := by
  decide +kernel

theorem length_alphabet : alphabet.length = 64 := by
  decide +kernel

theorem digit_mem : ∀ n < 64, digit n ∈ alphabet := by
  intro n hn
  have hlt : n < alphabet.length := by rwa [length_alphabet]
  rw [digit, List.getD_eq_getElem?_getD, List.getElem?_eq_getElem hlt, Option.getD_some]
  exact List.getElem_mem hlt

theorem byte_eq {a : UInt8} {n : Nat} (h : n = a.toNat) : UInt8.ofNat n = a := by
  rw [h, UInt8.ofNat_toNat]

theorem decode_encode (bytes : List UInt8) : decode (encode bytes) = some bytes := by
  induction bytes using encode.induct with
  | case1 => rfl
  | case2 a =>
    have ha := a.toNat_lt
    simp only [encode, decode, value_digit _ (show a.toNat / 4 < 64 by omega), value_digit _ (show a.toNat % 4 * 16 < 64 by omega)]
    exact congrArg some (congrArg (· :: []) (byte_eq (by omega)))
  | case3 a b =>
    have ha := a.toNat_lt
    have hb := b.toNat_lt
    simp only [encode, decode, value_digit _ (show a.toNat / 4 < 64 by omega),
      value_digit _ (show a.toNat % 4 * 16 + b.toNat / 16 < 64 by omega), value_digit _ (show b.toNat % 16 * 4 < 64 by omega)]
    exact congrArg some (congrArg₂ (· :: · :: []) (byte_eq (by omega)) (byte_eq (by omega)))
  | case4 a b c rest ih =>
    have ha := a.toNat_lt
    have hb := b.toNat_lt
    have hc := c.toNat_lt
    simp only [encode, decode, value_digit _ (show a.toNat / 4 < 64 by omega),
      value_digit _ (show a.toNat % 4 * 16 + b.toNat / 16 < 64 by omega),
      value_digit _ (show b.toNat % 16 * 4 + c.toNat / 64 < 64 by omega), value_digit _ (show c.toNat % 64 < 64 by omega), ih]
    have hfirst : UInt8.ofNat (a.toNat / 4 * 4 + (a.toNat % 4 * 16 + b.toNat / 16) / 16) = a := byte_eq (by omega)
    have hsecond : UInt8.ofNat ((a.toNat % 4 * 16 + b.toNat / 16) % 16 * 16 + (b.toNat % 16 * 4 + c.toNat / 64) / 4) = b :=
      byte_eq (by omega)
    have hthird : UInt8.ofNat ((b.toNat % 16 * 4 + c.toNat / 64) % 4 * 64 + c.toNat % 64) = c := byte_eq (by omega)
    simp only [bind, Option.bind, pure, hfirst, hsecond, hthird]

theorem mem_alphabet_of_mem_encode (bytes : List UInt8) : ∀ c ∈ encode bytes, c ∈ alphabet := by
  induction bytes using encode.induct with
  | case1 => exact fun c hc => absurd hc List.not_mem_nil
  | case2 a =>
    have ha := a.toNat_lt
    simp only [encode, List.forall_mem_cons]
    exact ⟨digit_mem _ (by omega), digit_mem _ (by omega), fun c hc => absurd hc List.not_mem_nil⟩
  | case3 a b =>
    have ha := a.toNat_lt
    have hb := b.toNat_lt
    simp only [encode, List.forall_mem_cons]
    exact ⟨digit_mem _ (by omega), digit_mem _ (by omega), digit_mem _ (by omega), fun c hc => absurd hc List.not_mem_nil⟩
  | case4 a b c rest ih =>
    have ha := a.toNat_lt
    have hb := b.toNat_lt
    have hc := c.toNat_lt
    simp only [encode, List.forall_mem_cons]
    exact ⟨digit_mem _ (by omega), digit_mem _ (by omega), digit_mem _ (by omega), digit_mem _ (by omega), ih⟩

theorem encode_ne_nil {bytes : List UInt8} (h : bytes ≠ []) : encode bytes ≠ [] := by
  intro henc
  have hback := decode_encode bytes
  rw [henc] at hback
  exact h (Option.some.inj hback).symm

end Base64
