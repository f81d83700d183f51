import Mathlib.Data.List.Chain
import Pydsh.Python.Dynamic

/-!
# Strings of code points, and their JSON

A Python string is a list of code points, lone surrogates included. `json.dumps` writes one in ASCII, each other character as an escape of
four hex digits or as two of them, and `json.loads` makes one character of two escapes that are the halves of a pair, whatever wrote them.
So what comes back of a string is the string with its pairs joined (`loadsString_dumpsString`).
-/

namespace Pydsh

/-- A code point of a Python string: a character, or a lone surrogate, by its distance from U+D800. -/
inductive CodePoint where
  | char (c : Char)
  | surrogate (n : Fin 2048)
  deriving DecidableEq

/-- A Python string. -/
abbrev PyText : Type := List CodePoint

namespace PyText

/-- A string without surrogates. -/
def ofChars (text : List Char) : PyText := text.map CodePoint.char

def ofString (s : String) : PyText := ofChars s.toList

/-- `\s`, and what `str.split` splits at. -/
def isSpacePoint : CodePoint → Bool
  | .char c => isSpace c
  | .surrogate _ => false

/-! ## `json.dumps` -/

/-- A digit of `format(n, "x")`. -/
def hexDigit (n : Nat) : Char := "0123456789abcdef".toList.getD n '0'

/-- `"\\u{0:04x}".format(n)`. -/
def unicodeEscape (n : Nat) : List Char :=
  ['\\', 'u', hexDigit (n / 4096), hexDigit (n / 256 % 16), hexDigit (n / 16 % 16), hexDigit (n % 16)]

/-- `ESCAPE_DCT`: the letter behind the backslash. -/
def shortEscapes : List (Char × Char) :=
  [('\\', '\\'), ('"', '"'), ('\x08', 'b'), ('\x0c', 'f'), ('\n', 'n'), ('\r', 'r'), ('\t', 't')]

/-- What `json.dumps` writes for a code point. -/
def escapeAscii : CodePoint → List Char
  | .surrogate n => unicodeEscape (0xd800 + n)
  | .char c =>
    match shortEscapes.lookup c with
    | some e => ['\\', e]
    | none =>
      if 0x20 ≤ c.toNat ∧ c.toNat ≤ 0x7e then [c]
      else if c.toNat < 0x10000 then unicodeEscape c.toNat
      else unicodeEscape (0xd800 + (c.toNat - 0x10000) / 0x400) ++ unicodeEscape (0xdc00 + (c.toNat - 0x10000) % 0x400)

/-- `json.dumps(s)`. -/
def dumpsString (s : PyText) : List Char := '"' :: (s.flatMap escapeAscii ++ ['"'])

/-! ## `json.loads` -/

/-- The value of a hex digit. -/
def hexValue? (c : Char) : Option Nat :=
  if '0' ≤ c ∧ c ≤ '9' then some (c.toNat - '0'.toNat)
  else if 'a' ≤ c ∧ c ≤ 'f' then some (c.toNat - 'a'.toNat + 10)
  else if 'A' ≤ c ∧ c ≤ 'F' then some (c.toNat - 'A'.toNat + 10)
  else none

/-- The value of four hex digits. -/
def hexValues? (a b c d : Char) : Option Nat := do
  let a ← hexValue? a
  let b ← hexValue? b
  let c ← hexValue? c
  let d ← hexValue? d
  return a * 4096 + b * 256 + c * 16 + d

/-- The code point of a `\u` escape. -/
def ofUnit (n : Nat) : CodePoint :=
  if h : 0xd800 ≤ n ∧ n < 0xe000 then .surrogate ⟨n - 0xd800, by omega⟩ else .char (Char.ofNat n)

/-- `BACKSLASH`. -/
def backslash : List (Char × Char) :=
  [('"', '"'), ('\\', '\\'), ('/', '/'), ('b', '\x08'), ('f', '\x0c'), ('n', '\n'), ('r', '\r'), ('t', '\t')]

/-- The code points of a JSON string, behind its opening quote, with each escape by itself, and what is behind the closing quote; `none`
where the parser raises. -/
def scanString : List Char → Option (PyText × List Char)
  | [] => none
  | c :: rest =>
    if c = '"' then some ([], rest)
    else if c = '\\' then
      match rest with
      | [] => none
      | e :: rest =>
        if e = 'u' then
          match rest with
          | h₁ :: h₂ :: h₃ :: h₄ :: rest => do
            let n ← hexValues? h₁ h₂ h₃ h₄
            let (s, behind) ← scanString rest
            return (ofUnit n :: s, behind)
          | _ => none
        else do
          let c ← backslash.lookup e
          let (s, behind) ← scanString rest
          return (.char c :: s, behind)
    else if c.toNat < 0x20 then none
    else do
      let (s, behind) ← scanString rest
      return (.char c :: s, behind)
termination_by structural text => text

/-- A high surrogate with a low one behind it. -/
def IsPair : CodePoint → CodePoint → Prop
  | .surrogate high, .surrogate low => high.val < 0x400 ∧ 0x400 ≤ low.val
  | _, _ => False

instance (p q : CodePoint) : Decidable (IsPair p q) :=
  match p, q with
  | .surrogate high, .surrogate low => inferInstanceAs (Decidable (high.val < 0x400 ∧ 0x400 ≤ low.val))
  | .char _, _ => .isFalse id
  | .surrogate _, .char _ => .isFalse id

/-- A code point before others, joined with the next one if the two are a pair. -/
def joinPair (p : CodePoint) (s : PyText) : PyText :=
  match p, s with
  | .surrogate high, .surrogate low :: rest =>
    if high.val < 0x400 ∧ 0x400 ≤ low.val then .char (Char.ofNat (0x10000 + high * 0x400 + (low - 0x400))) :: rest
    else .surrogate high :: .surrogate low :: rest
  | p, s => p :: s

/-- A string with its pairs joined. No pair overlaps another, so the order does not matter. -/
def joinPairs (s : PyText) : PyText := s.foldr joinPair []

/-- The white space of JSON. -/
def isJsonSpace (c : Char) : Bool := c == ' ' || c == '\t' || c == '\n' || c == '\r'

/-- `json.loads` of a text that holds a string; `none` where it raises or gives something else. The surrogates that are scanned all come
from escapes, so the parser joins the same pairs while it scans. -/
def loadsString (text : List Char) : Option PyText :=
  match text.dropWhile isJsonSpace with
  | [] => none
  | c :: rest =>
    if c = '"' then
      match scanString rest with
      | some (s, behind) => if behind.all isJsonSpace then some (joinPairs s) else none
      | none => none
    else none

/-! ## What comes back of a string -/

/-- The units that a code point is written as: the two halves of a character behind U+FFFF, else itself. -/
def units : CodePoint → PyText
  | .surrogate n => [.surrogate n]
  | .char c =>
    if c.toNat < 0x10000 then [.char c]
    else [ofUnit (0xd800 + (c.toNat - 0x10000) / 0x400), ofUnit (0xdc00 + (c.toNat - 0x10000) % 0x400)]

theorem hexValue_hexDigit : ∀ n < 16, hexValue? (hexDigit n) = some n := by
  decide

theorem hexValues_hexDigit {n : Nat} (h : n < 65536) :
    hexValues? (hexDigit (n / 4096)) (hexDigit (n / 256 % 16)) (hexDigit (n / 16 % 16)) (hexDigit (n % 16)) = some n := by
  unfold hexValues?
  rw [hexValue_hexDigit _ (by omega), hexValue_hexDigit _ (by omega), hexValue_hexDigit _ (by omega), hexValue_hexDigit _ (by omega)]
  simp only [bind, Option.bind, pure, Option.some.injEq]
  omega

theorem scanString_unicodeEscape {n : Nat} (h : n < 65536) (more : List Char) :
    scanString (unicodeEscape n ++ more) = (scanString more).map (fun r => (ofUnit n :: r.1, r.2)) := by
  simp only [unicodeEscape, List.cons_append, List.nil_append, scanString, hexValues_hexDigit h]
  cases scanString more <;> rfl

theorem scanString_quote (behind : List Char) : scanString ('"' :: behind) = some ([], behind) := by
  rw [scanString.eq_def]
  simp only [if_true]

theorem scanString_short {c e : Char} (hback : backslash.lookup e = some c) (hu : e ≠ 'u') (more : List Char) :
    scanString ('\\' :: e :: more) = (scanString more).map (fun r => (.char c :: r.1, r.2)) := by
  have hslash : '\\' ≠ '"' := by decide
  rw [scanString.eq_def]
  simp only [if_neg hslash, if_true, if_neg hu, hback]
  cases scanString more <;> rfl

theorem scanString_plain {c : Char} (hquote : c ≠ '"') (hslash : c ≠ '\\') (hlarge : 0x20 ≤ c.toNat) (more : List Char) :
    scanString (c :: more) = (scanString more).map (fun r => (.char c :: r.1, r.2)) := by
  rw [scanString.eq_def]
  simp only [if_neg hquote, if_neg hslash, if_neg (Nat.not_lt.mpr hlarge)]
  cases scanString more <;> rfl

theorem ofUnit_surrogate (n : Fin 2048) : ofUnit (0xd800 + n) = .surrogate n := by
  have hrange : 0xd800 ≤ 0xd800 + n.val ∧ 0xd800 + n.val < 0xe000 := ⟨Nat.le_add_right _ _, Nat.add_lt_add_left n.isLt _⟩
  unfold ofUnit
  rw [dif_pos hrange]
  exact congrArg CodePoint.surrogate (Fin.ext (Nat.add_sub_cancel_left _ _))

theorem ofUnit_char {c : Char} : ofUnit c.toNat = .char c := by
  have hvalid := c.valid
  unfold ofUnit
  rw [dif_neg, Char.ofNat_toNat]
  intro hsurrogate
  simp only [UInt32.isValidChar, Nat.isValidChar, Char.toNat] at hvalid hsurrogate
  omega

theorem toNat_lt (c : Char) : c.toNat < 0x110000 := by
  have hvalid := c.valid
  simp only [UInt32.isValidChar, Nat.isValidChar] at hvalid
  unfold Char.toNat
  omega

theorem backslash_shortEscapes {c e : Char} (h : shortEscapes.lookup c = some e) :
    backslash.lookup e = some c ∧ e ≠ 'u' ∧ c.toNat < 0x10000 := by
  obtain ⟨before, after, heq, -⟩ := List.lookup_eq_some_iff.mp h
  have hmem : (c, e) ∈ shortEscapes := by
    rw [heq]
    exact List.mem_append_right before List.mem_cons_self
  have hall : ∀ pair ∈ shortEscapes, backslash.lookup pair.2 = some pair.1 ∧ pair.2 ≠ 'u' ∧ pair.1.toNat < 0x10000 := by decide
  exact hall (c, e) hmem

theorem scanString_escapeAscii (p : CodePoint) (more : List Char) :
    scanString (escapeAscii p ++ more) = (scanString more).map (fun r => (units p ++ r.1, r.2)) := by
  cases p with
  | surrogate n =>
    have hlt := n.isLt
    rw [escapeAscii, scanString_unicodeEscape (by omega), ofUnit_surrogate]
    rfl
  | char c =>
    have hlt := toNat_lt c
    unfold escapeAscii
    cases hshort : shortEscapes.lookup c with
    | some e =>
      obtain ⟨hback, hu, hsmall⟩ := backslash_shortEscapes hshort
      have hunits : units (.char c) = [.char c] := if_pos hsmall
      simp only [hshort, List.cons_append, List.nil_append, hunits]
      exact scanString_short hback hu more
    | none =>
      have hquote : c ≠ '"' := fun heq => absurd (heq ▸ hshort) (by decide)
      have hslash : c ≠ '\\' := fun heq => absurd (heq ▸ hshort) (by decide)
      simp only [hshort]
      split
      · rename_i hplain
        have hunits : units (.char c) = [.char c] := if_pos (by omega)
        simp only [List.cons_append, List.nil_append, hunits]
        exact scanString_plain hquote hslash hplain.1 more
      · split
        · rename_i hsmall
          have hunits : units (.char c) = [.char c] := if_pos hsmall
          rw [scanString_unicodeEscape (by omega), ofUnit_char, hunits]
          rfl
        · rename_i hlarge
          have hunits : units (.char c) =
              [ofUnit (0xd800 + (c.toNat - 0x10000) / 0x400), ofUnit (0xdc00 + (c.toNat - 0x10000) % 0x400)] := if_neg hlarge
          rw [List.append_assoc, scanString_unicodeEscape (by omega), scanString_unicodeEscape (by omega), hunits]
          cases scanString more <;> rfl

/-- A string that was written is scanned as its units, up to the quote that closes it. -/
theorem scanString_escaped (s : PyText) (behind : List Char) :
    scanString (s.flatMap escapeAscii ++ '"' :: behind) = some (s.flatMap units, behind) := by
  induction s with
  | nil => exact scanString_quote behind
  | cons p s ih => rw [List.flatMap_cons, List.append_assoc, scanString_escapeAscii, ih, List.flatMap_cons, Option.map_some]

/-- What is put before others stays before them, or is joined with the next one. -/
theorem joinPair_cases (p : CodePoint) (s : PyText) : (joinPair p s = p :: s ∧ ∀ q ∈ s.head?, ¬ IsPair p q) ∨
    ∃ high low rest, p = .surrogate high ∧ s = .surrogate low :: rest ∧ high.val < 0x400 ∧ 0x400 ≤ low.val ∧
      joinPair p s = .char (Char.ofNat (0x10000 + high * 0x400 + (low - 0x400))) :: rest := by
  unfold joinPair
  split
  · rename_i high low rest
    split
    · rename_i hpair
      exact .inr ⟨high, low, rest, rfl, rfl, hpair.1, hpair.2, rfl⟩
    · rename_i hpair
      refine .inl ⟨rfl, ?_⟩
      rintro q ⟨⟩
      exact hpair
  · rename_i hother
    refine .inl ⟨rfl, ?_⟩
    intro q hq hpair
    cases s with
    | nil => cases hq
    | cons q' rest =>
      cases hq
      cases p with
      | char c => exact hpair
      | surrogate high =>
        cases q with
        | char c => exact hpair
        | surrogate low => exact hother high low rest rfl rfl

theorem joinPair_halves {high low : Nat} (hhigh : high < 0x400) (hlow : low < 0x400) (rest : PyText) :
    joinPair (ofUnit (0xd800 + high)) (joinPair (ofUnit (0xdc00 + low)) rest) =
      .char (Char.ofNat (0x10000 + high * 0x400 + low)) :: rest := by
  have hhigh' : ofUnit (0xd800 + high) = .surrogate ⟨high, by omega⟩ := ofUnit_surrogate ⟨high, by omega⟩
  have hlow' : ofUnit (0xdc00 + low) = .surrogate ⟨0x400 + low, by omega⟩ := by
    rw [← ofUnit_surrogate ⟨0x400 + low, by omega⟩, ← Nat.add_assoc]
  have hkept : joinPair (.surrogate ⟨0x400 + low, by omega⟩) rest = .surrogate ⟨0x400 + low, by omega⟩ :: rest := by
    rcases joinPair_cases (.surrogate ⟨0x400 + low, by omega⟩) rest with ⟨heq, -⟩ | ⟨n, _, _, hn, -, hsmall, -, -⟩
    · exact heq
    · cases hn
      dsimp only at hsmall
      omega
  rw [hhigh', hlow', hkept]
  simp only [joinPair, if_pos (And.intro hhigh (Nat.le_add_right 0x400 low)), Nat.add_sub_cancel_left]

theorem joinPairs_units (p : CodePoint) (s : PyText) : joinPairs (units p ++ s) = joinPair p (joinPairs s) := by
  unfold joinPairs
  rw [List.foldr_append]
  cases p with
  | surrogate n => rfl
  | char c =>
    by_cases hsmall : c.toNat < 0x10000
    · rw [units, if_pos hsmall]
      rfl
    · rw [units, if_neg hsmall]
      have hlt := toNat_lt c
      have hsum : 0x10000 + (c.toNat - 0x10000) / 0x400 * 0x400 + (c.toNat - 0x10000) % 0x400 = c.toNat := by omega
      rw [List.foldr_cons, List.foldr_cons, List.foldr_nil, joinPair_halves (by omega) (by omega), hsum, Char.ofNat_toNat]
      rfl

theorem joinPairs_flatMap_units (s : PyText) : joinPairs (s.flatMap units) = joinPairs s := by
  induction s with
  | nil => rfl
  | cons p s ih =>
    rw [List.flatMap_cons, joinPairs_units, ih]
    rfl

/-- What comes back of a string that was written: the string with its pairs joined. -/
theorem loadsString_dumpsString (s : PyText) : loadsString (dumpsString s) = some (joinPairs s) := by
  have hquote : isJsonSpace '"' = false := by decide
  unfold loadsString dumpsString
  rw [List.dropWhile_cons_of_neg (by simp [hquote])]
  simp only [if_true, scanString_escaped, List.all_nil, joinPairs_flatMap_units]

/-- A string stays as it is when its pairs are joined, exactly if it has none. -/
theorem joinPairs_eq_self_iff (s : PyText) : joinPairs s = s ↔ s.IsChain (fun p q => ¬ IsPair p q) := by
  induction s with
  | nil => exact iff_of_true rfl .nil
  | cons p s ih =>
    have hcons : joinPairs (p :: s) = joinPair p (joinPairs s) := rfl
    rw [hcons, List.isChain_cons, ← ih]
    constructor
    · intro heq
      rcases joinPair_cases p (joinPairs s) with ⟨hkept, hhead⟩ | ⟨high, low, rest, rfl, -, -, -, hjoined⟩
      · have hsame : joinPairs s = s := (List.cons.inj (hkept.symm.trans heq)).2
        exact ⟨hsame ▸ hhead, hsame⟩
      · rw [hjoined] at heq
        cases heq
    · rintro ⟨hhead, hsame⟩
      rw [hsame]
      rcases joinPair_cases p s with ⟨hkept, -⟩ | ⟨high, low, rest, rfl, rfl, hhigh, hlow, -⟩
      · exact hkept
      · exact absurd ⟨hhigh, hlow⟩ (hhead _ rfl)

end PyText

end Pydsh
