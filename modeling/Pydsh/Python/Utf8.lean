import Pydsh.Lib.SelfSync

/-!
# UTF-8

`str.encode("utf-8")` and `bytes.decode("utf-8", "replace")`. A `String` has no lone surrogates, so encoding never raises; decoding
gives one U+FFFD for each longest piece of bytes that a character begins with and does not go on with, and for each byte that no
character begins with. What was encoded is decoded to itself (`decodeReplace_encodeUtf8`).
-/

namespace Pydsh

/-- `str.encode("utf-8")`. -/
def encodeUtf8 (text : List Char) : List UInt8 := text.flatMap String.utf8EncodeChar

/-- What the bytes after a leading byte are taken from. -/
def utf8Ranges (lead : UInt8) : List (UInt8 × UInt8) :=
  if 0xC2 ≤ lead ∧ lead ≤ 0xDF then [(0x80, 0xBF)]
  else if lead = 0xE0 then [(0xA0, 0xBF), (0x80, 0xBF)]
  else if lead = 0xED then [(0x80, 0x9F), (0x80, 0xBF)]
  else if 0xE1 ≤ lead ∧ lead ≤ 0xEF then [(0x80, 0xBF), (0x80, 0xBF)]
  else if lead = 0xF0 then [(0x90, 0xBF), (0x80, 0xBF), (0x80, 0xBF)]
  else if 0xF1 ≤ lead ∧ lead ≤ 0xF3 then [(0x80, 0xBF), (0x80, 0xBF), (0x80, 0xBF)]
  else if lead = 0xF4 then [(0x80, 0x8F), (0x80, 0xBF), (0x80, 0xBF)]
  else []

/-- How many of the bytes are what they are to be. -/
def matchRanges : List (UInt8 × UInt8) → List UInt8 → Nat
  | range :: ranges, byte :: bytes =>
    if range.1 ≤ byte ∧ byte ≤ range.2 then matchRanges ranges bytes + 1 else 0
  | _, _ => 0

/-- `bytes.decode("utf-8", "replace")`. -/
def decodeReplace (data : List UInt8) : List Char :=
  match data with
  | [] => []
  | lead :: rest =>
    match (lead :: rest).toByteArray.utf8DecodeChar? 0 with
    | some c => c :: decodeReplace (rest.drop (c.utf8Size - 1))
    | none => '\uFFFD' :: decodeReplace (rest.drop (matchRanges (utf8Ranges lead) rest))
termination_by data.length
decreasing_by
  all_goals
    rw [List.length_cons, List.length_drop]
    omega

/-- A character that is encoded at the front is decoded first. -/
theorem decodeReplace_encode_append (c : Char) (rest : List UInt8) :
    decodeReplace (String.utf8EncodeChar c ++ rest) = c :: decodeReplace rest := by
  have hdecode := ByteArray.utf8DecodeChar?_utf8EncodeChar_append (b := rest.toByteArray) (c := c)
  rw [← List.toByteArray_append] at hdecode
  have hlength : (String.utf8EncodeChar c).length = c.utf8Size := String.length_utf8EncodeChar c
  cases hencode : String.utf8EncodeChar c with
  | nil => exact absurd hencode String.utf8EncodeChar_ne_nil
  | cons lead more =>
    rw [hencode, List.cons_append] at hdecode
    rw [hencode, List.length_cons] at hlength
    have hdrop : (more ++ rest).drop (c.utf8Size - 1) = rest := by
      rw [← hlength, Nat.add_sub_cancel, List.drop_left]
    rw [List.cons_append, decodeReplace, hdecode]
    exact congrArg (c :: decodeReplace ·) hdrop

theorem decodeReplace_encodeUtf8 (text : List Char) : decodeReplace (encodeUtf8 text) = text := by
  induction text with
  | nil => rw [encodeUtf8, List.flatMap_nil, decodeReplace]
  | cons c text ih => rw [encodeUtf8, List.flatMap_cons, decodeReplace_encode_append, ← encodeUtf8, ih]

end Pydsh
