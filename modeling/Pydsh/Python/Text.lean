import Mathlib.Data.List.DropRight
import Pydsh.Python.Utf8

/-!
# Files as text

What `open` gives of a file with `newline=None`: every line end is read as "\n", and the lines come one by one with theirs. A text without
a carriage return is read as it is.
-/

namespace Pydsh

/-- `bytes.decode("utf-8")`, or nothing where it raises. -/
def decodeStrict (data : List UInt8) : Option (List Char) :=
  if encodeUtf8 (decodeReplace data) = data then some (decodeReplace data) else none

/-- What is read of a text with `newline=None`. -/
def universalNewlines : List Char → List Char
  | [] => []
  | '\r' :: '\n' :: rest => '\n' :: universalNewlines rest
  | '\r' :: rest => '\n' :: universalNewlines rest
  | c :: rest => c :: universalNewlines rest

/-- The lines that iterating over a text file gives, each with its end. -/
def fileLines : List Char → List (List Char)
  | [] => []
  | c :: rest =>
    if c = '\n' then [c] :: fileLines rest
    else
      match fileLines rest with
      | [] => [[c]]
      | line :: lines => (c :: line) :: lines

/-- `text[:stop]`. -/
def sliceTo {α : Type} (text : List α) (stop : Int) : List α := text.take (if stop < 0 then (text.length + stop).toNat else stop.toNat)

theorem decodeStrict_encodeUtf8 (text : List Char) : decodeStrict (encodeUtf8 text) = some text := by
  rw [decodeStrict, decodeReplace_encodeUtf8, if_pos rfl]

theorem decodeStrict_eq_some_iff {data : List UInt8} {text : List Char} : decodeStrict data = some text ↔ data = encodeUtf8 text := by
  constructor
  · intro h
    unfold decodeStrict at h
    split at h
    · rename_i hencode
      rw [← Option.some.inj h, hencode]
    · cases h
  · rintro rfl
    exact decodeStrict_encodeUtf8 text

theorem universalNewlines_of_notMem {text : List Char} (h : '\r' ∉ text) : universalNewlines text = text := by
  induction text with
  | nil => rfl
  | cons c rest ih =>
    have hc : c ≠ '\r' := fun heq => h (by rw [heq]; exact List.mem_cons_self)
    have hrest : '\r' ∉ rest := fun hmem => h (List.mem_cons_of_mem c hmem)
    rw [universalNewlines, ih hrest]
    · rintro _ rfl
      exact absurd rfl hc
    · exact hc

end Pydsh
