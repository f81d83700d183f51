import Mathlib.Data.List.Infix

/-!
# Shell patterns

`fnmatch.fnmatch` where file names are told apart by case: `*` stands for any text, `?` for a character, `[seq]` and `[!seq]` for one of
those listed or not listed; a bracket that is not closed is a character.
-/

namespace Pydsh

/-- A piece of a pattern. -/
inductive GlobPiece where
  | star
  | one
  | set (negated : Bool) (ranges : List (Char × Char))
  | char (c : Char)
  deriving DecidableEq

/-- The ranges between brackets. A hyphen at either end is a character. -/
def globRanges : List Char → List (Char × Char)
  | first :: '-' :: last :: rest => (first, last) :: globRanges rest
  | c :: rest => (c, c) :: globRanges rest
  | [] => []

/-- What is between a bracket and the one that closes it, which is not the first character, and the length of it all. -/
def globSet (text : List Char) : Option (GlobPiece × Nat) :=
  let negated := text.head? == some '!'
  let text := if negated then text.drop 1 else text
  match text with
  | [] => none
  | c :: rest =>
    let body := rest.takeWhile (· ≠ ']')
    if body.length = rest.length then none else some (.set negated (globRanges (c :: body)), negated.toNat + body.length + 2)

/-- The pieces of a pattern, of which so many characters are read already. -/
def globPieces : Nat → List Char → List GlobPiece
  | _, [] => []
  | read + 1, _ :: rest => globPieces read rest
  | 0, c :: rest =>
    if c = '*' then .star :: globPieces 0 rest
    else if c = '?' then .one :: globPieces 0 rest
    else if c = '[' then
      match globSet rest with
      | some (piece, length) => piece :: globPieces length rest
      | none => .char c :: globPieces 0 rest
    else .char c :: globPieces 0 rest

/-- Whether a piece stands for a character. -/
def GlobPiece.takes (c : Char) : GlobPiece → Bool
  | .star | .one => true
  | .set negated ranges => ranges.any (fun range => range.1 ≤ c ∧ c ≤ range.2) != negated
  | .char d => c = d

/-- Whether the pieces stand for a text. -/
def globMatch : List GlobPiece → List Char → Bool
  | [], text => text.isEmpty
  | .star :: pieces, text => text.tails.any (globMatch pieces)
  | piece :: pieces, c :: text => piece.takes c && globMatch pieces text
  | _ :: _, [] => false

/-- `fnmatch.fnmatch`. -/
def fnmatch (name pattern : String) : Bool := globMatch (globPieces 0 pattern.toList) name.toList

example : fnmatch "fs_read" "fs_*" = true ∧ fnmatch "bash" "[!a-c]*" = false ∧ fnmatch "[x" "[x" = true := by decide

end Pydsh
