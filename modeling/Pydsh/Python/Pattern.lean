import Mathlib.Logic.Basic

/-!
# Regular expressions

As much of `re` as the failure texts of an endpoint are searched with (`llm/adapters/deepseek.py`): words in any case, runs of
characters of a class, word edges, sequences, alternatives and optional parts. What a search goes through is ASCII, as every failure
text of the transport is.
-/

namespace Pydsh

/-- A place in a text: the character before it, and the text after it. -/
structure Place where
  before : Option Char
  after : List Char

/-- A pattern, compiled with `re.I`. -/
inductive Pattern where
  /-- A text, whose letters are small ones. -/
  | text (cs : List Char)
  /-- `[...]+`. -/
  | run (test : Char → Bool)
  /-- `\b`. -/
  | edge
  | seq (p q : Pattern)
  | alt (p q : Pattern)
  | opt (p : Pattern)

/-- `\w`. -/
def isWordChar (c : Char) : Bool := c.isAlphanum || c == '_'

namespace Pattern

/-- The place after a text. -/
def afterText : List Char → Place → Option Place
  | [], place => some place
  | c :: cs, place =>
    match place.after with
    | [] => none
    | d :: rest => if d.toLower = c then afterText cs ⟨some d, rest⟩ else none

/-- The places after a run of characters of a class. -/
def afterRun (test : Char → Bool) : List Char → List Place
  | [] => []
  | d :: rest => if test d then ⟨some d, rest⟩ :: afterRun test rest else []

/-- The places where a match that starts at a place can end. -/
def ends : Pattern → Place → List Place
  | .text cs, place => (afterText cs place).toList
  | .run test, place => afterRun test place.after
  | .edge, place => if place.before.any isWordChar != place.after.head?.any isWordChar then [place] else []
  | .seq p q, place => (p.ends place).flatMap q.ends
  | .alt p q, place => p.ends place ++ q.ends place
  | .opt p, place => p.ends place ++ [place]

/-- A match starts at a place of the text or after it. -/
def searchFrom (p : Pattern) : Option Char → List Char → Bool
  | before, [] => !(p.ends ⟨before, []⟩).isEmpty
  | before, c :: cs => !(p.ends ⟨before, c :: cs⟩).isEmpty || searchFrom p (some c) cs

/-- `pattern.search(text)` finds something. -/
def search (p : Pattern) (text : String) : Bool := p.searchFrom none text.toList

/-- A word. -/
def word (s : String) : Pattern := .text s.toList

/-- `(?:...|...)` of words. -/
def words (first : String) (rest : List String) : Pattern := rest.foldl (fun p s => .alt p (word s)) (word first)

/-- One after another. -/
def all (first : Pattern) (rest : List Pattern) : Pattern := rest.foldl .seq first

end Pattern

end Pydsh
