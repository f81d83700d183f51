import Mathlib.Data.List.DropRight
import Pydsh.Lib.Result
import Pydsh.Query.Engine

/-!
# Searching for a phrase

What a text filter finds. A phrase is found where its words stand, in any case and with any white space between them, and no character of it
is more than itself. It is looked for in the texts of a message that are not inside tool results, joined by spaces (`text_search_exact`).
-/

namespace Pydsh

/-! ## What an event says -/

mutual

/-- The texts of a block, at any nesting. -/
def ContentBlock.texts : ContentBlock → List String
  | .text t => [t]
  | .toolResult _ content _ => ContentBlock.textsList content
  | _ => []

def ContentBlock.textsList : List ContentBlock → List String
  | [] => []
  | b :: bs => b.texts ++ ContentBlock.textsList bs

end

/-- The texts of a message, at any nesting. -/
def Message.texts (m : Message) : List String := ContentBlock.textsList m.content

/-- The payload of an event that is searched. -/
def SessionEvent.payload? (event : SessionEvent) : Option Json :=
  match event.data with
  | .obj kvs =>
    match event.type with
    | .userMessage => some event.data
    | .assistantMessage | .toolResult => some ((field? kvs "message").getD .null)
    | _ => none
  | _ => none

/-- An event that is nothing of this kind. -/
def SessionEvent.Silent (event : SessionEvent) : Prop :=
  event.payload? = none ∧ event.type ≠ .toolCall ∧ ∀ s, event.data ≠ .str s

/-- A document is of an event. -/
def EventDocument.Of (doc : EventDocument) (event : SessionEvent) : Prop :=
  doc.seq = event.seq ∧ doc.time = event.time ∧ doc.type = event.type

/-- The texts of Python, as far as the letters of ASCII. -/
def asciiTexts : QueryTexts := { repr := fun _ => "", str := fun _ => "", same := fun c d => c.toLower == d.toLower }

end Pydsh
