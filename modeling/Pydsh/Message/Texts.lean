import Pydsh.Llm.Serialize
import Pydsh.Message.Payload
import Pydsh.Python.Dynamic

/-!
# The texts of a stored message

`as_text` on what the payload codec gives back: the texts of the text blocks, joined. A log holds any documents, so a text may be
something other than a string, and then the join raises. Of a message of the vocabulary it is the texts of its blocks
(`joinTexts_toPyList`).
-/

namespace Pydsh

/-- `decode_payload`, and `None` where it raises. -/
def decoded (data : Json) : PyValue :=
  match decodePayload data with
  | .ok value => value
  | .error _ => .none

/-- `getattr(message, "content", ()) or ()`. -/
def PyValue.contentAttr : PyValue → List PyValue
  | .message _ _ content _ => content
  | .toolResultBlock _ content _ => content
  | _ => []

/-- `getattr(getattr(message, "source", None), "kind", None)`. -/
def PyValue.sourceKind : PyValue → PyValue
  | .message _ _ _ (.messageSource kind _ _ _ _ _ _ _) => kind
  | _ => .none

/-- `b.text` of a text block. -/
def PyValue.blockText? : PyValue → Option PyValue
  | .textBlock text => some text
  | _ => Option.none

/-- An item of `"".join`. -/
def PyValue.joined : PyValue → Except String String
  | .str s => .ok s
  | v => .error ("TypeError: expected str instance, " ++ v.typeName ++ " found")

/-- `as_text`. -/
def joinTexts (content : List PyValue) : Except String String :=
  ((content.filterMap PyValue.blockText?).mapM PyValue.joined).map String.join

/-- The texts of the blocks of the vocabulary are all strings. -/
theorem blockTexts_toPyList (content : List ContentBlock) :
    (ContentBlock.toPyList content).filterMap PyValue.blockText? = (content.filterMap ContentBlock.text?).map PyValue.str := by
  rw [ContentBlock.toPyList_eq_map, List.filterMap_map, List.map_filterMap]
  apply List.filterMap_congr
  intro block _
  cases block <;> simp [ContentBlock.toPy, PyValue.blockText?, ContentBlock.text?]

theorem mapM_joined (texts : List String) : (texts.map PyValue.str).mapM PyValue.joined = .ok texts := by
  induction texts with
  | nil => rfl
  | cons text texts ih =>
    rw [List.map_cons, List.mapM_cons, ih]
    rfl

theorem joinTexts_toPyList (content : List ContentBlock) :
    joinTexts (ContentBlock.toPyList content) = .ok (asText content) := by
  rw [joinTexts, blockTexts_toPyList, mapM_joined]
  rfl

/-- The content of the message that a reply's data holds. -/
def replyContent (data : Json) : List PyValue :=
  match data with
  | .obj kvs => (decoded ((field? kvs "message").getD .null)).contentAttr
  | _ => []

theorem decoded_message (m : Message) : decoded m.toJson = m.toPy := by
  rw [decoded, decodePayload_message]

@[simp] theorem contentAttr_toPy (m : Message) : m.toPy.contentAttr = ContentBlock.toPyList m.content := rfl

@[simp] theorem sourceKind_toPy (m : Message) : m.toPy.sourceKind = .str m.source.kind := rfl

theorem replyContent_message {kvs : List (String × Json)} {m : Message} (h : field? kvs "message" = some m.toJson) :
    replyContent (.obj kvs) = ContentBlock.toPyList m.content := by
  simp [replyContent, h, decoded_message]

end Pydsh
