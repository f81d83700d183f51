import Pydsh.Message.Blocks

/-!
# The payload codec

`message/payload.py`: `encode_payload` tags every object of the vocabulary with a reserved key, so that what reaches the log
is plain JSON; `decode_payload` dispatches on the tags. Encoding works on any Python value; decoding works on the documents
the log holds, and raises where the source raises (an unknown block tag, a missing key, a value of the wrong shape).

The two facts the rest of the development uses are that a message of the vocabulary is encoded to a document
(`encodePayload_message`) and decoded back to itself (`decodePayload_message`).
-/

namespace Pydsh

/-- Why `decode_payload` raises. -/
inductive PayloadError where
  /-- `PayloadDecodeError`: a block tag the vocabulary does not define. -/
  | unknownTag (tag : Json)
  /-- `KeyError`: a tagged dict without one of its fields. -/
  | missing (key : String)
  /-- `TypeError`: a tagged value that is not of the shape the tag promises. -/
  | shape

/-! ## Encoding -/

/-- `str(k)`. -/
def PyKey.toStr : PyKey → String
  | .str s => s
  | .scalar _ s => s
  | .other s => s

mutual

/-- `_encode`: tag the vocabulary, pass everything else through. -/
def encodePayload : PyValue → PyValue
  | .message id role content source =>
    .record [("__msg__", .record [("id", id), ("role", role), ("content", .list (encodeList content)),
      ("source", encodePayload source)])]
  | .textBlock text => .record [("__block__", .str "text"), ("text", text)]
  | .reasoningBlock text => .record [("__block__", .str "reasoning"), ("text", text)]
  | .toolCallBlock id name arguments =>
    .record [("__block__", .str "tool-call"), ("id", id), ("name", name), ("arguments", arguments)]
  | .toolResultBlock toolCallId content isError =>
    .record [("__block__", .str "tool-result"), ("tool_call_id", toolCallId), ("content", .list (encodeList content)),
      ("is_error", isError)]
  | .messageSource kind plugin form provider model goalId revision round =>
    .record [("__source__", kind), ("plugin", plugin), ("form", form), ("provider", provider), ("model", model),
      ("goal_id", goalId), ("revision", revision), ("round", round)]
  | .tuple xs => .list (encodeList xs)
  | .list xs => .list (encodeList xs)
  | .dict kvs => .dict (encodeFields kvs)
  | .dataclass fields => .dict (encodeAttrs fields)
  | v => v

def encodeList : List PyValue → List PyValue
  | [] => []
  | x :: xs => encodePayload x :: encodeList xs

def encodeFields : List (PyKey × PyValue) → List (PyKey × PyValue)
  | [] => []
  | (k, v) :: kvs => (.str k.toStr, encodePayload v) :: encodeFields kvs

def encodeAttrs : List (String × PyValue) → List (PyKey × PyValue)
  | [] => []
  | (k, v) :: kvs => (.str k, encodePayload v) :: encodeAttrs kvs

end

/-! ## Decoding -/

/-- `value[key]` on a dict. -/
def item {α : Type} (kvs : List (String × α)) (key : String) : Except PayloadError α :=
  match field? kvs key with
  | some v => .ok v
  | none => .error (.missing key)

/-- `value.get(key, default)` on a dict, as the value Python holds. -/
def getD (kvs : List (String × Json)) (key : String) (default : PyValue) : PyValue :=
  ((field? kvs key).map Json.loads).getD default

/-- The members of a dict, each decoded; the first one that raises stops the comprehension. -/
def collect {ε α : Type} : List (String × Except ε α) → Except ε (List (String × α))
  | [] => .ok []
  | (k, r) :: rs => do
    let v ← r
    let vs ← collect rs
    return (k, v) :: vs

mutual

/-- `_decode`. -/
def decodePayload : Json → Except PayloadError PyValue
  | .null => .ok .none
  | .bool b => .ok (.bool b)
  | .int i => .ok (.int i)
  | .float q => .ok (.float (.finite q))
  | .str s => .ok (.str s)
  | .arr xs => do
    let vs ← decodeList xs
    return .list vs
  | .obj kvs =>
    if (field? kvs "__msg__").isSome then
      (item (msgFields kvs) "__msg__").bind (fun message => message)
    else
      match field? kvs "__block__" with
      | some (.str "text") => do
        let text ← item kvs "text"
        return .textBlock text.loads
      | some (.str "reasoning") => do
        let text ← item kvs "text"
        return .reasoningBlock text.loads
      | some (.str "tool-call") => do
        let id ← item kvs "id"
        let name ← item kvs "name"
        let arguments ← item kvs "arguments"
        return .toolCallBlock id.loads name.loads arguments.loads
      | some (.str "tool-result") => do
        let toolCallId ← item kvs "tool_call_id"
        let content ← item (iterFields kvs) "content"
        let content ← content
        let isError ← item kvs "is_error"
        return .toolResultBlock toolCallId.loads content isError.loads
      | some tag => .error (.unknownTag tag)
      | none =>
        match field? kvs "__source__" with
        | some kind =>
          .ok (.messageSource kind.loads (getD kvs "plugin" (.str "")) (getD kvs "form" (.str ""))
            (getD kvs "provider" (.str "")) (getD kvs "model" (.str "")) (getD kvs "goal_id" (.str ""))
            (getD kvs "revision" .none) (getD kvs "round" .none))
        | none => do
          let vs ← collect (decodeFields kvs)
          return .record vs

/-- `Message(...)` from the value stored under `__msg__`. -/
def decodeMsg : Json → Except PayloadError PyValue
  | .obj kvs => do
    let id ← item kvs "id"
    let role ← item kvs "role"
    let content ← item (iterFields kvs) "content"
    let content ← content
    let source ← item (decodeFields kvs) "source"
    let source ← source
    return .message id.loads role.loads content source
  | _ => .error .shape

/-- `tuple(_decode(b) for b in value)`: over the elements of a list, the characters of a string, the keys of a dict. -/
def decodeIter : Json → Except PayloadError (List PyValue)
  | .arr xs => decodeList xs
  | .str s => .ok (s.toList.map (fun c => .str (String.singleton c)))
  | .obj kvs => .ok (kvs.map (fun kv => .str kv.1))
  | _ => .error .shape

def decodeList : List Json → Except PayloadError (List PyValue)
  | [] => .ok []
  | x :: xs => do
    let v ← decodePayload x
    let vs ← decodeList xs
    return v :: vs

/-- Every member of a dict, decoded. -/
def decodeFields : List (String × Json) → List (String × Except PayloadError PyValue)
  | [] => []
  | (k, v) :: kvs => (k, decodePayload v) :: decodeFields kvs

/-- Every member of a dict, read as a message. -/
def msgFields : List (String × Json) → List (String × Except PayloadError PyValue)
  | [] => []
  | (k, v) :: kvs => (k, decodeMsg v) :: msgFields kvs

/-- Every member of a dict, its elements decoded. -/
def iterFields : List (String × Json) → List (String × Except PayloadError (List PyValue))
  | [] => []
  | (k, v) :: kvs => (k, decodeIter v) :: iterFields kvs

end

/-! ## The documents the vocabulary is encoded to -/

/-- The document of `Optional[int]`. -/
def optIntJson : Option Int → Json
  | none => .null
  | some i => .int i

mutual

def ContentBlock.toJson : ContentBlock → Json
  | .text t => .obj [("__block__", .str "text"), ("text", .str t)]
  | .reasoning t => .obj [("__block__", .str "reasoning"), ("text", .str t)]
  | .toolCall call =>
    .obj [("__block__", .str "tool-call"), ("id", .str call.id), ("name", .str call.name), ("arguments", .str call.arguments)]
  | .toolResult id content isError =>
    .obj [("__block__", .str "tool-result"), ("tool_call_id", .str id), ("content", .arr (ContentBlock.toJsonList content)),
      ("is_error", .bool isError)]

def ContentBlock.toJsonList : List ContentBlock → List Json
  | [] => []
  | b :: bs => b.toJson :: ContentBlock.toJsonList bs

end

def MessageSource.toJson (s : MessageSource) : Json :=
  .obj [("__source__", .str s.kind), ("plugin", .str s.plugin), ("form", .str s.form), ("provider", .str s.provider),
    ("model", .str s.model), ("goal_id", .str s.goalId), ("revision", optIntJson s.revision), ("round", optIntJson s.round)]

def Message.toJson (m : Message) : Json :=
  .obj [("__msg__", .obj [("id", .str m.id), ("role", .str m.role), ("content", .arr (ContentBlock.toJsonList m.content)),
    ("source", m.source.toJson)])]

/-! ## Encoding a message gives its document, and decoding gives it back -/

/-- Induction over content blocks: a block, and the blocks inside a tool result. -/
theorem ContentBlock.induct {motive : ContentBlock → Prop} {L : List ContentBlock → Prop}
    (text : ∀ t, motive (.text t)) (reasoning : ∀ t, motive (.reasoning t)) (toolCall : ∀ c, motive (.toolCall c))
    (toolResult : ∀ id content isError, L content → motive (.toolResult id content isError))
    (nil : L []) (cons : ∀ b bs, motive b → L bs → L (b :: bs)) : ∀ b, motive b :=
  @ContentBlock.rec motive L text reasoning toolCall toolResult nil cons

theorem ContentBlock.encode_toPy (b : ContentBlock) : encodePayload b.toPy = b.toJson.loads := by
  induction b using ContentBlock.induct
    (L := fun bs => encodeList (ContentBlock.toPyList bs) = Json.loadsList (ContentBlock.toJsonList bs)) with
  | text t => simp [ContentBlock.toPy, ContentBlock.toJson, encodePayload, PyValue.record, Json.loads, Json.loadsFields]
  | reasoning t => simp [ContentBlock.toPy, ContentBlock.toJson, encodePayload, PyValue.record, Json.loads, Json.loadsFields]
  | toolCall c => simp [ContentBlock.toPy, ContentBlock.toJson, encodePayload, PyValue.record, Json.loads, Json.loadsFields]
  | toolResult id content isError ih =>
    simp [ContentBlock.toPy, ContentBlock.toJson, encodePayload, PyValue.record, Json.loads, Json.loadsFields, ih]
  | nil => rfl
  | cons b bs ihb ihbs => simp [ContentBlock.toPyList, ContentBlock.toJsonList, encodeList, Json.loadsList, ihb, ihbs]

theorem ContentBlock.encodeList_toPyList (bs : List ContentBlock) :
    encodeList (ContentBlock.toPyList bs) = Json.loadsList (ContentBlock.toJsonList bs) := by
  induction bs with
  | nil => rfl
  | cons b bs ih =>
    simp [ContentBlock.toPyList, ContentBlock.toJsonList, encodeList, Json.loadsList, b.encode_toPy, ih]

theorem optInt_eq (o : Option Int) : optInt o = (optIntJson o).loads := by
  cases o <;> rfl

theorem MessageSource.encode_toPy (s : MessageSource) : encodePayload s.toPy = s.toJson.loads := by
  simp [MessageSource.toPy, MessageSource.toJson, encodePayload, PyValue.record, Json.loads, Json.loadsFields, optInt_eq]

/-- Encoding a message gives the value of its document: a message always passes the lossless gate. -/
theorem encodePayload_message (m : Message) : encodePayload m.toPy = m.toJson.loads := by
  simp [Message.toPy, Message.toJson, encodePayload, PyValue.record, Json.loads, Json.loadsFields, ContentBlock.encodeList_toPyList,
    m.source.encode_toPy]

theorem ContentBlock.decode_toJson (b : ContentBlock) : decodePayload b.toJson = .ok b.toPy := by
  induction b using ContentBlock.induct
    (L := fun bs => decodeList (ContentBlock.toJsonList bs) = .ok (ContentBlock.toPyList bs)) with
  | text t => simp [ContentBlock.toJson, ContentBlock.toPy, decodePayload, item, Json.loads, bind, Except.bind, pure, Except.pure]
  | reasoning t =>
    simp [ContentBlock.toJson, ContentBlock.toPy, decodePayload, item, Json.loads, bind, Except.bind, pure, Except.pure]
  | toolCall c =>
    simp [ContentBlock.toJson, ContentBlock.toPy, decodePayload, item, Json.loads, bind, Except.bind, pure, Except.pure]
  | toolResult id content isError ih =>
    simp [ContentBlock.toJson, ContentBlock.toPy, decodePayload, item, iterFields, decodeIter, ih, Json.loads, bind,
      Except.bind, pure, Except.pure]
  | nil => rfl
  | cons b bs ihb ihbs =>
    simp [ContentBlock.toJsonList, ContentBlock.toPyList, decodeList, ihb, ihbs, bind, Except.bind, pure, Except.pure]

theorem ContentBlock.decodeList_toJsonList (bs : List ContentBlock) :
    decodeList (ContentBlock.toJsonList bs) = .ok (ContentBlock.toPyList bs) := by
  induction bs with
  | nil => rfl
  | cons b bs ih =>
    simp [ContentBlock.toJsonList, ContentBlock.toPyList, decodeList, b.decode_toJson, ih, bind, Except.bind, pure, Except.pure]

theorem MessageSource.decode_toJson (s : MessageSource) : decodePayload s.toJson = .ok s.toPy := by
  simp [MessageSource.toJson, MessageSource.toPy, decodePayload, getD, optInt_eq, Json.loads]

theorem decodePayload_message (m : Message) : decodePayload m.toJson = .ok m.toPy := by
  simp [Message.toJson, Message.toPy, decodePayload, item, msgFields, decodeMsg, iterFields, decodeFields, decodeIter,
    ContentBlock.decodeList_toJsonList, m.source.decode_toJson, Json.loads, bind, Except.bind, pure, Except.pure]

end Pydsh
