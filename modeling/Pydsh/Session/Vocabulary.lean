import Pydsh.Session.Append

/-!
# The message vocabulary and the log

Every value of the vocabulary goes through the log unharmed: what `encode_payload` makes of it passes the lossless gate, and
`decode_payload` gives the value back (`codec_round_trip`). A value of the vocabulary is a message, a block, a source, plain
data, or a list or a dict of such values; the dict's keys are none of the tags the codec dispatches on.
-/

namespace Pydsh

/-- The keys the codec tags with. -/
def reservedTags : List String := ["__msg__", "__block__", "__source__"]

/-- A dict key that is not a tag. -/
structure PlainKey where
  name : String
  plain : name ∉ reservedTags

/-- A value of the message vocabulary. -/
inductive Vocab where
  | none
  | bool (b : Bool)
  | int (i : Int)
  | float (q : Rat)
  | str (s : String)
  | block (b : ContentBlock)
  | source (s : MessageSource)
  | message (m : Message)
  | list (xs : List Vocab)
  | dict (kvs : List (PlainKey × Vocab))

namespace Vocab

mutual

/-- The object Python holds. -/
def toPy : Vocab → PyValue
  | .none => .none
  | .bool b => .bool b
  | .int i => .int i
  | .float q => .float (.finite q)
  | .str s => .str s
  | .block b => b.toPy
  | .source s => s.toPy
  | .message m => m.toPy
  | .list xs => .list (toPyList xs)
  | .dict kvs => .dict (toPyFields kvs)

def toPyList : List Vocab → List PyValue
  | [] => []
  | x :: xs => x.toPy :: toPyList xs

def toPyFields : List (PlainKey × Vocab) → List (PyKey × PyValue)
  | [] => []
  | (k, v) :: kvs => (.str k.name, v.toPy) :: toPyFields kvs

end

mutual

/-- The document the value is encoded to. -/
def toJson : Vocab → Json
  | .none => .null
  | .bool b => .bool b
  | .int i => .int i
  | .float q => .float q
  | .str s => .str s
  | .block b => b.toJson
  | .source s => s.toJson
  | .message m => m.toJson
  | .list xs => .arr (toJsonList xs)
  | .dict kvs => .obj (toJsonFields kvs)

def toJsonList : List Vocab → List Json
  | [] => []
  | x :: xs => x.toJson :: toJsonList xs

def toJsonFields : List (PlainKey × Vocab) → List (String × Json)
  | [] => []
  | (k, v) :: kvs => (k.name, v.toJson) :: toJsonFields kvs

end

/-- Induction over values: a value, the elements of a list, the members of a dict. -/
theorem induct {motive : Vocab → Prop} {L : List Vocab → Prop} {M : List (PlainKey × Vocab) → Prop}
    (none : motive .none) (bool : ∀ b, motive (.bool b)) (int : ∀ i, motive (.int i)) (float : ∀ q, motive (.float q))
    (str : ∀ s, motive (.str s)) (block : ∀ b, motive (.block b)) (source : ∀ s, motive (.source s))
    (message : ∀ m, motive (.message m)) (list : ∀ xs, L xs → motive (.list xs)) (dict : ∀ kvs, M kvs → motive (.dict kvs))
    (elemsNil : L []) (elemsCons : ∀ x xs, motive x → L xs → L (x :: xs))
    (membersNil : M []) (membersCons : ∀ k v kvs, motive v → M kvs → M ((k, v) :: kvs)) :
    ∀ v, motive v :=
  @Vocab.rec motive L M (fun kv => motive kv.2)
    none bool int float str block source message list dict elemsNil elemsCons membersNil
    (fun kv kvs hv hkvs => membersCons kv.1 kv.2 kvs hv hkvs) (fun _ _ hv => hv)

/-! ## Encoding and decoding -/

theorem encode_toPy (v : Vocab) : encodePayload v.toPy = v.toJson.loads := by
  induction v using Vocab.induct
    (L := fun xs => encodeList (toPyList xs) = Json.loadsList (toJsonList xs))
    (M := fun kvs => encodeFields (toPyFields kvs) = Json.loadsFields (toJsonFields kvs)) with
  | block b => exact b.encode_toPy
  | source s => exact s.encode_toPy
  | message m => exact encodePayload_message m
  | list xs ih => simp [toPy, toJson, encodePayload, Json.loads, ih]
  | dict kvs ih => simp [toPy, toJson, encodePayload, Json.loads, ih]
  | elemsCons x xs ihx ihxs => simp [toPyList, toJsonList, encodeList, Json.loadsList, ihx, ihxs]
  | membersCons k v kvs ihv ihkvs =>
    simp [toPyFields, toJsonFields, encodeFields, Json.loadsFields, PyKey.toStr, ihv, ihkvs]
  | _ => rfl

theorem field?_toJsonFields (kvs : List (PlainKey × Vocab)) {tag : String} (htag : tag ∈ reservedTags) :
    field? (toJsonFields kvs) tag = Option.none := by
  induction kvs with
  | nil => rfl
  | cons kv kvs ih =>
    obtain ⟨k, v⟩ := kv
    have hne : k.name ≠ tag := fun heq => k.plain (heq ▸ htag)
    simp [toJsonFields, hne, ih]

theorem decode_toJson (v : Vocab) : decodePayload v.toJson = .ok v.toPy := by
  induction v using Vocab.induct
    (L := fun xs => decodeList (toJsonList xs) = .ok (toPyList xs))
    (M := fun kvs => ∃ vs, collect (decodeFields (toJsonFields kvs)) = .ok vs ∧ PyValue.record vs = .dict (toPyFields kvs)) with
  | block b => exact b.decode_toJson
  | source s => exact s.decode_toJson
  | message m => exact decodePayload_message m
  | list xs ih => simp [toJson, toPy, decodePayload, ih, bind, Except.bind, pure, Except.pure]
  | dict kvs ih =>
    obtain ⟨vs, hvs, hrecord⟩ := ih
    have hmsg := field?_toJsonFields kvs (show "__msg__" ∈ reservedTags by decide)
    have hblock := field?_toJsonFields kvs (show "__block__" ∈ reservedTags by decide)
    have hsource := field?_toJsonFields kvs (show "__source__" ∈ reservedTags by decide)
    simp [toJson, toPy, decodePayload, hmsg, hblock, hsource, hvs, hrecord, bind, Except.bind, pure, Except.pure]
  | elemsCons x xs ihx ihxs => simp [toJsonList, toPyList, decodeList, ihx, ihxs, bind, Except.bind, pure, Except.pure]
  | membersNil => exact ⟨[], rfl, rfl⟩
  | membersCons k v kvs ihv ihkvs =>
    obtain ⟨vs, hvs, hrecord⟩ := ihkvs
    refine ⟨(k.name, v.toPy) :: vs, ?_, ?_⟩
    · simp [toJsonFields, decodeFields, collect, ihv, hvs, bind, Except.bind, pure, Except.pure]
    · simpa [PyValue.record, toPyFields] using hrecord
  | _ => rfl

/-! ## Values and their objects -/

theorem optInt_injective {o o' : Option Int} (h : optInt o = optInt o') : o = o' := by
  cases o <;> cases o' <;> simp_all [optInt]

theorem source_injective {s s' : MessageSource} (h : s.toPy = s'.toPy) : s = s' := by
  cases s
  cases s'
  simp only [MessageSource.toPy, PyValue.messageSource.injEq, PyValue.str.injEq] at h ⊢
  obtain ⟨rfl, rfl, rfl, rfl, rfl, rfl, hrevision, hround⟩ := h
  rw [optInt_injective hrevision, optInt_injective hround]

theorem block_injective {b b' : ContentBlock} (h : b.toPy = b'.toPy) : b = b' := by
  induction b using ContentBlock.induct
    (L := fun bs => ∀ bs', ContentBlock.toPyList bs = ContentBlock.toPyList bs' → bs = bs') generalizing b' with
  | nil bs' h => cases bs' <;> simp_all [ContentBlock.toPyList]
  | cons b bs ihb ihbs bs' h =>
    cases bs' with
    | nil => simp [ContentBlock.toPyList] at h
    | cons b' bs' =>
      simp only [ContentBlock.toPyList, List.cons.injEq] at h
      rw [ihb h.1, ihbs bs' h.2]
  | toolResult id content isError ih =>
    cases b' with
    | toolResult id' content' isError' =>
      simp only [ContentBlock.toPy, PyValue.toolResultBlock.injEq, PyValue.str.injEq, PyValue.bool.injEq] at h
      obtain ⟨rfl, hcontent, rfl⟩ := h
      rw [ih content' hcontent]
    | _ => simp [ContentBlock.toPy] at h
  | toolCall c =>
    cases c
    cases b' <;> simp_all [ContentBlock.toPy]
  | _ => cases b' <;> simp_all [ContentBlock.toPy]

theorem content_injective {bs bs' : List ContentBlock} (h : ContentBlock.toPyList bs = ContentBlock.toPyList bs') :
    bs = bs' := by
  rw [ContentBlock.toPyList_eq_map, ContentBlock.toPyList_eq_map] at h
  exact List.map_injective_iff.mpr (fun _ _ => block_injective) h

theorem message_injective {m m' : Message} (h : m.toPy = m'.toPy) : m = m' := by
  cases m
  cases m'
  simp only [Message.toPy, PyValue.message.injEq, PyValue.str.injEq] at h
  obtain ⟨rfl, rfl, hcontent, hsource⟩ := h
  rw [content_injective hcontent, source_injective hsource]

theorem key_injective {k k' : PlainKey} (h : k.name = k'.name) : k = k' := by
  cases k
  cases k'
  cases h
  rfl

theorem toPy_injective {v w : Vocab} (h : v.toPy = w.toPy) : v = w := by
  induction v using Vocab.induct
    (L := fun xs => ∀ ys, toPyList xs = toPyList ys → xs = ys)
    (M := fun kvs => ∀ fs, toPyFields kvs = toPyFields fs → kvs = fs) generalizing w with
  | block b =>
    cases w with
    | block b' => rw [block_injective h]
    | _ => cases b <;> simp [toPy, ContentBlock.toPy, MessageSource.toPy, Message.toPy] at h
  | source s =>
    cases w with
    | source s' => rw [source_injective h]
    | block b' => cases b' <;> simp [toPy, ContentBlock.toPy, MessageSource.toPy] at h
    | _ => simp [toPy, MessageSource.toPy, Message.toPy] at h
  | message m =>
    cases w with
    | message m' => rw [message_injective h]
    | block b' => cases b' <;> simp [toPy, ContentBlock.toPy, Message.toPy] at h
    | _ => simp [toPy, MessageSource.toPy, Message.toPy] at h
  | elemsNil ys h => cases ys <;> simp_all [toPyList]
  | elemsCons x xs ihx ihxs ys h =>
    cases ys with
    | nil => simp [toPyList] at h
    | cons y ys =>
      simp only [toPyList, List.cons.injEq] at h
      rw [ihx h.1, ihxs ys h.2]
  | membersNil fs h => cases fs <;> simp_all [toPyFields]
  | membersCons k v kvs ihv ihkvs fs h =>
    cases fs with
    | nil => simp [toPyFields] at h
    | cons f fs =>
      simp only [toPyFields, List.cons.injEq, Prod.mk.injEq, PyKey.str.injEq] at h
      rw [key_injective h.1.1, ihv h.1.2, ihkvs fs h.2]
  | list xs ih =>
    cases w with
    | list ys => rw [ih ys (by simpa [toPy] using h)]
    | block b' => cases b' <;> simp [toPy, ContentBlock.toPy] at h
    | _ => simp [toPy, MessageSource.toPy, Message.toPy] at h
  | dict kvs ih =>
    cases w with
    | dict fs => rw [ih fs (by simpa [toPy] using h)]
    | block b' => cases b' <;> simp [toPy, ContentBlock.toPy] at h
    | _ => simp [toPy, MessageSource.toPy, Message.toPy] at h
  | _ =>
    cases w with
    | block b' => cases b' <;> simp [toPy, ContentBlock.toPy] at h
    | _ => simp_all [toPy, MessageSource.toPy, Message.toPy]

end Vocab

end Pydsh
