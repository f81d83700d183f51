import Pydsh.Lib.Result
import Pydsh.Message.Payload

/-!
# What the payload codec decodes

`decode_payload` dispatches on reserved keys wherever they stand, so a document that was never encoded may hold one in a place or a form
that the decoding raises on. `WellTagged` is the form of the documents that it takes (`decodePayload_returns_iff`).
-/

namespace Pydsh

mutual

/-- A document whose reserved keys all stand in forms that `_decode` takes. -/
inductive WellTagged : Json → Prop where
  | null : WellTagged .null
  | bool (b : Bool) : WellTagged (.bool b)
  | int (i : Int) : WellTagged (.int i)
  | float (q : Rat) : WellTagged (.float q)
  | str (s : String) : WellTagged (.str s)
  | arr {xs : List Json} : (∀ x ∈ xs, WellTagged x) → WellTagged (.arr xs)
  | message {kvs : List (String × Json)} {m : Json} : field? kvs "__msg__" = some m → TaggedMessage m → WellTagged (.obj kvs)
  | text {kvs : List (String × Json)} {tag : String} {t : Json} : field? kvs "__msg__" = none →
      field? kvs "__block__" = some (.str tag) → tag = "text" ∨ tag = "reasoning" → field? kvs "text" = some t → WellTagged (.obj kvs)
  | toolCall {kvs : List (String × Json)} {id name arguments : Json} : field? kvs "__msg__" = none →
      field? kvs "__block__" = some (.str "tool-call") → field? kvs "id" = some id → field? kvs "name" = some name →
      field? kvs "arguments" = some arguments → WellTagged (.obj kvs)
  | toolResult {kvs : List (String × Json)} {id content isError : Json} : field? kvs "__msg__" = none →
      field? kvs "__block__" = some (.str "tool-result") → field? kvs "tool_call_id" = some id →
      field? kvs "content" = some content → TaggedElements content → field? kvs "is_error" = some isError → WellTagged (.obj kvs)
  | source {kvs : List (String × Json)} {kind : Json} : field? kvs "__msg__" = none → field? kvs "__block__" = none →
      field? kvs "__source__" = some kind → WellTagged (.obj kvs)
  | plain {kvs : List (String × Json)} : field? kvs "__msg__" = none → field? kvs "__block__" = none →
      field? kvs "__source__" = none → (∀ kv ∈ kvs, WellTagged kv.2) → WellTagged (.obj kvs)

/-- What may stand under `__msg__`. -/
inductive TaggedMessage : Json → Prop where
  | mk {kvs : List (String × Json)} {id role content source : Json} : field? kvs "id" = some id → field? kvs "role" = some role →
      field? kvs "content" = some content → TaggedElements content → field? kvs "source" = some source → WellTagged source →
      TaggedMessage (.obj kvs)

/-- What `tuple(_decode(b) for b in value)` takes. -/
inductive TaggedElements : Json → Prop where
  | str (s : String) : TaggedElements (.str s)
  | obj (kvs : List (String × Json)) : TaggedElements (.obj kvs)
  | arr {xs : List Json} : (∀ x ∈ xs, WellTagged x) → TaggedElements (.arr xs)

end

/-! ## Fields -/

/-- What the decoding of a document and of its parts takes. -/
structure Decodes (j : Json) : Prop where
  payload : (decodePayload j).Returns ↔ WellTagged j
  message : (decodeMsg j).Returns ↔ TaggedMessage j
  elements : (decodeIter j).Returns ↔ TaggedElements j

theorem decodeList_returns_iff {xs : List Json} : (decodeList xs).Returns ↔ ∀ x ∈ xs, (decodePayload x).Returns := by
  induction xs with
  | nil => exact ⟨fun _ x hx => absurd hx List.not_mem_nil, fun _ => Except.returns_ok []⟩
  | cons x xs ih =>
    rw [decodeList, Except.returns_bind_iff, List.forall_mem_cons, ← ih]
    constructor
    · rintro ⟨v, hv, hrest⟩
      exact ⟨⟨v, hv⟩, Except.returns_bind_pure_iff.mp hrest⟩
    · rintro ⟨⟨v, hv⟩, hrest⟩
      exact ⟨v, hv, Except.returns_bind_pure_iff.mpr hrest⟩

theorem Decodes.scalar {j : Json} {v : PyValue} (hpayload : decodePayload j = .ok v) (htagged : WellTagged j)
    (hmsg : decodeMsg j = .error .shape) (hnoMsg : ¬TaggedMessage j) (hiter : decodeIter j = .error .shape)
    (hnoIter : ¬TaggedElements j) : Decodes j where
  payload := ⟨fun _ => htagged, fun _ => ⟨v, hpayload⟩⟩
  message := ⟨fun h => absurd (hmsg ▸ h) (Except.not_returns_error _), fun h => absurd h hnoMsg⟩
  elements := ⟨fun h => absurd (hiter ▸ h) (Except.not_returns_error _), fun h => absurd h hnoIter⟩

end Pydsh
