import Pydsh.Lib.Result
import Pydsh.Llm.Attempts

/-!
# The shapes that the translation takes

`translate` reads a payload in the order it comes to its parts, and what it has collected before never makes a read fail: a payload
raises or not by its own shape (`takes_addPayload`). What is read off a payload is a `PayloadFrame`; a payload has one exactly if it has
the shape that `PyValue.isFrame` checks, so a stream raises only `LlmError`s exactly if its payloads have that shape as far as it goes.
-/

namespace Pydsh

/-- What is read off an entry of `tool_calls`. -/
structure CallDelta where
  key : HashKey
  id : PyValue
  name : PyValue
  fragment : String

/-- What is read off an entry of `choices`. -/
structure ChoiceDelta where
  reasoning : PyValue
  content : PyValue
  calls : List CallDelta
  finishReason : PyValue

/-- What is read off a payload. -/
structure PayloadFrame where
  choices : List ChoiceDelta
  usage : Option PyDict

/-- The reads of an entry of `tool_calls`. -/
def CallDelta.read (call : PyValue) : Except String CallDelta := do
  let key ← (call.getAttr "index" (.int 0)).bind PyValue.hashKey
  let id ← call.getAttr "id"
  let function ← call.getAttr "function"
  let name ← (function.orElse (.dict [])).getAttr "name"
  let arguments ← (function.orElse (.dict [])).getAttr "arguments"
  let fragment ← (arguments.orElse (.str "")).fragment
  return { key, id, name, fragment }

/-- The reads of an entry of `choices`. -/
def ChoiceDelta.read (choice : PyValue) : Except String ChoiceDelta := do
  let delta ← choice.getAttr "delta"
  let reasoning ← (delta.orElse (.dict [])).getAttr "reasoning_content"
  let content ← (delta.orElse (.dict [])).getAttr "content"
  let calls ← (delta.orElse (.dict [])).getAttr "tool_calls"
  let entries ← (calls.orElse (.tuple [])).elements
  let calls ← entries.mapM CallDelta.read
  let finishReason ← choice.getAttr "finish_reason"
  return { reasoning, content, calls, finishReason }

namespace Wire

variable (wire : Wire)

/-- The usage of a payload, where it has one. -/
def readUsage (usage : PyValue) : Except String (Option PyDict) :=
  if usage.truthy then (wire.mapUsage usage).map some else .ok none

/-- The reads of a payload. -/
def readFrame (frame : PyValue) : Except String PayloadFrame := do
  let choices ← frame.getAttr "choices"
  let entries ← (choices.orElse (.tuple [])).elements
  let choices ← entries.mapM ChoiceDelta.read
  let usage ← frame.getAttr "usage"
  let usage ← wire.readUsage usage
  return { choices, usage }

/-- A call's delta added. -/
def takeCall (t : Translation) (c : CallDelta) : Translation := wire.addDelta c.key c.id c.name c.fragment (t.openTool c.key)

/-- A value added where it is a string with something in it. -/
def takeFragment (f : Translation → String → Translation) (t : Translation) : PyValue → Translation
  | .str s => if s = "" then t else f t s
  | _ => t

/-- A finish reason, pending where it is a string. -/
def takeReason (t : Translation) : PyValue → Translation
  | .str reason => { t with pendingFinish := some (wire.mapFinishReason reason) }
  | _ => t

/-- A choice's delta added. -/
def takeChoice (t : Translation) (c : ChoiceDelta) : Translation :=
  let t := takeFragment Translation.addReasoning t c.reasoning
  let t := takeFragment Translation.addText t c.content
  wire.takeReason (c.calls.foldl wire.takeCall t) c.finishReason

/-- The usage, pending where a payload has one. -/
def takeUsage (t : Translation) : Option PyDict → Translation
  | some usage => { t with pendingUsage := some usage }
  | none => t

/-- A payload added. -/
def takeFrame (t : Translation) (frame : PayloadFrame) : Translation :=
  takeUsage (frame.choices.foldl wire.takeChoice t) frame.usage

end Wire

/-! ## The translation takes what it reads -/

/-- Code that reads something first, whatever the state is, and then adds it. -/
structure Takes {α : Type} (m : TranslateM Unit) (r : Except String α) (f : Translation → α → Translation) : Prop where
  took : ∀ a, r = .ok a → ∀ t, m t = (.ok (), f t a)
  raised : ∀ e, r = .error e → ∀ t, (m t).1 = .error (.other (.failed e))

variable {wire : Wire} {α β : Type}

theorem Takes.checked {r : Except String β} {m : β → TranslateM Unit} {r' : β → Except String α}
    {f : Translation → α → Translation} (h : ∀ b, r = .ok b → Takes (m b) (r' b) f) : Takes (checked r >>= m) (r >>= r') f := by
  cases r with
  | ok b => exact ⟨(h b rfl).took, (h b rfl).raised⟩
  | error e =>
    refine ⟨fun a ha => ?_, fun e' he' t => ?_⟩
    · cases ha
    · cases he'
      rfl

theorem Takes.before {m₀ m : TranslateM Unit} {r₀ : Except String β} {r : β → Except String α} {f₀ : Translation → β → Translation}
    {f : Translation → α → Translation} (f' : β → Translation → α → Translation) (h₀ : Takes m₀ r₀ f₀)
    (h : ∀ b, Takes m (r b) (f' b)) (hf : ∀ b a, r b = .ok a → ∀ t, f t a = f' b (f₀ t b) a) :
    Takes (m₀ >>= fun _ => m) (r₀ >>= r) f := by
  cases r₀ with
  | ok b =>
    have hfirst : ∀ t, m₀ t = (.ok (), f₀ t b) := h₀.took b rfl
    refine ⟨fun a ha t => ?_, fun e he t => ?_⟩
    · have hrest : m (f₀ t b) = (.ok (), f' b (f₀ t b) a) := (h b).took a ha (f₀ t b)
      simp only [bind, hfirst, hrest, hf b a ha t]
    · simp only [bind, hfirst]
      exact (h b).raised e he (f₀ t b)
  | error e =>
    refine ⟨fun a ha => ?_, fun e' he' t => ?_⟩
    · cases ha
    · cases he'
      have hfirst := h₀.raised e rfl t
      simp only [bind]
      rcases hrun : m₀ t with ⟨r', t'⟩
      rw [hrun] at hfirst
      cases hfirst
      rfl

/-- A change of the state that reads nothing, and code that reads the rest. -/
theorem Takes.changed {g : Translation → Translation} {m : TranslateM Unit} {r : Except String α}
    {f : Translation → α → Translation} (f' : Translation → α → Translation) (h : Takes m r f')
    (hf : ∀ a, r = .ok a → ∀ t, f t a = f' (g t) a) :
    Takes (Effect.modifies g >>= fun _ => m) r f := by
  refine ⟨fun a ha t => ?_, fun e he t => h.raised e he (g t)⟩
  rw [hf a ha t]
  exact h.took a ha (g t)

theorem Takes.last {g : Translation → Translation} {a : α} {f : Translation → α → Translation} (hf : ∀ t, f t a = g t) :
    Takes (Effect.modifies g) (.ok a) f := by
  refine ⟨fun a' ha t => ?_, fun e he => ?_⟩
  · cases ha
    rw [hf t]
    rfl
  · cases he

theorem Takes.each {g : PyValue → TranslateM Unit} {read : PyValue → Except String α} {f : Translation → α → Translation}
    (h : ∀ x, Takes (g x) (read x) f) (xs : List PyValue) : Takes (Wire.each g xs) (xs.mapM read) (fun t as => as.foldl f t) := by
  induction xs with
  | nil =>
    refine ⟨fun as has t => ?_, fun e he => ?_⟩
    · cases has
      rfl
    · cases he
  | cons x xs ih =>
    rw [List.mapM_cons]
    refine ⟨fun as has t => ?_, fun e he t => ?_⟩
    · cases hx : read x with
      | error e =>
        rw [hx] at has
        cases has
      | ok a =>
        cases hxs : xs.mapM read with
        | error e =>
          rw [hx, hxs] at has
          cases has
        | ok rest =>
          rw [hx, hxs] at has
          cases has
          have hfirst : g x t = (.ok (), f t a) := (h x).took a hx t
          have hrest : Wire.each g xs (f t a) = (.ok (), rest.foldl f (f t a)) := ih.took rest hxs (f t a)
          simp only [Wire.each, bind, hfirst, hrest, List.foldl_cons]
    · cases hx : read x with
      | error e' =>
        rw [hx] at he
        cases he
        have hfirst := (h x).raised e hx t
        simp only [Wire.each, bind]
        rcases hrun : g x t with ⟨r, t'⟩
        rw [hrun] at hfirst
        cases hfirst
        rfl
      | ok a =>
        cases hxs : xs.mapM read with
        | ok rest =>
          rw [hx, hxs] at he
          cases he
        | error e' =>
          rw [hx, hxs] at he
          cases he
          have hfirst : g x t = (.ok (), f t a) := (h x).took a hx t
          simp only [Wire.each, bind, hfirst]
          exact ih.raised e hxs (f t a)

theorem takes_addToolCall (call : PyValue) : Takes (wire.addToolCall call) (CallDelta.read call) wire.takeCall := by
  refine .checked (fun key _ => ?_)
  refine .changed (fun t c => wire.addDelta c.key c.id c.name c.fragment t) ?_ (fun c hc t => ?_)
  · refine .checked (fun id _ => .checked (fun function _ => .checked (fun name _ => ?_)))
    exact .checked (fun arguments _ => .checked (fun fragment _ => .last (fun t => rfl)))
  · obtain ⟨id, -, hc⟩ := Except.bind_eq_ok_iff.mp hc
    obtain ⟨function, -, hc⟩ := Except.bind_eq_ok_iff.mp hc
    obtain ⟨name, -, hc⟩ := Except.bind_eq_ok_iff.mp hc
    obtain ⟨arguments, -, hc⟩ := Except.bind_eq_ok_iff.mp hc
    obtain ⟨fragment, -, hc⟩ := Except.bind_eq_ok_iff.mp hc
    cases hc
    rfl

theorem fragmentOf_eq (f : Translation → String → Translation) (v : PyValue) :
    Wire.fragmentOf f v = Effect.modifies (fun t => Wire.takeFragment f t v) := by
  cases v with
  | str s =>
    funext t
    simp only [Wire.fragmentOf, Wire.takeFragment, Effect.modifies]
    split <;> rfl
  | _ => rfl

theorem takes_addChoice (choice : PyValue) : Takes (wire.addChoice choice) (ChoiceDelta.read choice) wire.takeChoice := by
  unfold Wire.addChoice ChoiceDelta.read
  refine .checked (fun delta _ => .checked (fun reasoning _ => ?_))
  rw [fragmentOf_eq]
  refine .changed (fun t c =>
    wire.takeReason (c.calls.foldl wire.takeCall (Wire.takeFragment Translation.addText t c.content)) c.finishReason) ?_
    (fun c hc t => ?_)
  · refine .checked (fun content _ => ?_)
    rw [fragmentOf_eq]
    refine .changed (fun t c => wire.takeReason (c.calls.foldl wire.takeCall t) c.finishReason) ?_ (fun c hc t => ?_)
    · refine .checked (fun calls _ => .checked (fun entries _ => ?_))
      refine .before (fun _ t c => wire.takeReason t c.finishReason) (.each takes_addToolCall entries) (fun calls => ?_)
        (fun calls c hc t => ?_)
      · refine .checked (fun finishReason _ => ?_)
        cases finishReason <;> exact .last (fun t => rfl)
      · obtain ⟨finishReason, -, hc⟩ := Except.bind_eq_ok_iff.mp hc
        cases hc
        rfl
    · obtain ⟨calls, -, hc⟩ := Except.bind_eq_ok_iff.mp hc
      obtain ⟨entries, -, hc⟩ := Except.bind_eq_ok_iff.mp hc
      obtain ⟨deltas, -, hc⟩ := Except.bind_eq_ok_iff.mp hc
      obtain ⟨finishReason, -, hc⟩ := Except.bind_eq_ok_iff.mp hc
      cases hc
      rfl
  · obtain ⟨content, -, hc⟩ := Except.bind_eq_ok_iff.mp hc
    obtain ⟨calls, -, hc⟩ := Except.bind_eq_ok_iff.mp hc
    obtain ⟨entries, -, hc⟩ := Except.bind_eq_ok_iff.mp hc
    obtain ⟨deltas, -, hc⟩ := Except.bind_eq_ok_iff.mp hc
    obtain ⟨finishReason, -, hc⟩ := Except.bind_eq_ok_iff.mp hc
    cases hc
    rfl

/-- A payload, parsed, is taken by what is read off it, whatever came before. -/
theorem takes_addPayload {payload : String} {frame : PyValue} (hparse : wire.loads payload = .ok frame) :
    Takes (wire.addPayload payload) (wire.readFrame frame) wire.takeFrame := by
  have hparsed : wire.addPayload payload = (checked (frame.getAttr "choices") >>= fun choices =>
      checked ((choices.orElse (.tuple [])).elements) >>= fun entries => Wire.each wire.addChoice entries >>= fun _ =>
      checked (frame.getAttr "usage") >>= fun usage =>
      if usage.truthy then checked (wire.mapUsage usage) >>= fun mapped =>
        Effect.modifies (fun t => { t with pendingUsage := some mapped })
      else pure ()) := by
    unfold Wire.addPayload Wire.parse
    rw [hparse]
    rfl
  rw [hparsed]
  refine .checked (fun choices _ => .checked (fun entries _ => ?_))
  refine .before (fun _ t frame => Wire.takeUsage t frame.usage) (.each takes_addChoice entries)
    (fun choices => .checked (fun usage _ => ?_)) (fun choices frame hframe t => ?_)
  · by_cases husage : usage.truthy = true
    · rw [if_pos husage, Wire.readUsage, if_pos husage]
      cases hmapped : wire.mapUsage usage with
      | ok mapped => exact .last (fun t => rfl)
      | error e =>
        refine ⟨fun frame hframe => ?_, fun e' he' t => ?_⟩
        · cases hframe
        · cases he'
          rfl
    · rw [if_neg husage, Wire.readUsage, if_neg husage]
      exact .last (fun t => rfl)
  · obtain ⟨usage, -, hframe⟩ := Except.bind_eq_ok_iff.mp hframe
    obtain ⟨mapped, -, hframe⟩ := Except.bind_eq_ok_iff.mp hframe
    cases hframe
    rfl

/-! ## The shapes -/

namespace PyValue

/-- The value is a dict. -/
def isDict : PyValue → Bool
  | .dict _ => true
  | _ => false

/-- `v.get(key)`, where `v` is a dict; nothing, where it is none. -/
def member (v : PyValue) (key : String) : PyValue :=
  match v with
  | .dict kvs => (PyDict.get? kvs key).getD .none
  | _ => .none

/-- Nothing, or a dict. -/
def isDictOrNothing (v : PyValue) : Bool := !v.truthy || v.isDict

/-- Nothing, or a string. -/
def isStrOrNothing : PyValue → Bool
  | .str _ => true
  | v => !v.truthy

/-- Nothing, or a list whose elements pass a check. -/
def isListOrNothing (p : PyValue → Bool) (v : PyValue) : Bool :=
  !v.truthy || match v with
  | .list xs | .tuple xs => xs.all p
  | _ => false

/-- A value that a dict takes for a key. -/
def isHashable : PyValue → Bool
  | .none | .bool _ | .int _ | .float _ | .str _ => true
  | _ => false

/-- The shape of an entry of `tool_calls`. -/
def isCallDelta (v : PyValue) : Bool :=
  v.isDict && (v.member "index").isHashable && (v.member "function").isDictOrNothing &&
    ((v.member "function").member "arguments").isStrOrNothing

/-- The shape of an entry of `choices`. -/
def isChoice (v : PyValue) : Bool :=
  v.isDict && (v.member "delta").isDictOrNothing && ((v.member "delta").member "tool_calls").isListOrNothing isCallDelta

/-- The counts of the prompt's tokens that are read from the cache. -/
def cachedTokens (usage : PyValue) : PyValue :=
  let cached := (usage.member "prompt_tokens_details").member "cached_tokens"
  if cached.isNone then usage.member "prompt_cache_hit_tokens" else cached

/-- The first count minus the second one is computed, where nothing stands for 0. -/
def subtracts (wire : Wire) (v w : PyValue) : Bool := (minus wire.floats (v.orElse (.int 0)) (w.orElse (.int 0))).isOk

/-- The shape of `usage`. -/
def isUsage (wire : Wire) (v : PyValue) : Bool :=
  v.isDict && (v.member "prompt_tokens_details").isDictOrNothing && (v.member "completion_tokens_details").isDictOrNothing &&
    subtracts wire (v.member "prompt_tokens") v.cachedTokens

/-- The shape of a payload. -/
def isFrame (wire : Wire) (v : PyValue) : Bool :=
  v.isDict && (v.member "choices").isListOrNothing isChoice && (!(v.member "usage").truthy || (v.member "usage").isUsage wire)

/-! ## A payload has something to read exactly if it has the shape -/

theorem getAttr_eq_ok_iff {v a : PyValue} {key : String} : v.getAttr key = .ok a ↔ v.isDict = true ∧ a = v.member key := by
  cases v <;> simp [getAttr, isDict, member, eq_comm]

theorem member_of_not_truthy {v : PyValue} (h : v.truthy = false) (key : String) : v.member key = .none := by
  cases v with
  | dict kvs =>
    cases kvs with
    | nil => rfl
    | cons kv kvs => simp [truthy] at h
  | _ => rfl

/-- `(v or {}).get(key)`. -/
theorem optional_getAttr_eq_ok_iff {v a : PyValue} {key : String} :
    (v.orElse (.dict [])).getAttr key = .ok a ↔ v.isDictOrNothing = true ∧ a = v.member key := by
  unfold orElse isDictOrNothing
  cases h : v.truthy with
  | true => simp [getAttr_eq_ok_iff]
  | false =>
    rw [member_of_not_truthy h]
    simp [getAttr, PyDict.get?, eq_comm]

theorem returns_hashKey_iff {v : PyValue} : v.hashKey.Returns ↔ v.isHashable = true := by
  cases v with
  | float f => cases f <;> simp [hashKey, isHashable]
  | _ => simp [hashKey, isHashable]

theorem returns_fragment_iff {v : PyValue} : ((v.orElse (.str "")).fragment).Returns ↔ v.isStrOrNothing = true := by
  unfold orElse
  cases h : v.truthy with
  | true => cases v <;> simp [fragment, isStrOrNothing, h]
  | false => cases v <;> simp [fragment, isStrOrNothing, h]

theorem returns_index_iff {v : PyValue} :
    ((v.getAttr "index" (.int 0)).bind hashKey).Returns ↔ v.isDict = true ∧ (v.member "index").isHashable = true := by
  cases v with
  | dict kvs =>
    have hindex : ((PyValue.dict kvs).getAttr "index" (.int 0)).bind hashKey = ((PyDict.get? kvs "index").getD (.int 0)).hashKey :=
      rfl
    rw [hindex, returns_hashKey_iff]
    cases h : PyDict.get? kvs "index" <;> simp [isDict, member, h, isHashable]
  | _ =>
    refine ⟨fun h => absurd h (Except.not_returns_error _), fun h => ?_⟩
    cases h.1

/-- The entries of `v or ()`, each read: there must be a list of them. -/
theorem returns_entries_iff {α : Type} {read : PyValue → Except String α} {p : PyValue → Bool}
    (hread : ∀ x, (read x).Returns ↔ p x = true) (hdict : ∀ x, p x = true → x.isDict = true) {v : PyValue} :
    (((v.orElse (.tuple [])).elements) >>= fun entries => entries.mapM read).Returns ↔ v.isListOrNothing p = true := by
  have hmapM : ∀ xs : List PyValue, (xs.mapM read).Returns ↔ xs.all p = true := by
    intro xs
    rw [Except.returns_mapM_iff, List.all_eq_true]
    exact forall₂_congr (fun x _ => hread x)
  -- the characters of a string and the keys of a dict are no dicts
  have hnone : ∀ xs : List PyValue, xs ≠ [] → (∀ x ∈ xs, x.isDict = false) → ¬(xs.mapM read).Returns := by
    intro xs hne hxs hreturns
    obtain ⟨x, hx⟩ := List.exists_mem_of_ne_nil xs hne
    have hshape : x.isDict = true := hdict x ((hread x).mp (Except.returns_mapM_iff.mp hreturns x hx))
    rw [hxs x hx] at hshape
    cases hshape
  unfold orElse isListOrNothing
  cases h : v.truthy with
  | false => simp [elements, Except.returns_bind_iff, Except.returns_mapM_iff]
  | true =>
    cases v with
    | list xs => simpa [elements, Except.returns_bind_iff] using hmapM xs
    | tuple xs => simpa [elements, Except.returns_bind_iff] using hmapM xs
    | str s =>
      have hs : s.toList ≠ [] := by simpa [truthy] using h
      have hchars := hnone (s.toList.map (fun c => .str (String.singleton c))) (by simpa using hs) (by simp [isDict])
      simpa [elements, Except.returns_bind_iff] using hchars
    | dict kvs =>
      refine ⟨fun hreturns => ?_, fun hshape => by cases hshape⟩
      obtain ⟨xs, hxs, hread⟩ := Except.returns_bind_iff.mp hreturns
      cases hxs
      refine absurd hread (hnone _ (by simpa [truthy] using h) (fun x hx => ?_))
      obtain ⟨kv, -, rfl⟩ := List.mem_map.mp hx
      cases kv.1 <;> rfl
    | _ => simp [elements, Except.returns_bind_iff]

theorem returns_callDelta_iff {v : PyValue} : (CallDelta.read v).Returns ↔ v.isCallDelta = true := by
  have hreads : (CallDelta.read v).Returns ↔ ((v.getAttr "index" (.int 0)).bind hashKey).Returns ∧ v.isDict = true ∧
      (v.member "function").isDictOrNothing = true ∧
      ((((v.member "function").member "arguments").orElse (.str "")).fragment).Returns := by
    simp only [CallDelta.read, Except.returns_bind_iff, optional_getAttr_eq_ok_iff]
    simp only [getAttr_eq_ok_iff, and_assoc, exists_and_left, exists_eq_left]
    constructor
    · rintro ⟨key, hkey, hdict, -, hfunction, -, fragment, hfragment, -⟩
      exact ⟨⟨key, hkey⟩, hdict, hfunction, fragment, hfragment⟩
    · rintro ⟨⟨key, hkey⟩, hdict, hfunction, fragment, hfragment⟩
      exact ⟨key, hkey, hdict, hdict, hfunction, hfunction, fragment, hfragment, Except.returns_ok _⟩
  rw [hreads, returns_index_iff, returns_fragment_iff]
  simp only [isCallDelta, Bool.and_eq_true]
  tauto

theorem returns_choiceDelta_iff {v : PyValue} : (ChoiceDelta.read v).Returns ↔ v.isChoice = true := by
  have hreads : (ChoiceDelta.read v).Returns ↔ v.isDict = true ∧ (v.member "delta").isDictOrNothing = true ∧
      ((((v.member "delta").member "tool_calls").orElse (.tuple [])).elements >>= fun entries =>
        entries.mapM CallDelta.read).Returns := by
    simp only [ChoiceDelta.read, Except.returns_bind_iff, optional_getAttr_eq_ok_iff]
    simp only [getAttr_eq_ok_iff, and_assoc, exists_and_left, exists_eq_left]
    constructor
    · rintro ⟨hdict, hdelta, -, -, entries, hentries, calls, hcalls, -⟩
      exact ⟨hdict, hdelta, entries, hentries, calls, hcalls⟩
    · rintro ⟨hdict, hdelta, entries, hentries, calls, hcalls⟩
      exact ⟨hdict, hdelta, hdelta, hdelta, entries, hentries, calls, hcalls, hdict, Except.returns_ok _⟩
  rw [hreads, returns_entries_iff (fun _ => returns_callDelta_iff) (fun x hx => ?_)]
  · simp [isChoice, and_assoc]
  · simp only [isCallDelta, Bool.and_eq_true] at hx
    exact hx.1.1.1

theorem returns_mapUsage_iff {usage : PyValue} : (wire.mapUsage usage).Returns ↔ usage.isUsage wire = true := by
  simp only [Wire.mapUsage, Except.returns_bind_iff, optional_getAttr_eq_ok_iff]
  simp only [getAttr_eq_ok_iff, and_assoc, exists_and_left, exists_eq_left, isUsage, subtracts, cachedTokens,
    Bool.and_eq_true, Except.isOk_iff_returns]
  cases hcached : ((usage.member "prompt_tokens_details").member "cached_tokens").isNone with
  | true =>
    simp only [if_true, Except.returns_bind_iff, optional_getAttr_eq_ok_iff]
    simp only [getAttr_eq_ok_iff, and_assoc, exists_and_left, exists_eq_left]
    constructor
    · rintro ⟨hdict, hdetails, -, -, hcompletion, -, input, hinput, -⟩
      exact ⟨hdict, hdetails, hcompletion, input, hinput⟩
    · rintro ⟨hdict, hdetails, hcompletion, input, hinput⟩
      exact ⟨hdict, hdetails, hdict, hdict, hcompletion, hdict, input, hinput, hdict, Except.returns_ok _⟩
  | false =>
    simp only [Bool.false_eq_true, if_false, Except.returns_bind_iff, optional_getAttr_eq_ok_iff]
    simp only [getAttr_eq_ok_iff, and_assoc, exists_and_left, exists_eq_left, Except.ok.injEq, exists_eq_left']
    constructor
    · rintro ⟨hdict, hdetails, -, hcompletion, -, input, hinput, -⟩
      exact ⟨hdict, hdetails, hcompletion, input, hinput⟩
    · rintro ⟨hdict, hdetails, hcompletion, input, hinput⟩
      exact ⟨hdict, hdetails, hdict, hcompletion, hdict, input, hinput, hdict, Except.returns_ok _⟩

theorem returns_readFrame_iff {v : PyValue} : (wire.readFrame v).Returns ↔ v.isFrame wire = true := by
  have hreads : (wire.readFrame v).Returns ↔ v.isDict = true ∧
      (((v.member "choices").orElse (.tuple [])).elements >>= fun entries => entries.mapM ChoiceDelta.read).Returns ∧
      (wire.readUsage (v.member "usage")).Returns := by
    simp only [Wire.readFrame, Except.returns_bind_iff, getAttr_eq_ok_iff, and_assoc, exists_and_left, exists_eq_left]
    constructor
    · rintro ⟨hdict, entries, hentries, choices, hchoices, -, usage, husage, -⟩
      exact ⟨hdict, ⟨entries, hentries, choices, hchoices⟩, usage, husage⟩
    · rintro ⟨hdict, ⟨entries, hentries, choices, hchoices⟩, usage, husage⟩
      exact ⟨hdict, entries, hentries, choices, hchoices, hdict, usage, husage, Except.returns_ok _⟩
  have husage : (wire.readUsage (v.member "usage")).Returns ↔
      (!(v.member "usage").truthy || (v.member "usage").isUsage wire) = true := by
    unfold Wire.readUsage
    cases h : (v.member "usage").truthy with
    | true => simp [Except.returns_map_iff, returns_mapUsage_iff]
    | false => simp
  rw [hreads, husage, returns_entries_iff (fun _ => returns_choiceDelta_iff) (fun x hx => ?_)]
  · simp [isFrame, and_assoc]
  · simp only [isChoice, Bool.and_eq_true] at hx
    exact hx.1.1

end PyValue

/-! ## A stream raises only what the layers above look at -/

namespace Wire

/-- `translate` over all payloads: the frames it yields, and how it ends. -/
def translate (wire : Wire) (payloads : List String) : List StreamChunk × Except StreamError Unit :=
  match wire.read payloads {} with
  | (.error e, t) => (t.yielded, .error e)
  | (.ok true, t) => (t.yielded, .ok ())
  | (.ok false, t) => (t.yielded, .error (.llm streamClosed))

/-- Each payload has the shape of one, up to `[DONE]` or to one that is no JSON. -/
def readable (wire : Wire) : List String → Bool
  | [] => true
  | payload :: payloads => payload = done ||
    match wire.loads payload with
    | .error .decode => true
    | .error (.other _) => false
    | .ok frame => frame.isFrame wire && readable wire payloads

theorem addPayload_of_decode {payload : String} (h : wire.loads payload = .error .decode) (t : Translation) :
    wire.addPayload payload t = (.error (.llm (malformed payload)), t) := by
  simp only [addPayload, parse, h]
  rfl

theorem addPayload_of_other {payload : String} {e : Raised} (h : wire.loads payload = .error (.other e)) (t : Translation) :
    wire.addPayload payload t = (.error (.other e), t) := by
  simp only [addPayload, parse, h]
  rfl

/-- The payloads are read without another error than an `LlmError` exactly if each of them has its shape. -/
theorem read_ne_other_iff {payloads : List String} {t : Translation} :
    (∀ e, (wire.read payloads t).1 ≠ .error (.other e)) ↔ wire.readable payloads = true := by
  induction payloads generalizing t with
  | nil => simp [read, readable, pure]
  | cons payload payloads ih =>
    rw [read, readable]
    by_cases hdone : payload = done
    · simp [hdone, bind, Effect.modifies, pure]
    · rw [if_neg hdone]
      cases hparse : wire.loads payload with
      | error e =>
        cases e with
        | decode => simp [bind, addPayload_of_decode hparse]
        | other e => simp [bind, addPayload_of_other hparse, hdone]
      | ok value =>
        have htakes := takes_addPayload hparse
        cases hread : wire.readFrame value with
        | ok frame =>
          have hshape : value.isFrame wire = true := PyValue.returns_readFrame_iff.mp ⟨frame, hread⟩
          simp only [bind, htakes.took frame hread, hdone, hshape, decide_false, Bool.false_or, Bool.true_and]
          exact ih
        | error e =>
          have hshape : ¬value.isFrame wire = true := by
            rw [← PyValue.returns_readFrame_iff, hread]
            exact Except.not_returns_error e
          have hraised : (wire.addPayload payload t).1 = .error (.other (.failed e)) := htakes.raised e hread t
          rcases hrun : wire.addPayload payload t with ⟨r, t'⟩
          rw [hrun] at hraised
          obtain rfl : r = .error (.other (.failed e)) := hraised
          simp [bind, hrun, hdone, hshape]

/-- The translation of a stream ends, or raises an `LlmError`, and raises nothing else, exactly if each payload has the shape of one,
up to `[DONE]` or to one that is no JSON. -/
theorem translate_ne_other_iff (wire : Wire) (payloads : List String) :
    (∀ e, (wire.translate payloads).2 ≠ .error (.other e)) ↔ wire.readable payloads = true := by
  rw [← read_ne_other_iff (t := {})]
  unfold translate
  rcases wire.read payloads {} with ⟨e | ended, t⟩
  · simp
  · cases ended <;> simp

/-- A parser that knows one payload: an empty list. -/
def listWire : Wire where
  loads payload := if payload = "[]" then .ok (.list []) else .error .decode
  upper reason := reason
  floats _ _ := .error "TypeError"
  text v := match v with
    | .str s => s
    | _ => ""
  text_str := Eq.refl

/-- A payload that is a list raises what a list does that is asked for an entry by its key. -/
theorem translate_list : (listWire.translate ["[]"]).2 =
    .error (.other (.failed "AttributeError: 'list' object has no attribute 'get'")) := by
  rfl

end Wire

end Pydsh
