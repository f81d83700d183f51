import Pydsh.Lib.Result
import Pydsh.Python.Base64
import Pydsh.Python.CodePoints
import Pydsh.Python.Text

/-!
# References to sessions

`query/reference.py`: the URI of a session id, the Markdown mention that carries one, and the scan of a text for both. A URI is decoded
only if it is the one that the id is encoded to, so every id that comes out goes back to the same text. An id that has the two halves of a
character as code points of their own does not come out of its URI, since JSON has one spelling for the pair and the character
(`decode_encode_iff`).
-/

namespace Pydsh

/-- The character of a code point. -/
def CodePoint.char? : CodePoint → Option Char
  | .char c => some c
  | .surrogate _ => none

namespace SessionReferences

/-- `SCHEME` -/
def scheme : PyText := .ofString "dsh-session:"

/-- Why `decode_reference_uri` raises `SessionReferenceError`. -/
inductive SessionReferenceError where
  | notUri (uri : PyText)
  | payload (uri : PyText)
  /-- The payload could not be decoded, or does not name a session. -/
  | unreadable (uri : PyText)
  | notCanonical (uri : PyText)
  deriving DecidableEq

/-! ## URIs -/

/-- `encode_reference_uri` -/
def encodeReferenceUri (sessionId : PyText) : PyText :=
  scheme ++ .ofChars (Base64.encode (encodeUtf8 (PyText.dumpsString sessionId)))

/-- `[A-Za-z0-9_-]` -/
def isPayloadPoint : CodePoint → Bool
  | .char c => decide (c ∈ Base64.alphabet)
  | .surrogate _ => false

/-- `json.loads(base64.urlsafe_b64decode(...).decode("utf-8"))`, where it gives a string. -/
def decodePayloadText (payload : PyText) : Option PyText := do
  let bytes ← Base64.decode (payload.filterMap CodePoint.char?)
  let text ← decodeStrict bytes
  PyText.loadsString text

/-- `decode_reference_uri` -/
def decodeReferenceUri (uri : PyText) : Except SessionReferenceError PyText :=
  if scheme <+: uri then
    let payload := uri.drop scheme.length
    if payload ≠ [] ∧ payload.all isPayloadPoint then
      match decodePayloadText payload with
      | none => .error (.unreadable uri)
      | some decoded => if encodeReferenceUri decoded = uri then .ok decoded else .error (.notCanonical uri)
    else .error (.payload uri)
  else .error (.notUri uri)

/-- An id without the two halves of a character side by side. -/
def Whole (sessionId : PyText) : Prop := sessionId.IsChain (fun p q => ¬ PyText.IsPair p q)

instance (sessionId : PyText) : Decidable (Whole sessionId) :=
  inferInstanceAs (Decidable (sessionId.IsChain (fun p q => ¬ PyText.IsPair p q)))

theorem filterMap_ofChars (text : List Char) : (PyText.ofChars text).filterMap CodePoint.char? = text := by
  unfold PyText.ofChars
  rw [List.filterMap_map]
  exact List.filterMap_some

theorem encodeUtf8_ne_nil {text : List Char} (h : text ≠ []) : encodeUtf8 text ≠ [] := by
  intro hnil
  have hback := decodeReplace_encodeUtf8 text
  rw [hnil] at hback
  exact h (by rw [← hback, decodeReplace])

/-- What stands behind the scheme of a URI. -/
def payloadOfId (sessionId : PyText) : List Char := Base64.encode (encodeUtf8 (PyText.dumpsString sessionId))

theorem payloadOfId_ne_nil (sessionId : PyText) : payloadOfId sessionId ≠ [] :=
  Base64.encode_ne_nil (encodeUtf8_ne_nil (List.cons_ne_nil _ _))

theorem isPayloadPoint_payload (sessionId : PyText) : ∀ p ∈ PyText.ofChars (payloadOfId sessionId), isPayloadPoint p = true := by
  intro p hp
  obtain ⟨c, hc, rfl⟩ := List.mem_map.mp hp
  exact decide_eq_true (Base64.mem_alphabet_of_mem_encode _ c hc)

theorem decodePayloadText_payload (sessionId : PyText) :
    decodePayloadText (.ofChars (payloadOfId sessionId)) = some (PyText.joinPairs sessionId) := by
  unfold decodePayloadText payloadOfId
  rw [filterMap_ofChars, Base64.decode_encode]
  simp only [bind, Option.bind, decodeStrict_encodeUtf8, PyText.loadsString_dumpsString]

/-- A URI that is decoded is the one that its id is encoded to. -/
theorem encode_of_decode {uri sessionId : PyText} (h : decodeReferenceUri uri = .ok sessionId) : encodeReferenceUri sessionId = uri := by
  unfold decodeReferenceUri at h
  split at h
  · dsimp only at h
    split at h
    · split at h
      · cases h
      · split at h
        · rename_i hcanonical
          cases h
          exact hcanonical
        · cases h
    · cases h
  · cases h

/-- What is read of the URI of an id, before the check that the URI is canonical. -/
theorem decode_encode (sessionId : PyText) : decodeReferenceUri (encodeReferenceUri sessionId) =
    if encodeReferenceUri (PyText.joinPairs sessionId) = encodeReferenceUri sessionId then .ok (PyText.joinPairs sessionId)
    else .error (.notCanonical (encodeReferenceUri sessionId)) := by
  have hscheme : scheme <+: encodeReferenceUri sessionId := List.prefix_append _ _
  have hpayload : (encodeReferenceUri sessionId).drop scheme.length = PyText.ofChars (payloadOfId sessionId) := List.drop_left
  have hne : PyText.ofChars (payloadOfId sessionId) ≠ [] := by
    unfold PyText.ofChars
    rw [ne_eq, List.map_eq_nil_iff]
    exact payloadOfId_ne_nil sessionId
  unfold decodeReferenceUri
  simp only [if_pos hscheme, hpayload, if_pos (And.intro hne (List.all_eq_true.mpr (isPayloadPoint_payload sessionId))),
    decodePayloadText_payload]

/-- An id comes out of its URI exactly if it does not have the two halves of a character side by side. -/
theorem decode_encode_iff (sessionId : PyText) :
    decodeReferenceUri (encodeReferenceUri sessionId) = .ok sessionId ↔ Whole sessionId := by
  unfold Whole
  rw [← PyText.joinPairs_eq_self_iff, decode_encode]
  constructor
  · intro h
    split at h
    · exact Except.ok.inj h
    · cases h
  · intro h
    rw [h, if_pos rfl]

/-! ## Labels -/

/-- `_escape_label` -/
def escapeLabel (label : PyText) : PyText :=
  label.flatMap (fun p => if p = .char '\\' ∨ p = .char ']' then [.char '\\', p] else [p])

/-- `_unescape_label` -/
def unescapeLabel : PyText → PyText
  | [] => []
  | p :: rest =>
    if p = .char '\\' then
      match rest with
      | [] => [p]
      -- "." takes no newline
      | q :: rest => if q = .char '\n' then p :: q :: unescapeLabel rest else q :: unescapeLabel rest
    else p :: unescapeLabel rest

/-- `((?:\\.|[^\\\]])*)\]`: what stands before the first "]" that is not escaped, and what stands behind it. -/
def scanLabel : PyText → Option (PyText × PyText)
  | [] => none
  | p :: rest =>
    if p = .char ']' then some ([], rest)
    else if p = .char '\\' then
      match rest with
      | [] => none
      | q :: rest => if q = .char '\n' then none else (scanLabel rest).map (fun parts => (p :: q :: parts.1, parts.2))
    else (scanLabel rest).map (fun parts => (p :: parts.1, parts.2))

theorem escapeLabel_cons (p : CodePoint) (label : PyText) :
    escapeLabel (p :: label) =
      (if p = .char '\\' ∨ p = .char ']' then [.char '\\', p] else [p]) ++ escapeLabel label := rfl

theorem unescapeLabel_escapeLabel (label : PyText) : unescapeLabel (escapeLabel label) = label := by
  induction label with
  | nil => rfl
  | cons p label ih =>
    rw [escapeLabel_cons]
    split
    · rename_i hspecial
      have hline : p ≠ .char '\n' := by
        rintro rfl
        exact absurd hspecial (by decide)
      rw [List.cons_append, List.cons_append, List.nil_append, unescapeLabel.eq_def]
      simp only [if_true, if_neg hline, ih]
    · rename_i hplain
      rw [List.singleton_append, unescapeLabel.eq_def]
      simp only [if_neg (fun heq => hplain (Or.inl heq)), ih]

/-- A label that was escaped is found up to the "]" that closes it. -/
theorem scanLabel_escapeLabel (label behind : PyText) :
    scanLabel (escapeLabel label ++ .char ']' :: behind) = some (escapeLabel label, behind) := by
  induction label with
  | nil =>
    rw [escapeLabel, List.flatMap_nil, List.nil_append, scanLabel.eq_def]
    simp only [if_true]
  | cons p label ih =>
    rw [escapeLabel_cons]
    split
    · rename_i hspecial
      have hline : p ≠ .char '\n' := by
        rintro rfl
        exact absurd hspecial (by decide)
      have hslash : CodePoint.char '\\' ≠ .char ']' := by decide
      rw [List.append_assoc, List.cons_append, List.cons_append, List.nil_append, scanLabel.eq_def]
      simp only [if_neg hslash, if_true, if_neg hline, ih, Option.map_some]
      rfl
    · rename_i hplain
      rw [List.append_assoc, List.singleton_append, scanLabel.eq_def]
      simp only [if_neg (fun heq => hplain (Or.inr heq)), if_neg (fun heq => hplain (Or.inl heq)), ih, Option.map_some]
      rfl

/-! ## Mentions -/

/-- `label or session_id` -/
def shownLabel (sessionId : PyText) : Option PyText → PyText
  | some (p :: label) => p :: label
  | _ => sessionId

/-- `format_mention` -/
def formatMention (sessionId : PyText) (label : Option PyText) : PyText :=
  .ofString "@[" ++ escapeLabel (shownLabel sessionId label) ++ .ofString "](" ++ encodeReferenceUri sessionId ++ .ofString ")"

/-- A match of `_MENTION`: its URI, with the label of a link. -/
structure ReferenceMatch where
  rawLabel : Option PyText
  uri : PyText
  deriving DecidableEq

/-- `[^\s)]` -/
def isTargetPoint (p : CodePoint) : Bool := !PyText.isSpacePoint p && p != .char ')'

/-- The first alternative of `_MENTION` at the front of a text, and what is behind the match. -/
def matchLink (text : PyText) : Option (ReferenceMatch × PyText) :=
  if PyText.ofString "@[" <+: text then
    match scanLabel (text.drop 2) with
    | none => none
    | some (rawLabel, behind) =>
      if .char '(' :: scheme <+: behind then
        let target := behind.drop 1
        match target.dropWhile isTargetPoint with
        | .char ')' :: rest => some (⟨some rawLabel, target.takeWhile isTargetPoint⟩, rest)
        | _ => none
      else none
  else none

/-- The second alternative. -/
def matchBare (text : PyText) : Option (ReferenceMatch × PyText) :=
  if scheme <+: text then
    let behind := text.drop scheme.length
    let payload := behind.takeWhile isPayloadPoint
    if payload = [] then none else some (⟨none, scheme ++ payload⟩, behind.dropWhile isPayloadPoint)
  else none

/-- `_MENTION.match` -/
def matchMention (text : PyText) : Option (ReferenceMatch × PyText) := (matchLink text).or (matchBare text)

theorem length_lt_of_scanLabel {text rawLabel behind : PyText} (h : scanLabel text = some (rawLabel, behind)) :
    behind.length < text.length := by
  induction text using scanLabel.induct generalizing rawLabel with
  | case1 => cases h
  | case2 rest =>
    rw [scanLabel.eq_def] at h
    simp only [if_true, Option.some.injEq, Prod.mk.injEq] at h
    rw [← h.2]
    exact Nat.lt_succ_self _
  | case3 => cases h
  | case4 rest hslash =>
    rw [scanLabel.eq_def] at h
    simp only [if_neg hslash, if_true] at h
    cases h
  | case5 q rest hline hslash ih =>
    rw [scanLabel.eq_def] at h
    simp only [if_neg hslash, if_true, if_neg hline] at h
    obtain ⟨parts, hparts, heq⟩ := Option.map_eq_some_iff.mp h
    cases heq
    exact Nat.lt_succ_of_lt (Nat.lt_succ_of_lt (ih hparts))
  | case6 p rest hclose hescape ih =>
    rw [scanLabel.eq_def] at h
    simp only [if_neg hclose, if_neg hescape] at h
    obtain ⟨parts, hparts, heq⟩ := Option.map_eq_some_iff.mp h
    cases heq
    exact Nat.lt_succ_of_lt (ih hparts)

theorem length_lt_of_matchLink {text behind : PyText} {m : ReferenceMatch} (h : matchLink text = some (m, behind)) :
    behind.length < text.length := by
  unfold matchLink at h
  split at h
  · split at h
    · cases h
    · rename_i rawLabel rest hscan
      split at h
      · dsimp only at h
        split at h
        · rename_i after hafter
          cases h
          have hlabel := length_lt_of_scanLabel hscan
          have htarget := (List.dropWhile_suffix isTargetPoint (l := rest.drop 1)).length_le
          rw [hafter] at htarget
          simp only [List.length_drop, List.length_cons] at hlabel htarget
          omega
        · cases h
      · cases h
  · cases h

theorem length_lt_of_matchBare {text behind : PyText} {m : ReferenceMatch} (h : matchBare text = some (m, behind)) :
    behind.length < text.length := by
  unfold matchBare at h
  split at h
  · rename_i hprefix
    dsimp only at h
    split at h
    · cases h
    · cases h
      have hscheme : scheme.length = 12 := by decide
      have hlength := hprefix.length_le
      have hrest := (List.dropWhile_suffix isPayloadPoint (l := text.drop scheme.length)).length_le
      rw [List.length_drop] at hrest
      omega
  · cases h

theorem length_lt_of_matchMention {text behind : PyText} {m : ReferenceMatch} (h : matchMention text = some (m, behind)) :
    behind.length < text.length := by
  rcases Option.or_eq_some_iff.mp h with hlink | ⟨-, hbare⟩
  · exact length_lt_of_matchLink hlink
  · exact length_lt_of_matchBare hbare

/-- What `_MENTION.sub` goes through: the code points between the matches, and the matches. -/
def pieces : PyText → List (CodePoint ⊕ ReferenceMatch)
  | [] => []
  | p :: rest =>
    match _hmatch : matchMention (p :: rest) with
    | some (m, behind) => .inr m :: pieces behind
    | none => .inl p :: pieces rest
termination_by text => text.length
decreasing_by
  · exact length_lt_of_matchMention _hmatch
  · exact Nat.lt_succ_self _

/-! ## References in a text -/

structure Reference where
  sessionId : PyText
  label : PyText
  deriving DecidableEq

/-- What `parse_references` returns. -/
structure ParsedText where
  text : PyText
  references : List Reference

/-- The reference that a match is replaced by. -/
def readReference (m : ReferenceMatch) : Except SessionReferenceError Reference :=
  (decodeReferenceUri m.uri).map (fun sessionId => ⟨sessionId, (m.rawLabel.map unescapeLabel).getD sessionId⟩)

/-- The text with each match replaced, and the references; the first match that is no reference raises. -/
def substitute : List (CodePoint ⊕ ReferenceMatch) → Except SessionReferenceError ParsedText
  | [] => .ok ⟨[], []⟩
  | .inl p :: rest => (substitute rest).map (fun parsed => { parsed with text := p :: parsed.text })
  | .inr m :: rest =>
    (readReference m).bind (fun reference =>
      (substitute rest).map (fun parsed => ⟨.char '@' :: (reference.label ++ parsed.text), reference :: parsed.references⟩))

/-- `parse_references` -/
def parseReferences (text : PyText) : Except SessionReferenceError ParsedText := substitute (pieces text)

theorem pieces_of_match {text behind : PyText} {m : ReferenceMatch} (h : matchMention text = some (m, behind)) :
    pieces text = .inr m :: pieces behind := by
  cases text with
  | nil => cases h
  | cons p rest =>
    rw [pieces]
    split
    · rename_i m' behind' hmatch
      rw [h] at hmatch
      cases hmatch
      rfl
    · rename_i hnone
      rw [h] at hnone
      cases hnone

theorem isTargetPoint_uri (sessionId : PyText) : ∀ p ∈ encodeReferenceUri sessionId, isTargetPoint p = true := by
  have hscheme : ∀ p ∈ scheme, isTargetPoint p = true := by decide +kernel
  have halphabet : Base64.alphabet.all (fun c => isTargetPoint (.char c)) = true := by decide +kernel
  intro p hp
  rcases List.mem_append.mp hp with hp | hp
  · exact hscheme p hp
  · obtain ⟨c, hc, rfl⟩ := List.mem_map.mp hp
    exact List.all_eq_true.mp halphabet c (Base64.mem_alphabet_of_mem_encode _ c hc)

theorem matchMention_formatMention (sessionId : PyText) (label : Option PyText) : matchMention (formatMention sessionId label) =
    some (⟨some (escapeLabel (shownLabel sessionId label)), encodeReferenceUri sessionId⟩, []) := by
  have htext : formatMention sessionId label = .char '@' :: .char '[' ::
      (escapeLabel (shownLabel sessionId label) ++ .char ']' :: .char '(' :: (encodeReferenceUri sessionId ++ [.char ')'])) := by
    unfold formatMention
    simp [PyText.ofString, PyText.ofChars]
  have hopen : PyText.ofString "@[" <+: formatMention sessionId label := by
    rw [htext]
    exact List.prefix_append [CodePoint.char '@', CodePoint.char '['] _
  have hscheme : .char '(' :: scheme <+: .char '(' :: (encodeReferenceUri sessionId ++ [.char ')']) :=
    List.cons_prefix_cons.mpr ⟨rfl, (List.prefix_append _ _).trans (List.prefix_append _ _)⟩
  have hlink : matchLink (formatMention sessionId label) =
      some (⟨some (escapeLabel (shownLabel sessionId label)), encodeReferenceUri sessionId⟩, []) := by
    unfold matchLink
    rw [if_pos hopen, htext]
    simp only [List.drop_succ_cons, List.drop_zero, scanLabel_escapeLabel, if_pos hscheme,
      List.takeWhile_append_of_pos (isTargetPoint_uri sessionId), List.dropWhile_append_of_pos (isTargetPoint_uri sessionId)]
    have hclose : isTargetPoint (.char ')') = false := by decide
    simp [hclose]
  rw [matchMention, hlink]
  rfl

/-- What a mention is parsed to: one reference, to what its URI is decoded to. -/
theorem parse_formatMention (sessionId : PyText) (label : Option PyText) : parseReferences (formatMention sessionId label) =
    (decodeReferenceUri (encodeReferenceUri sessionId)).map (fun found =>
      ⟨.char '@' :: shownLabel sessionId label, [⟨found, shownLabel sessionId label⟩]⟩) := by
  unfold parseReferences
  rw [pieces_of_match (matchMention_formatMention sessionId label), pieces]
  simp only [substitute, readReference, Option.map_some, Option.getD_some, unescapeLabel_escapeLabel]
  cases decodeReferenceUri (encodeReferenceUri sessionId) with
  | error e => rfl
  | ok found => simp [Except.map, Except.bind]

/-- A URI is the only spelling of its id, an id comes out of its URI unless it has the two halves of a character side by side, and a
mention is parsed to one reference, to its id and with the label that it shows. -/
theorem references_round_trip :
    (∀ sessionId, Whole sessionId → decodeReferenceUri (encodeReferenceUri sessionId) = .ok sessionId) ∧
    (∀ uri sessionId, decodeReferenceUri uri = .ok sessionId → encodeReferenceUri sessionId = uri) ∧
    ∀ sessionId label, Whole sessionId → parseReferences (formatMention sessionId label) =
      .ok ⟨.char '@' :: shownLabel sessionId label, [⟨sessionId, shownLabel sessionId label⟩]⟩ := by
  refine ⟨fun sessionId => (decode_encode_iff sessionId).mpr, fun uri sessionId => encode_of_decode, ?_⟩
  intro sessionId label hwhole
  rw [parse_formatMention, (decode_encode_iff sessionId).mpr hwhole]
  rfl

/-- The id `a]b`, and a label with brackets. -/
theorem references_round_trip_brackets :
    decodeReferenceUri (encodeReferenceUri (.ofString "a]b")) = .ok (.ofString "a]b") ∧
    parseReferences (formatMention (.ofString "a]b") (some (.ofString "[\\]"))) = .ok ⟨.ofString "@[\\]",
      [⟨.ofString "a]b", .ofString "[\\]"⟩]⟩ :=
  ⟨references_round_trip.1 _ (by decide), references_round_trip.2.2 _ _ (by decide)⟩

/-- The two halves of a character come back as the character, and an empty label is replaced by the id. -/
theorem not_references_round_trip :
    ¬ (∀ sessionId, decodeReferenceUri (encodeReferenceUri sessionId) = .ok sessionId) ∧
    ¬ ∀ sessionId label, ∃ text, parseReferences (formatMention sessionId (some label)) = .ok ⟨text, [⟨sessionId, label⟩]⟩ := by
  constructor
  · intro h
    exact absurd ((decode_encode_iff _).mp (h [.surrogate 0x3d, .surrogate 0x600])) (by decide)
  · intro h
    obtain ⟨text, hparsed⟩ := h (.ofString "chat-1") []
    rw [parse_formatMention, (decode_encode_iff _).mpr (by decide)] at hparsed
    simp only [Except.map, Except.ok.injEq, ParsedText.mk.injEq, List.cons.injEq, Reference.mk.injEq] at hparsed
    exact absurd hparsed.2.1.2 (by decide)

end SessionReferences

end Pydsh
