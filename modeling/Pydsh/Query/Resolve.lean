import Pydsh.Query.Reference
import Pydsh.Tools.Shell

/-!
# Resolving the references of a message

`SessionReferences.resolve` (`query/reference.py`). A conversation that cannot be read is reported in its place, and the others are still
resolved; a match that is no reference leaves `parse_references` with an exception before any of them is. So each match of a text is
reported exactly if all are URIs of ids, and no more of them than a message may have (`reported_iff`).
-/

namespace Pydsh

open SessionReferences

/-- The service, with its limits. -/
structure SessionReferences where
  maxReferences : Int := 8
  maxBytes : Int := 8192

/-- What `_retain` returns. -/
structure RetainedReference where
  conversation : String
  notice : String

/-- An entry of the references that `resolve` returns: with `resolved` true, or with the reason why not. -/
inductive ResolvedReference where
  | found (reference : Reference) (retained : RetainedReference)
  | missing (reference : Reference) (reason : String)

/-- What `resolve` returns. -/
structure Resolution where
  text : PyText
  references : List ResolvedReference
  dropped : Nat

namespace SessionReferences

/-- `int(self.max_bytes * 0.75)` -/
def headShare (maxBytes : Int) : Int :=
  let share : Nat := toDouble (3 * toDouble maxBytes.natAbs) / 4
  if maxBytes < 0 then -share else share

/-- `read_surface`: the type and the text of each document, or the text of what it raises. -/
abbrev SurfaceReader : Type := PyText → Except String (List (String × String))

/-- `_retain` -/
def retain (service : SessionReferences) (readSurface : SurfaceReader) (sessionId : PyText) : Except String RetainedReference := do
  let documents ← readSurface sessionId
  let body := "\n".intercalate ((documents.filter (fun d => d.2 ≠ "")).map (fun d => s!"[{d.1}] {d.2}"))
  let retainer ← TextRetainer.headTail (headShare service.maxBytes) (max 1 (service.maxBytes / 4))
  let kept := (retainer.push (.str body)).1.finish
  return ⟨kept.text, formatRetentionNotice kept.omittedBytes "bytes" (fun omitted =>
    if omitted = .none then "" else "Open the session for the rest.")⟩

/-- What the loop of `resolve` puts in for a reference. -/
def resolveOne (service : SessionReferences) (readSurface : SurfaceReader) (reference : Reference) : ResolvedReference :=
  match service.retain readSurface reference.sessionId with
  | .ok retained => .found reference retained
  | .error reason => .missing reference reason

/-- `resolve` -/
def resolve (service : SessionReferences) (readSurface : SurfaceReader) (text : PyText) : Except SessionReferenceError Resolution := do
  let parsed ← parseReferences text
  let resolved := (sliceTo parsed.references service.maxReferences).map (service.resolveOne readSurface)
  return ⟨parsed.text, resolved, parsed.references.length - resolved.length⟩

/-- The matches of `_MENTION` in a text. -/
def matchesOf (text : PyText) : List ReferenceMatch := (pieces text).filterMap Sum.getRight?

/-- An entry reports a match: what was retained of its conversation, or that nothing was. A match that is no reference has no conversation. -/
def Reports (service : SessionReferences) (readSurface : SurfaceReader) (m : ReferenceMatch) : ResolvedReference → Prop
  | .found reference retained => readReference m = .ok reference ∧ service.retain readSurface reference.sessionId = .ok retained
  | .missing reference reason => ∀ reference', readReference m = .ok reference' →
      reference' = reference ∧ service.retain readSurface reference.sessionId = .error reason

/-- `resolve` returns, and each match of the text has its entry. -/
def Reported (service : SessionReferences) (readSurface : SurfaceReader) (text : PyText) : Prop :=
  ∃ resolution, service.resolve readSurface text = .ok resolution ∧
    List.Forall₂ (service.Reports readSurface) (matchesOf text) resolution.references

/-- The URI of a match is the URI of an id. -/
def ReferenceMatch.WellFormed (m : ReferenceMatch) : Prop := ∃ sessionId, Whole sessionId ∧ m.uri = encodeReferenceUri sessionId

theorem readReference_returns_iff (m : ReferenceMatch) : (readReference m).Returns ↔ m.WellFormed := by
  unfold readReference ReferenceMatch.WellFormed
  rw [Except.returns_map_iff]
  constructor
  · rintro ⟨sessionId, hread⟩
    have huri := encode_of_decode hread
    refine ⟨sessionId, ?_, huri.symm⟩
    rw [← decode_encode_iff, huri]
    exact hread
  · rintro ⟨sessionId, hwhole, huri⟩
    rw [huri]
    exact ⟨sessionId, (decode_encode_iff sessionId).mpr hwhole⟩

/-- The references of a text that is parsed are read from its matches, in order. -/
theorem references_of_substitute {ps : List (CodePoint ⊕ ReferenceMatch)} {parsed : ParsedText} (h : substitute ps = .ok parsed) :
    List.Forall₂ (fun m reference => readReference m = .ok reference) (ps.filterMap Sum.getRight?) parsed.references := by
  induction ps generalizing parsed with
  | nil =>
    cases h
    exact .nil
  | cons piece ps ih =>
    cases piece with
    | inl p =>
      obtain ⟨rest, hrest, rfl⟩ := Except.map_eq_ok_iff.mp h
      have hreferences := ih hrest
      exact hreferences
    | inr m =>
      obtain ⟨reference, hread, h⟩ := Except.bind_eq_ok_iff.mp h
      obtain ⟨rest, hrest, rfl⟩ := Except.map_eq_ok_iff.mp h
      exact .cons hread (ih hrest)

/-- A text is parsed exactly if each of its matches is a reference. -/
theorem substitute_returns_iff (ps : List (CodePoint ⊕ ReferenceMatch)) :
    (substitute ps).Returns ↔ ∀ m ∈ ps.filterMap Sum.getRight?, (readReference m).Returns := by
  induction ps with
  | nil => exact iff_of_true (Except.returns_ok _) (fun m hm => absurd hm List.not_mem_nil)
  | cons piece ps ih =>
    cases piece with
    | inl p => exact Except.returns_map_iff.trans ih
    | inr m =>
      have hmatches : (Sum.inr m :: ps).filterMap Sum.getRight? = m :: ps.filterMap Sum.getRight? := rfl
      rw [hmatches, List.forall_mem_cons, ← ih]
      constructor
      · rintro ⟨parsed, h⟩
        obtain ⟨reference, hread, h⟩ := Except.bind_eq_ok_iff.mp h
        obtain ⟨rest, hrest, -⟩ := Except.map_eq_ok_iff.mp h
        exact ⟨⟨reference, hread⟩, ⟨rest, hrest⟩⟩
      · rintro ⟨⟨reference, hread⟩, ⟨rest, hrest⟩⟩
        refine ⟨⟨.char '@' :: (reference.label ++ rest.text), reference :: rest.references⟩, ?_⟩
        rw [substitute, hread, hrest]
        rfl

/-- A prefix that a slice takes is the whole list exactly if the list is empty or no longer than the limit. -/
theorem length_sliceTo_eq_iff {α : Type} (xs : List α) (stop : Int) :
    (sliceTo xs stop).length = xs.length ↔ xs = [] ∨ (xs.length : Int) ≤ stop := by
  unfold sliceTo
  rw [List.length_take, ← List.length_eq_zero_iff]
  split <;> omega

theorem reports_resolveOne (service : SessionReferences) (readSurface : SurfaceReader) {m : ReferenceMatch} {reference : Reference}
    (hread : readReference m = .ok reference) : service.Reports readSurface m (service.resolveOne readSurface reference) := by
  unfold resolveOne
  cases hretain : service.retain readSurface reference.sessionId with
  | ok retained => exact ⟨hread, hretain⟩
  | error reason =>
    intro reference' hread'
    obtain rfl := Except.ok.inj (hread.symm.trans hread')
    exact ⟨rfl, hretain⟩

/-- Each match of a text is reported exactly if all are URIs of ids, and there are no more than the service takes of a message. -/
theorem reported_iff (service : SessionReferences) (readSurface : SurfaceReader) (text : PyText) :
    service.Reported readSurface text ↔
      (∀ m ∈ matchesOf text, m.WellFormed) ∧ (matchesOf text = [] ∨ ((matchesOf text).length : Int) ≤ service.maxReferences) := by
  have hparse : (parseReferences text).Returns ↔ ∀ m ∈ matchesOf text, m.WellFormed := by
    simp only [← readReference_returns_iff]
    exact substitute_returns_iff (pieces text)
  have hresolve : ∀ parsed, parseReferences text = .ok parsed → service.resolve readSurface text = .ok ⟨parsed.text,
      (sliceTo parsed.references service.maxReferences).map (service.resolveOne readSurface), parsed.references.length -
        ((sliceTo parsed.references service.maxReferences).map (service.resolveOne readSurface)).length⟩ := by
    intro parsed hparsed
    unfold resolve
    rw [hparsed]
    rfl
  constructor
  · rintro ⟨resolution, hresolution, hreports⟩
    obtain ⟨parsed, hparsed, -⟩ := Except.bind_eq_ok_iff.mp hresolution
    refine ⟨hparse.mp ⟨parsed, hparsed⟩, ?_⟩
    rw [hresolve parsed hparsed] at hresolution
    obtain rfl := Except.ok.inj hresolution
    have hentries := hreports.length_eq
    have hread := (references_of_substitute hparsed).length_eq
    rw [List.length_map] at hentries
    have hslice : (sliceTo parsed.references service.maxReferences).length = parsed.references.length := hentries.symm.trans hread
    rcases (length_sliceTo_eq_iff parsed.references service.maxReferences).mp hslice with hnone | hle
    · rw [hnone] at hread
      exact Or.inl (List.eq_nil_of_length_eq_zero hread)
    · rw [← hread] at hle
      exact Or.inr hle
  · rintro ⟨hwell, hfits⟩
    obtain ⟨parsed, hparsed⟩ := hparse.mpr hwell
    refine ⟨_, hresolve parsed hparsed, ?_⟩
    have hread := references_of_substitute hparsed
    have hall : sliceTo parsed.references service.maxReferences = parsed.references := by
      have hlength := hread.length_eq
      refine (List.take_prefix _ _).eq_of_length ((length_sliceTo_eq_iff parsed.references service.maxReferences).mpr ?_)
      rcases hfits with hnone | hle
      · have hzero : (matchesOf text).length = parsed.references.length := hlength
        rw [hnone] at hzero
        exact Or.inl (List.eq_nil_of_length_eq_zero hzero.symm)
      · rw [← hlength]
        exact Or.inr hle
    simp only [hall]
    rw [List.forall₂_map_right_iff]
    exact hread.imp (fun _ _ h => service.reports_resolveOne readSurface h)

/-- A payload of one digit is no base64: `resolve` raises. -/
theorem not_reported_malformed : matchesOf (.ofString "dsh-session:a") = [⟨none, .ofString "dsh-session:a"⟩] ∧
    (∃ e, ({} : SessionReferences).resolve (fun _ => .ok []) (.ofString "dsh-session:a") = .error e) ∧
    ¬ ({} : SessionReferences).Reported (fun _ => .ok []) (.ofString "dsh-session:a") := by
  have hmatch : matchMention (.ofString "dsh-session:a") = some (⟨none, .ofString "dsh-session:a"⟩, []) := by
    decide +kernel
  have hpieces : pieces (.ofString "dsh-session:a") = [.inr ⟨none, .ofString "dsh-session:a"⟩] := by
    rw [pieces_of_match hmatch, pieces]
  have hdecode : decodeReferenceUri (.ofString "dsh-session:a") = .error (.unreadable (.ofString "dsh-session:a")) := by
    decide +kernel
  have hresolve : ({} : SessionReferences).resolve (fun _ => .ok []) (.ofString "dsh-session:a") =
      .error (.unreadable (.ofString "dsh-session:a")) := by
    unfold resolve parseReferences
    rw [hpieces, substitute, readReference, hdecode]
    rfl
  refine ⟨by rw [matchesOf, hpieces]; rfl, ⟨_, hresolve⟩, ?_⟩
  rintro ⟨resolution, hresolution, -⟩
  rw [hresolve] at hresolution
  cases hresolution

end SessionReferences

end Pydsh
