import Mathlib.Data.List.TakeWhile
import Pydsh.Lib.Occurrence
import Pydsh.Lib.Result
import Pydsh.Python.Value

/-!
# Variables in a prompt

`prompt/interpolate.py`. A text is read from the left: a group opens at the first two braces that have two closing ones somewhere behind
them, and ends at the first of these (`Reads`). The scanner looks for a group that has no brace inside, and raises where there is another;
both come to the same, since a name with a brace is not legal (`interpolate_reads`).
-/

namespace Pydsh

open Occurrence

def openingBraces : List Char := ['\x7b', '\x7b']

def closingBraces : List Char := ['\x7d', '\x7d']

/-- `VARIABLE_NAME.fullmatch` -/
def isVariableName : List Char → Bool
  | [] => false
  | c :: rest => c.isLower && rest.all (fun c => c.isLower || c.isDigit || c == '_')

/-- Why `interpolate` raises `PromptVariableError`, in the text of which section or context. -/
inductive PromptVariableError where
  /-- A reference that is no complete group, with what it begins with. -/
  | malformed (kind name : String) (excerpt : List Char)
  | illegal (kind name : String) (reference : List Char)
  | unknown (kind name : String) (reference : List Char) (registered : List String)
  | noValue (kind name : String) (reference : List Char)

def notBrace (c : Char) : Bool := c != '\x7b' && c != '\x7d'

/-- `_REFERENCE.match` behind two opening braces: the name in the group, and what follows the group. -/
def matchReference (rest : List Char) : Option (List Char × List Char) :=
  let after := rest.dropWhile notBrace
  if closingBraces <+: after then some (rest.takeWhile notBrace, after.drop closingBraces.length) else none

theorem eq_of_matchReference {rest inner after : List Char} (h : matchReference rest = some (inner, after)) :
    rest = inner ++ closingBraces ++ after ∧ ∀ c ∈ inner, notBrace c = true := by
  unfold matchReference at h
  dsimp only at h
  split at h
  · rename_i hclosing
    cases h
    obtain ⟨post, hpost⟩ := hclosing
    refine ⟨?_, fun c hc => List.mem_takeWhile_imp hc⟩
    rw [← hpost, List.drop_left, List.append_assoc, hpost, List.takeWhile_append_dropWhile]
  · cases h

/-- The loop of `interpolate`, on what is left of the text. -/
def interpolateFrom (kind name : String) (vars : List (String × Option String)) (rest : List Char) :
    Except PromptVariableError (List Char) :=
  match _hopen : splitFirst openingBraces rest with
  | none => .ok rest
  | some (before, behind) =>
    match _hreference : matchReference behind with
    | none =>
      if (splitFirst closingBraces behind).isSome then .error (.malformed kind name ((openingBraces ++ behind).take 16))
      else (interpolateFrom kind name vars behind).map (fun more => before ++ openingBraces ++ more)
    | some (reference, after) =>
      if isVariableName reference then
        match field? vars (String.ofList reference) with
        | none => .error (.unknown kind name reference ((vars.map (·.1)).mergeSort (fun a b => a ≤ b)))
        | some none => .error (.noValue kind name reference)
        | some (some value) => (interpolateFrom kind name vars after).map (fun more => before ++ value.toList ++ more)
      else .error (.illegal kind name reference)
termination_by rest.length
decreasing_by
  · have := length_of_splitFirst _hopen
    simp only [openingBraces, List.length_cons, List.length_nil] at this
    omega
  · have := length_of_splitFirst _hopen
    have := congrArg List.length (eq_of_matchReference _hreference).1
    simp only [openingBraces, closingBraces, List.length_append, List.length_cons, List.length_nil] at *
    omega

theorem interpolateFrom_none (kind name : String) (vars : List (String × Option String)) {rest : List Char}
    (hopen : splitFirst openingBraces rest = none) : interpolateFrom kind name vars rest = .ok rest := by
  rw [interpolateFrom]
  split
  · rfl
  · rename_i hsome
    rw [hopen] at hsome
    cases hsome

theorem interpolateFrom_unmatched (kind name : String) (vars : List (String × Option String)) {rest before behind : List Char}
    (hopen : splitFirst openingBraces rest = some (before, behind)) (hreference : matchReference behind = none) :
    interpolateFrom kind name vars rest =
      if (splitFirst closingBraces behind).isSome then .error (.malformed kind name ((openingBraces ++ behind).take 16))
      else (interpolateFrom kind name vars behind).map (fun more => before ++ openingBraces ++ more) := by
  rw [interpolateFrom]
  split
  · rename_i hnone
    rw [hopen] at hnone
    cases hnone
  · rename_i hsome
    rw [hopen] at hsome
    cases hsome
    split
    · rfl
    · rename_i hsome
      rw [hreference] at hsome
      cases hsome

theorem interpolateFrom_matched (kind name : String) (vars : List (String × Option String))
    {rest before behind reference after : List Char} (hopen : splitFirst openingBraces rest = some (before, behind))
    (hreference : matchReference behind = some (reference, after)) :
    interpolateFrom kind name vars rest =
      if isVariableName reference then
        match field? vars (String.ofList reference) with
        | none => .error (.unknown kind name reference ((vars.map (·.1)).mergeSort (fun a b => a ≤ b)))
        | some none => .error (.noValue kind name reference)
        | some (some value) => (interpolateFrom kind name vars after).map (fun more => before ++ value.toList ++ more)
      else .error (.illegal kind name reference) := by
  rw [interpolateFrom]
  split
  · rename_i hnone
    rw [hopen] at hnone
    cases hnone
  · rename_i hsome
    rw [hopen] at hsome
    cases hsome
    split
    · rename_i hnone
      rw [hreference] at hnone
      cases hnone
    · rename_i hsome
      rw [hreference] at hsome
      cases hsome
      rfl

/-- `interpolate`. -/
def interpolate (name text : String) (vars : List (String × Option String)) (kind : String := "section") :
    Except PromptVariableError String :=
  (interpolateFrom kind name vars text.toList).map String.ofList

/-! ## The groups of a text -/

/-- A piece of a text: literal text, or what stands between two opening and two closing braces. -/
inductive Piece where
  | text (chars : List Char)
  | group (chars : List Char)
  deriving DecidableEq

/-- The text consists of the pieces. Braces open a group only if they are closed later. -/
inductive Reads : List Char → List Piece → Prop where
  | literal {text : List Char} : (∀ pre post, text = pre ++ openingBraces ++ post → ∀ a b, post ≠ a ++ closingBraces ++ b) →
      Reads text [.text text]
  | group {text pre post inner after : List Char} {pieces : List Piece} :
      First openingBraces pre post text → First closingBraces inner after post →
      Reads after pieces → Reads text (.text pre :: .group inner :: pieces)

theorem Reads.unique {text : List Char} {pieces pieces' : List Piece} (h : Reads text pieces) (h' : Reads text pieces') :
    pieces = pieces' := by
  induction h generalizing pieces' with
  | literal hnone =>
    cases h' with
    | literal => rfl
    | group hopen hclose _ => exact absurd hclose.occurs (hnone _ _ hopen.occurs _ _)
  | group hopen hclose _ ih =>
    cases h' with
    | literal hnone => exact absurd hclose.occurs (hnone _ _ hopen.occurs _ _)
    | group hopen' hclose' hreads' =>
      obtain ⟨rfl, rfl⟩ := hopen.unique hopen'
      obtain ⟨rfl, rfl⟩ := hclose.unique hclose'
      rw [ih hreads']

/-- The name in a group is legal, known and has a value. -/
def Resolves (vars : List (String × Option String)) (name : List Char) : Prop :=
  isVariableName name = true ∧ ∃ value, field? vars (String.ofList name) = some (some value)

/-- The pieces with the values in the places of the groups. -/
def fill (vars : List (String × Option String)) : List Piece → List Char
  | [] => []
  | .text chars :: pieces => chars ++ fill vars pieces
  | .group name :: pieces => ((field? vars (String.ofList name)).join.getD "").toList ++ fill vars pieces

theorem notBrace_of_isVariableName {name : List Char} (h : isVariableName name = true) : ∀ c ∈ name, notBrace c = true := by
  have hplain : ∀ c : Char, (c.isLower || c.isDigit || c == '_') = true → notBrace c = true := by
    intro c hc
    simp only [notBrace, Bool.and_eq_true, bne_iff_ne]
    constructor
    · rintro rfl
      revert hc
      decide
    · rintro rfl
      revert hc
      decide
  cases name with
  | nil => exact fun c hc => absurd hc List.not_mem_nil
  | cons first rest =>
    obtain ⟨hfirst, hrest⟩ := (Bool.and_eq_true _ _).mp h
    intro c hc
    rcases List.mem_cons.mp hc with rfl | hc
    · exact hplain c (by rw [hfirst]; rfl)
    · exact hplain c (List.all_eq_true.mp hrest c hc)

/-- A name that stands between braces is matched unless it is illegal. -/
theorem isVariableName_of_unmatched {post inner after : List Char} (h : matchReference post = none)
    (hclose : post = inner ++ closingBraces ++ after) : isVariableName inner = false := by
  rw [← Bool.not_eq_true]
  intro hlegal
  have hinner := notBrace_of_isVariableName hlegal
  have hdrop : post.dropWhile notBrace = closingBraces ++ after := by
    rw [hclose, List.append_assoc, List.dropWhile_append_of_pos hinner]
    rfl
  unfold matchReference at h
  dsimp only at h
  rw [hdrop, if_pos (List.prefix_append _ _)] at h
  cases h

/-- What a reference matches ends at the first two closing braces. -/
theorem first_of_matchReference {post inner after : List Char} (h : matchReference post = some (inner, after)) :
    First closingBraces inner after post := by
  obtain ⟨hoccurs, hinner⟩ := eq_of_matchReference h
  refine ⟨hoccurs, ?_⟩
  intro pre' post' hother
  by_contra hshort
  rw [Nat.not_le] at hshort
  -- the brace of an earlier occurrence would stand in the name
  have hbrace : post[pre'.length]? = some '\x7d' := by
    rw [hother, List.append_assoc, List.getElem?_append_right (Nat.le_refl _), Nat.sub_self]
    rfl
  rw [hoccurs, List.append_assoc, List.getElem?_append_left hshort] at hbrace
  exact absurd (hinner _ (List.mem_of_getElem? hbrace)) (by decide)

/-- Nothing is read of a text whose first opening braces are never closed. -/
theorem reads_unclosed {text before behind : List Char} (hopen : First openingBraces before behind text)
    (hclose : ∀ a b, behind ≠ a ++ closingBraces ++ b) : Reads text [.text text] ∧ Reads behind [.text behind] := by
  constructor
  · refine .literal ?_
    intro pre post heq a b hpost
    -- later opening braces have less behind them
    have hle : post.length ≤ behind.length := by
      have hlengths := congrArg List.length (hopen.occurs.symm.trans heq)
      have hpre := hopen.first pre post heq
      simp only [List.length_append] at hlengths
      omega
    obtain ⟨skipped, hskipped⟩ : post <:+ behind :=
      List.suffix_of_suffix_length_le ⟨pre ++ openingBraces, heq.symm⟩ ⟨before ++ openingBraces, hopen.occurs.symm⟩ hle
    exact hclose (skipped ++ a) b (by rw [← hskipped, hpost]; simp)
  · refine .literal ?_
    intro pre post heq a b hpost
    exact hclose (pre ++ openingBraces ++ a) b (by rw [heq, hpost]; simp)

/-- What the scanner makes of a text goes by the groups among some pieces. -/
def GoesBy (kind name : String) (vars : List (String × Option String)) (text : List Char) (pieces : List Piece) : Prop :=
  ((∃ out, interpolateFrom kind name vars text = .ok out) ↔ ∀ reference, .group reference ∈ pieces → Resolves vars reference) ∧
    ∀ out, interpolateFrom kind name vars text = .ok out → out = fill vars pieces

theorem goesBy_literal {kind name : String} {vars : List (String × Option String)} {text : List Char}
    (h : interpolateFrom kind name vars text = .ok text) : GoesBy kind name vars text [.text text] := by
  refine ⟨iff_of_true ⟨text, h⟩ (by simp), ?_⟩
  intro out hout
  cases h.symm.trans hout
  exact (List.append_nil text).symm

/-- A text whose opening braces are never closed stays as it is if what is behind them does. -/
theorem interpolateFrom_unclosed {kind name : String} {vars : List (String × Option String)} {text before behind : List Char}
    (hopen : splitFirst openingBraces text = some (before, behind)) (hclose : splitFirst closingBraces behind = none)
    (hrest : interpolateFrom kind name vars behind = .ok behind) : interpolateFrom kind name vars text = .ok text := by
  have hreference : matchReference behind = none := by
    cases hmatch : matchReference behind with
    | none => rfl
    | some matched =>
      have hcut : matchReference behind = some (matched.1, matched.2) := hmatch
      exact absurd (eq_of_matchReference hcut).1 (splitFirst_eq_none hclose _ _)
  rw [interpolateFrom_unmatched kind name vars hopen hreference, hclose, hrest]
  exact congrArg Except.ok (splitFirst_eq_some_iff.mp hopen).occurs.symm

/-- A text with a group goes by it and by the pieces of what follows. -/
theorem goesBy_group {kind name : String} {vars : List (String × Option String)} {text before behind inner after : List Char}
    {pieces : List Piece} (hopen : splitFirst openingBraces text = some (before, behind))
    (hclose : splitFirst closingBraces behind = some (inner, after)) (h : GoesBy kind name vars after pieces) :
    GoesBy kind name vars text (.text before :: .group inner :: pieces) := by
  obtain ⟨hiff, hfill⟩ := h
  have hfirst : First closingBraces inner after behind := splitFirst_eq_some_iff.mp hclose
  have hgroups : (∀ reference, .group reference ∈ Piece.text before :: .group inner :: pieces → Resolves vars reference) ↔
      Resolves vars inner ∧ ∀ reference, .group reference ∈ pieces → Resolves vars reference := by
    simp
  unfold GoesBy
  rw [hgroups]
  cases hreference : matchReference behind with
  | none =>
    have hillegal := isVariableName_of_unmatched hreference hfirst.occurs
    rw [interpolateFrom_unmatched kind name vars hopen hreference, hclose]
    simp [Resolves, hillegal]
  | some matched =>
    obtain ⟨inner', after'⟩ := matched
    obtain ⟨rfl, rfl⟩ := (first_of_matchReference hreference).unique hfirst
    rw [interpolateFrom_matched kind name vars hopen hreference]
    by_cases hlegal : isVariableName inner' = true
    · rw [if_pos hlegal]
      cases hvalue : field? vars (String.ofList inner') with
      | none => simp [Resolves, hvalue]
      | some found =>
        cases found with
        | none => simp [Resolves, hvalue]
        | some value =>
          have hresolves : Resolves vars inner' := ⟨hlegal, value, hvalue⟩
          simp only [hresolves, true_and]
          constructor
          · rw [← hiff]
            constructor
            · rintro ⟨out, hout⟩
              obtain ⟨more, hmore, -⟩ := Except.map_eq_ok_iff.mp hout
              exact ⟨more, hmore⟩
            · rintro ⟨more, hmore⟩
              exact ⟨_, by rw [hmore]; rfl⟩
          · intro out hout
            obtain ⟨more, hmore, rfl⟩ := Except.map_eq_ok_iff.mp hout
            rw [hfill more hmore, fill, fill, hvalue, List.append_assoc]
            rfl
    · simp [hlegal, Resolves]

/-- A text is read in some way, and what the scanner makes of it goes by its groups. -/
theorem interpolateFrom_reads (kind name : String) (vars : List (String × Option String)) (text : List Char) :
    ∃ pieces, Reads text pieces ∧ GoesBy kind name vars text pieces := by
  induction hlength : text.length using Nat.strong_induction_on generalizing text with
  | _ n ih =>
    cases hopen : splitFirst openingBraces text with
    | none =>
      have hnone := splitFirst_eq_none hopen
      exact ⟨[.text text], .literal (fun pre post heq => absurd heq (hnone pre post)),
        goesBy_literal (interpolateFrom_none kind name vars hopen)⟩
    | some parts =>
      obtain ⟨before, behind⟩ := parts
      have hfirst : First openingBraces before behind text := splitFirst_eq_some_iff.mp hopen
      have hshorter : behind.length < n := by
        have hlengths := length_of_splitFirst hopen
        simp only [openingBraces, List.length_cons, List.length_nil] at hlengths
        omega
      cases hclose : splitFirst closingBraces behind with
      | none =>
        -- what is behind the braces has no group either, and so comes back as it is
        obtain ⟨hreads, hrest⟩ := reads_unclosed hfirst (splitFirst_eq_none hclose)
        obtain ⟨pieces, hreads', hiff, hfill⟩ := ih behind.length hshorter behind rfl
        obtain rfl := hreads'.unique hrest
        obtain ⟨out, hout⟩ := hiff.mpr (by simp)
        have hsame : out = behind := by simpa [fill] using hfill out hout
        exact ⟨[.text text], hreads, goesBy_literal (interpolateFrom_unclosed hopen hclose (hsame ▸ hout))⟩
      | some parts =>
        obtain ⟨inner, after⟩ := parts
        have hshorter' : after.length < n := by
          have hlengths := length_of_splitFirst hclose
          omega
        obtain ⟨pieces, hreads, hgoes⟩ := ih after.length hshorter' after rfl
        exact ⟨_, .group hfirst (splitFirst_eq_some_iff.mp hclose) hreads, goesBy_group hopen hclose hgoes⟩

/-- A text is read in one way, whatever it holds. It is interpolated if and only if the name in each of its groups is legal, known and has a
value, to the text with the values in the places of the groups. -/
theorem interpolate_reads (name text : String) (vars : List (String × Option String)) (kind : String) :
    ∃ pieces, Reads text.toList pieces ∧ (∀ pieces', Reads text.toList pieces' → pieces' = pieces) ∧
      ((∃ out, interpolate name text vars kind = .ok out) ↔ ∀ reference, .group reference ∈ pieces → Resolves vars reference) ∧
      ∀ out, interpolate name text vars kind = .ok out → out.toList = fill vars pieces := by
  obtain ⟨pieces, hreads, hiff, hfill⟩ := interpolateFrom_reads kind name vars text.toList
  refine ⟨pieces, hreads, fun pieces' hreads' => hreads'.unique hreads, ?_, ?_⟩
  · rw [← hiff]
    constructor
    · rintro ⟨out, hout⟩
      obtain ⟨chars, hchars, -⟩ := Except.map_eq_ok_iff.mp hout
      exact ⟨chars, hchars⟩
    · rintro ⟨chars, hchars⟩
      exact ⟨_, Except.map_eq_ok_iff.mpr ⟨chars, hchars, rfl⟩⟩
  · intro out hout
    obtain ⟨chars, hchars, rfl⟩ := Except.map_eq_ok_iff.mp hout
    rw [String.toList_ofList, hfill chars hchars]

end Pydsh
