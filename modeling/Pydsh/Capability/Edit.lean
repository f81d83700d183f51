import Pydsh.Lib.Occurrence
import Pydsh.Python.Text
import Pydsh.Storage.JsonUnit

/-!
# Editing a file

`FileSystem.edit_text` of `capability/fs.py`. The text of the file is read with universal newlines, the string to replace is counted in
it, and the file is written anew as a whole. An edit without `replace_all` that succeeds changed an occurrence and nothing else, as long
as the file has no carriage returns, and the occurrence was the only one unless two of them overlap (`editText_named`).
-/

namespace Pydsh

/-- What `edit_text` raises. -/
inductive EditError where
  | value (message : String)
  | ambiguousEdit (message : String)
  | fileNotFound
  | unicodeDecode
  | os (stage : WriteFault)
  deriving DecidableEq

/-- The dict that `edit_text` returns. -/
structure EditResult where
  path : String
  replacements : Nat
  bytes : Nat
  deriving DecidableEq

/-- `Path.read_text(encoding="utf-8")`. -/
def readContent (file : FileSlot (List UInt8)) : Except EditError (List Char) :=
  match file.target with
  | none => .error .fileNotFound
  | some data =>
    match decodeStrict data with
    | none => .error .unicodeDecode
    | some text => .ok (universalNewlines text)

/-- What is written for an edit of a text in which the string occurs so often. -/
def edited (old new : List Char) (replaceAll : Bool) (content : List Char) : List Char :=
  if replaceAll then Occurrence.replaceAll old new content else Occurrence.replaceFirst old new content

/-- The refusal of a text in which the string occurs so often, if it is refused. -/
def refuseEdit (path : String) (replaceAll : Bool) (occurrences : Nat) : Option EditError :=
  if occurrences = 0 then some (.value s!"{path}: the text to replace was not found")
  else if 1 < occurrences ∧ !replaceAll then
    some (.ambiguousEdit (s!"{path}: the text to replace appears {occurrences} times; " ++
      "pass replace_all=True or give more surrounding context"))
  else none

/-- `edit_text`, of a path that was resolved. A text file is written with its line ends as they are. -/
def editText (path : String) (old new : List Char) (replaceAll : Bool) (fault : Option WriteFault) (file : FileSlot (List UInt8)) :
    Except EditError EditResult × FileSlot (List UInt8) :=
  if old = new then (.error (.value "edit_text was given identical old and new text"), file)
  else if old = [] then (.error (.value "edit_text needs a non-empty string to replace"), file)
  else
    match readContent file with
    | .error error => (.error error, file)
    | .ok content =>
      let occurrences := Occurrence.count old content
      match refuseEdit path replaceAll occurrences with
      | some error => (.error error, file)
      | none =>
        let updated := edited old new replaceAll content
        match writeFileAtomic fault file (encodeUtf8 updated) with
        | (.error stage, file) => (.error (.os stage), file)
        | (.ok _, file) => (.ok ⟨path, if replaceAll then occurrences else 1, (encodeUtf8 updated).length⟩, file)

/-- The edit without `replace_all` changes only what was named. A carriage return is byte 13. -/
structure EditsNamed (old new : List Char) (fault : Option WriteFault) (file : FileSlot (List UInt8))
    (outcome : Except EditError EditResult × FileSlot (List UInt8)) : Prop where
  refused_same : old = new → ∃ message, outcome.1 = .error (.value message)
  unchanged : ∀ error, outcome.1 = .error error → outcome.2.target = file.target
  found : old ≠ new → fault = none → ∀ text, readContent file = .ok text → Occurrence.Once old text → ∃ r, outcome.1 = .ok r
  sole : ∀ r, outcome.1 = .ok r →
    ∃ text, readContent file = .ok text ∧ (Occurrence.Apart old text → Occurrence.Once old text)
  frame : ∀ r, outcome.1 = .ok r → ∀ data, file.target = some data → 13 ∉ data →
    ∃ pre post, readContent file = .ok (pre ++ old ++ post) ∧ data = encodeUtf8 pre ++ encodeUtf8 old ++ encodeUtf8 post ∧
      outcome.2.target = some (encodeUtf8 pre ++ encodeUtf8 new ++ encodeUtf8 post)

/-! ## What an edit does -/

/-- An edit is refused and leaves the file, fails as it writes and leaves the file, or writes the edited text. -/
theorem editText_cases (path : String) (old new : List Char) (replaceAll : Bool) (fault : Option WriteFault)
    (file : FileSlot (List UInt8)) :
    (∃ error, editText path old new replaceAll fault file = (.error error, file) ∧
      ∀ content, readContent file = .ok content → old = new ∨ old = [] ∨
        ∃ error, refuseEdit path replaceAll (Occurrence.count old content) = some error) ∨
    ∃ content, old ≠ new ∧ old ≠ [] ∧ readContent file = .ok content ∧ refuseEdit path replaceAll (Occurrence.count old content) = none ∧
      ((∃ stage file', fault = some stage ∧ editText path old new replaceAll fault file = (.error (.os stage), file') ∧
          file'.target = file.target) ∨
        ∃ r, fault = none ∧ editText path old new replaceAll fault file =
          (.ok r, ⟨some (encodeUtf8 (edited old new replaceAll content)), none⟩)) := by
  unfold editText
  split
  · rename_i hsame
    exact Or.inl ⟨_, rfl, fun _ _ => Or.inl hsame⟩
  · rename_i hsame
    split
    · rename_i hempty
      exact Or.inl ⟨_, rfl, fun _ _ => Or.inr (Or.inl hempty)⟩
    · rename_i hempty
      cases hread : readContent file with
      | error error => exact Or.inl ⟨error, rfl, fun _ hcontent => by cases hcontent⟩
      | ok content =>
        dsimp only
        cases hrefuse : refuseEdit path replaceAll (Occurrence.count old content) with
        | some error =>
          refine Or.inl ⟨error, rfl, ?_⟩
          intro content' hcontent
          cases hcontent
          exact Or.inr (Or.inr ⟨error, hrefuse⟩)
        | none =>
          refine Or.inr ⟨content, hsame, hempty, rfl, hrefuse, ?_⟩
          rcases writeFileAtomic_spec fault file (encodeUtf8 (edited old new replaceAll content)) with
            ⟨hfault, hwrite⟩ | ⟨stage, hfault, hresult, htarget⟩
          · dsimp only
            rw [hwrite]
            exact Or.inr ⟨_, hfault, rfl⟩
          · dsimp only
            generalize writeFileAtomic fault file (encodeUtf8 (edited old new replaceAll content)) = written at hresult htarget
            obtain ⟨result, file'⟩ := written
            cases hresult
            exact Or.inl ⟨stage, file', hfault, rfl, htarget⟩

/-- Without `replace_all` the string is to be counted once. -/
theorem refuseEdit_eq_none_iff {path : String} {occurrences : Nat} : refuseEdit path false occurrences = none ↔ occurrences = 1 := by
  unfold refuseEdit
  split
  · rename_i hzero
    simp [hzero]
  · rename_i hzero
    split
    · rename_i hmany
      exact iff_of_false (by simp) (Nat.ne_of_gt hmany.1)
    · rename_i hfew
      refine iff_of_true rfl ?_
      simp only [Bool.not_false, and_true] at hfew
      omega

theorem readContent_eq {data : List UInt8} {file : FileSlot (List UInt8)} {content : List Char} (hdata : file.target = some data)
    (hplain : 13 ∉ data) (h : readContent file = .ok content) : data = encodeUtf8 content := by
  unfold readContent at h
  rw [hdata] at h
  dsimp only at h
  split at h
  · cases h
  · rename_i text hdecode
    have hencode := decodeStrict_eq_some_iff.mp hdecode
    have hnone : '\r' ∉ text := by
      intro hmem
      refine hplain ?_
      rw [hencode, encodeUtf8, List.mem_flatMap]
      exact ⟨'\r', hmem, by decide⟩
    rw [← Except.ok.inj h, universalNewlines_of_notMem hnone, hencode]

theorem edited_of_count_eq_one {old new content : List Char} (hold : old ≠ []) (h : Occurrence.count old content = 1) :
    ∃ pre post, content = pre ++ old ++ post ∧ edited old new false content = pre ++ new ++ post := by
  obtain ⟨parts, hsplit, -⟩ := (Occurrence.count_eq_one_iff hold).mp h
  exact ⟨parts.1, parts.2, (Occurrence.splitFirst_eq_some_iff.mp hsplit).occurs, Occurrence.replaceFirst_of_some hsplit⟩

/-- An edit changes only what was named. -/
theorem editText_named (path : String) {old : List Char} (hold : old ≠ []) (new : List Char) (fault : Option WriteFault)
    (file : FileSlot (List UInt8)) : EditsNamed old new fault file (editText path old new false fault file) := by
  have hidentical : old = new → ∃ message, (editText path old new false fault file).1 = .error (.value message) :=
    fun hsame => ⟨_, by rw [editText, if_pos hsame]⟩
  rcases editText_cases path old new false fault file with
    ⟨error, heq, hrefused⟩ | ⟨content, hsame, -, hread, hcount, ⟨stage, file', hfault, heq, htarget⟩ | ⟨r, -, heq⟩⟩
  · rw [heq] at hidentical ⊢
    refine ⟨hidentical, fun _ _ => rfl, ?_, fun r hok => (by cases hok), fun r hok => (by cases hok)⟩
    intro hdiffer _ text hread honce
    rcases hrefused text hread with hsame | hempty | ⟨refusal, hrefusal⟩
    · exact absurd hsame hdiffer
    · exact absurd hempty hold
    · rw [refuseEdit_eq_none_iff.mpr (Occurrence.count_of_once hold honce)] at hrefusal
      cases hrefusal
  · rw [heq] at hidentical ⊢
    refine ⟨hidentical, fun _ _ => htarget, ?_, fun r hok => (by cases hok), fun r hok => (by cases hok)⟩
    intro _ hnone
    cases hnone.symm.trans hfault
  · rw [heq] at hidentical ⊢
    replace hcount := refuseEdit_eq_none_iff.mp hcount
    refine ⟨hidentical, fun error herror => (by cases herror), fun _ _ _ _ _ => ⟨r, rfl⟩, ?_, ?_⟩
    · exact fun _ _ => ⟨content, hread, fun hapart => hapart.once hold hcount⟩
    · intro _ _ data hdata hplain
      obtain ⟨pre, post, hoccurs, hedited⟩ := @edited_of_count_eq_one old new content hold hcount
      have hencode := readContent_eq hdata hplain hread
      refine ⟨pre, post, hoccurs ▸ hread, ?_, ?_⟩
      · rw [hencode, hoccurs]
        simp only [encodeUtf8, List.flatMap_append]
      · rw [hedited]
        simp only [encodeUtf8, List.flatMap_append]

theorem readContent_encodeUtf8 (text : List Char) (temporary : Option (Option (List UInt8))) :
    readContent ⟨some (encodeUtf8 text), temporary⟩ = .ok (universalNewlines text) := by
  simp only [readContent, decodeStrict_encodeUtf8]

theorem editText_of_count_eq_one (path : String) {old new content : List Char} {file : FileSlot (List UInt8)} (hsame : old ≠ new)
    (hold : old ≠ []) (hread : readContent file = .ok content) (hcount : Occurrence.count old content = 1) :
    editText path old new false none file =
      (.ok ⟨path, 1, (encodeUtf8 (edited old new false content)).length⟩, ⟨some (encodeUtf8 (edited old new false content)), none⟩) := by
  have hrefuse : refuseEdit path false (Occurrence.count old content) = none := refuseEdit_eq_none_iff.mpr hcount
  simp only [editText, if_neg hsame, if_neg hold, hread, hrefuse, writeFileAtomic]
  rfl

theorem editText_named_end :
    EditsNamed ['b'] ['c', 'd'] none ⟨some (encodeUtf8 ['a', 'b']), none⟩
        (editText "/f.txt" ['b'] ['c', 'd'] false none ⟨some (encodeUtf8 ['a', 'b']), none⟩) ∧
      (editText "/f.txt" ['b'] ['c', 'd'] false none ⟨some (encodeUtf8 ['a', 'b']), none⟩).2.target =
        some (encodeUtf8 ['a', 'c', 'd']) := by
  refine ⟨editText_named "/f.txt" (by decide) ['c', 'd'] none _, ?_⟩
  have hcount : Occurrence.count ['b'] (universalNewlines ['a', 'b']) = 1 :=
    (Occurrence.count_eq_one_iff (by decide)).mpr ⟨(['a'], []), by decide, by decide⟩
  rw [editText_of_count_eq_one _ (by decide) (by decide) (readContent_encodeUtf8 _ _) hcount]
  decide

/-- Text that occurs once is not replaced by itself; of two occurrences that overlap the first is replaced; and the line ends before an
occurrence are written anew. -/
theorem not_editText_exactly :
    (Occurrence.Once ['a'] ['a'] ∧
      (editText "/f.txt" ['a'] ['a'] false none ⟨some (encodeUtf8 ['a']), none⟩).1 =
        .error (.value "edit_text was given identical old and new text")) ∧
    (¬Occurrence.Once ['a', 'a'] ['a', 'a', 'a'] ∧
      (editText "/f.txt" ['a', 'a'] ['b'] false none ⟨some (encodeUtf8 ['a', 'a', 'a']), none⟩).2.target =
        some (encodeUtf8 ['b', 'a'])) ∧
    (editText "/f.txt" ['b'] ['c'] false none ⟨some (encodeUtf8 ['a', '\r', '\n', 'b']), none⟩).2.target =
      some (encodeUtf8 ['a', '\n', 'c']) := by
  refine ⟨⟨⟨[], [], rfl, ?_⟩, rfl⟩, ⟨?_, ?_⟩, ?_⟩
  · intro pre' post' heq
    have hlength := congrArg List.length heq
    simp only [List.length_append, List.length_cons, List.length_nil] at hlength ⊢
    omega
  · rintro ⟨pre, post, -, honly⟩
    have hfirst := honly [] ['a'] rfl
    have hsecond := honly ['a'] [] rfl
    exact absurd (hfirst.trans hsecond.symm) (by decide)
  · have hcount : Occurrence.count ['a', 'a'] (universalNewlines ['a', 'a', 'a']) = 1 :=
      (Occurrence.count_eq_one_iff (by decide)).mpr ⟨([], ['a']), by decide, by decide⟩
    rw [editText_of_count_eq_one _ (by decide) (by decide) (readContent_encodeUtf8 _ _) hcount]
    decide
  · have hcount : Occurrence.count ['b'] (universalNewlines ['a', '\r', '\n', 'b']) = 1 :=
      (Occurrence.count_eq_one_iff (by decide)).mpr ⟨(['a', '\n'], []), by decide, by decide⟩
    rw [editText_of_count_eq_one _ (by decide) (by decide) (readContent_encodeUtf8 _ _) hcount]
    decide

end Pydsh
