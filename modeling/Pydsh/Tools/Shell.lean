import Pydsh.Bounded.Retention
import Pydsh.Python.Double

/-!
# What `bash` returns

`tools/shell_tools.py`. Each stream of a command is trimmed to one budget, of which the head has three quarters and the tail the rest;
what was dropped is said in a notice at the end. The notice is about the standard output: what is dropped of the standard error is
computed and thrown away, so a result is honest about both streams exactly where the standard error fits (`rendered_honest_iff`).
-/

namespace Pydsh

/-! ## Notices -/

/-- `describe_omitted`. -/
def describeOmitted (omitted : Omitted) (unit : String) : String :=
  match omitted with
  | .none => ""
  | .exact count => s!"Omitted {count} {unit}."

/-- `format_retention_notice`. -/
def formatRetentionNotice (omitted : Omitted) (unit : String) (recovery : Omitted → String) : String :=
  " ".intercalate ([describeOmitted omitted unit, recovery omitted].filter (fun part => part ≠ ""))

theorem formatRetentionNotice_none (unit : String) {recovery : Omitted → String} (h : recovery .none = "") :
    formatRetentionNotice .none unit recovery = "" := by
  simp [formatRetentionNotice, describeOmitted, h]

theorem formatRetentionNotice_exact_ne (count : Nat) (unit : String) (recovery : Omitted → String) :
    formatRetentionNotice (.exact count) unit recovery ≠ "" := by
  have hsome : describeOmitted (.exact count) unit ≠ "" := by
    simp [describeOmitted]
  unfold formatRetentionNotice
  rw [List.filter_cons_of_pos (by simpa using hsome)]
  simp only [List.filter_cons, List.filter_nil]
  split
  · rw [String.intercalate_cons_cons, String.intercalate_singleton]
    simp [hsome]
  · rwa [String.intercalate_singleton]

/-! ## One stream -/

/-- `max(1, int(max_bytes * HEAD_SHARE))`, where `HEAD_SHARE` is 0.75. -/
def headBytes (maxBytes : Nat) : Nat := max 1 (toDouble (3 * toDouble maxBytes) / 4)

/-- `_bounded`: the text trimmed to a budget, and what went. -/
def bounded (text : String) (maxBytes : Nat) : Except String (String × Omitted) :=
  if (encodeUtf8 text.toList).length ≤ maxBytes then .ok (text, .none)
  else do
    let retainer ← TextRetainer.headTail (headBytes maxBytes) (max 1 (maxBytes - headBytes maxBytes) : Nat)
    let result := (retainer.push (.str text)).1.finish
    return (result.text, result.omittedBytes)

theorem headBytes_lt {maxBytes : Nat} (h : 2 ≤ maxBytes) : headBytes maxBytes < maxBytes := by
  have hfloat := toDouble_le maxBytes
  have hproduct := toDouble_le (3 * toDouble maxBytes)
  unfold headBytes
  omega

/-- What is shown of a text: a begin and an end of it, with the middle left out. -/
def KeptEnds (text shown : String) : Prop :=
  ∃ before middle after, text.toList = before ++ middle ++ after ∧ shown.toList = before ++ after

theorem KeptEnds.refl (text : String) : KeptEnds text text := ⟨text.toList, [], [], by simp, by simp⟩

/-- A begin and an end that are together no longer than a text leave its middle out. -/
theorem exists_middle {text before after : List Char} (hbefore : before <+: text) (hafter : after <:+ text)
    (hfits : (encodeUtf8 (before ++ after)).length ≤ (encodeUtf8 text).length) : ∃ middle, text = before ++ middle ++ after := by
  obtain ⟨rest, rfl⟩ := hbefore
  rcases List.suffix_or_suffix_of_suffix hafter (List.suffix_append before rest) with ⟨middle, rfl⟩ | ⟨shared, rfl⟩
  · exact ⟨middle, (List.append_assoc before middle after).symm⟩
  · -- nothing of the begin is shown a second time
    have hshared : shared = [] := by
      cases shared with
      | nil => rfl
      | cons c shared =>
        have hpos := utf8.length_encode_pos c
        simp only [encodeUtf8_eq, SelfSync.encodeAll_append, SelfSync.encodeAll_cons, List.cons_append, List.length_append] at hfits
        omega
    subst hshared
    exact ⟨[], by rw [List.append_nil, List.nil_append]⟩

/-- A budget of two bytes or more is kept, and what a text loses to it is counted. -/
theorem bounded_spec (text : String) {maxBytes : Nat} (h : 2 ≤ maxBytes) :
    ∃ shown omitted, bounded text maxBytes = .ok (shown, omitted) ∧ KeptEnds text shown ∧ (encodeUtf8 shown.toList).length ≤ maxBytes ∧
      omitted.count + (encodeUtf8 shown.toList).length = (encodeUtf8 text.toList).length ∧
      (omitted = if omitted.count = 0 then .none else .exact omitted.count) := by
  unfold bounded
  split
  · rename_i hfits
    exact ⟨text, .none, rfl, .refl text, hfits, Nat.zero_add _, rfl⟩
  · rename_i hover
    have hhead := headBytes_lt h
    have htail : max 1 (maxBytes - headBytes maxBytes) = maxBytes - headBytes maxBytes := by omega
    obtain ⟨hholds, hheadCap, htailCap⟩ :=
      (TextRetainer.holds_new (headBytes maxBytes) (max 1 (maxBytes - headBytes maxBytes))).push (.str text)
    rw [TextRetainer.headTail, TextRetainer.new_ok]
    simp only [bind, Except.bind, pure, Except.pure]
    generalize (TextRetainer.push _ (.str text)).1 = retainer at hholds hheadCap htailCap
    rw [List.nil_append] at hholds
    have hbudget : retainer.headCap + retainer.tailCap = maxBytes := by
      rw [hheadCap, htailCap, htail]
      dsimp only
      omega
    obtain ⟨before, after, hprefix, hsuffix, htext, hcount⟩ := @TextRetainer.Holds.shows_cut retainer text.toList hholds (by
      rw [hbudget]
      exact Nat.lt_of_not_le hover)
    have hshown : (encodeUtf8 retainer.finish.text.toList).length ≤ maxBytes := by
      have hfits := hprefix.fits
      have hfits' := hsuffix.fits
      rw [htext, String.toList_ofList, encodeUtf8_eq, SelfSync.encodeAll_append, List.length_append]
      omega
    refine ⟨_, _, rfl, ?_, hshown, ?_, ?_⟩
    · obtain ⟨middle, hmiddle⟩ := exists_middle hprefix.isPrefix hsuffix.isSuffix (by omega)
      exact ⟨before, middle, after, hmiddle, by rw [htext, String.toList_ofList]⟩
    · rw [htext, String.toList_ofList]
      exact hcount
    · rw [htext, String.toList_ofList] at hshown
      rw [if_neg (by omega)]
      generalize retainer.finish.omittedBytes = omitted at hcount
      cases omitted with
      | none =>
        have hzero : Omitted.none.count = 0 := rfl
        omega
      | exact count => rfl

/-! ## A result -/

/-- What the shell reports of a command. -/
structure ShellResult where
  stdout : String
  stderr : String
  exitCode : Int
  timedOut : Bool

/-- How the command ended. A timeout is told from a code other than zero. -/
def ShellResult.status (result : ShellResult) : String :=
  if result.timedOut then "[the command timed out and was stopped]" else s!"[exit code {result.exitCode}]"

/-- The pieces of a result. -/
structure Rendering where
  stdout : String
  stderr : Option String
  status : String
  notice : String

/-- The lines after the status. -/
def Rendering.notices (p : Rendering) : List String := if p.notice = "" then [] else [p.notice]

/-- `parts`. -/
def Rendering.parts (p : Rendering) : List String :=
  (if p.stdout = "" then [] else [p.stdout]) ++ (p.stderr.map (fun stderr => "[stderr]\n" ++ stderr)).toList ++ [p.status] ++ p.notices

def dropRecovery (omitted : Omitted) : String := if omitted ≠ .none then "The middle of the output was dropped." else ""

namespace BashTool

/-- The standard error of a result, trimmed, if there is any. What it loses is not looked at. -/
def shownStderr (maxOutput : Nat) (result : ShellResult) : Except String (Option String) :=
  if result.stderr = "" then .ok none else (bounded result.stderr maxOutput).map (fun shown => some shown.1)

/-- The pieces that `_render` puts together. -/
def rendered (maxOutput : Nat) (result : ShellResult) : Except String Rendering := do
  let (stdout, stdoutOmitted) ← bounded result.stdout maxOutput
  let stderr ← shownStderr maxOutput result
  return ⟨stdout, stderr, result.status, formatRetentionNotice stdoutOmitted "bytes of output" dropRecovery⟩

/-- `_render`. -/
def render (maxOutput : Nat) (result : ShellResult) : Except String String := do
  let pieces ← rendered maxOutput result
  return "\n".intercalate pieces.parts

end BashTool

/-! ## Honest results -/

/-- The bytes of a stream that are not shown. -/
def bytesDropped (text shown : String) : Nat := (encodeUtf8 text.toList).length - (encodeUtf8 shown.toList).length

/-- The notice that so many bytes of a stream were dropped. -/
def dropNotice (count : Nat) : String := formatRetentionNotice (.exact count) "bytes of output" dropRecovery

/-- The bytes that went, of each stream that lost any. -/
def Rendering.drops (p : Rendering) (result : ShellResult) : List Nat :=
  [bytesDropped result.stdout p.stdout, bytesDropped result.stderr (p.stderr.getD "")].filter (fun count => 0 < count)

/-- Each stream is shown within the budget, and for each that lost bytes there is a notice of how many. -/
structure Rendering.Honest (p : Rendering) (maxOutput : Nat) (result : ShellResult) : Prop where
  stdout_kept : KeptEnds result.stdout p.stdout
  stderr_kept : KeptEnds result.stderr (p.stderr.getD "")
  stdout_fits : (encodeUtf8 p.stdout.toList).length ≤ maxOutput
  stderr_fits : (encodeUtf8 (p.stderr.getD "").toList).length ≤ maxOutput
  noticed : ((p.drops result).map dropNotice).Sublist p.notices

namespace BashTool

theorem shownStderr_spec (result : ShellResult) {maxOutput : Nat} (h : 2 ≤ maxOutput) :
    ∃ stderr, shownStderr maxOutput result = .ok stderr ∧ KeptEnds result.stderr (stderr.getD "") ∧
      (encodeUtf8 (stderr.getD "").toList).length ≤ maxOutput ∧
      ((encodeUtf8 result.stderr.toList).length ≤ maxOutput → stderr.getD "" = result.stderr) := by
  unfold shownStderr
  by_cases hempty : result.stderr = ""
  · rw [if_pos hempty, hempty]
    exact ⟨none, rfl, .refl "", Nat.zero_le _, fun _ => rfl⟩
  · obtain ⟨stderr, omitted, hbounded, hkept, hfits, -, -⟩ := bounded_spec result.stderr h
    rw [if_neg hempty, hbounded]
    refine ⟨some stderr, rfl, hkept, hfits, ?_⟩
    intro hwhole
    rw [bounded, if_pos hwhole] at hbounded
    exact (congrArg Prod.fst (Except.ok.inj hbounded)).symm

/-- Both streams are trimmed, and the notice is the one of the first. -/
theorem rendered_spec (result : ShellResult) {maxOutput : Nat} (h : 2 ≤ maxOutput) :
    ∃ p, rendered maxOutput result = .ok p ∧ KeptEnds result.stdout p.stdout ∧ KeptEnds result.stderr (p.stderr.getD "") ∧
      (encodeUtf8 p.stdout.toList).length ≤ maxOutput ∧ (encodeUtf8 (p.stderr.getD "").toList).length ≤ maxOutput ∧
      (bytesDropped result.stderr (p.stderr.getD "") = 0 ↔ (encodeUtf8 result.stderr.toList).length ≤ maxOutput) ∧
      p.notices = ([bytesDropped result.stdout p.stdout].filter (fun count => 0 < count)).map dropNotice := by
  obtain ⟨stdout, omitted, hbounded, hkept, hfits, hcount, hkind⟩ := bounded_spec result.stdout h
  obtain ⟨stderr, hrun, hkept', hfits', hwhole⟩ := shownStderr_spec result h
  have hdropped : bytesDropped result.stdout stdout = omitted.count := by
    unfold bytesDropped
    omega
  refine ⟨⟨stdout, stderr, result.status, formatRetentionNotice omitted "bytes of output" dropRecovery⟩, ?_, hkept, hkept', hfits, hfits', ?_, ?_⟩
  · rw [rendered, hbounded]
    simp only [bind, Except.bind, hrun]
    rfl
  · dsimp only
    constructor
    · intro hnone
      unfold bytesDropped at hnone
      omega
    · intro hle
      rw [hwhole hle, bytesDropped, Nat.sub_self]
  · rw [hdropped, hkind]
    unfold Rendering.notices
    by_cases hzero : omitted.count = 0
    · rw [if_pos hzero, @formatRetentionNotice_none "bytes of output" dropRecovery rfl, if_pos rfl]
      rfl
    · rw [if_neg hzero, if_neg (formatRetentionNotice_exact_ne _ _ _), List.filter_cons_of_pos]
      · rfl
      · exact decide_eq_true (Nat.pos_of_ne_zero hzero)

theorem drops_eq (p : Rendering) (result : ShellResult) : p.drops result =
    [bytesDropped result.stdout p.stdout].filter (fun count => 0 < count) ++
      [bytesDropped result.stderr (p.stderr.getD "")].filter (fun count => 0 < count) := by
  rw [← List.filter_append]
  rfl

theorem stderr_fits_of_honest {result : ShellResult} {maxOutput : Nat} (h : 2 ≤ maxOutput) {p : Rendering}
    (hrun : rendered maxOutput result = .ok p) (hhonest : p.Honest maxOutput result) :
    (encodeUtf8 result.stderr.toList).length ≤ maxOutput := by
  obtain ⟨p', hrun', -, -, -, -, hdropped, hnotices⟩ := rendered_spec result h
  obtain rfl := Except.ok.inj (hrun.symm.trans hrun')
  have hlength := hhonest.noticed.length_le
  rw [hnotices, drops_eq, List.map_append, List.length_append] at hlength
  by_contra hover
  rw [← hdropped] at hover
  have hcounted : [bytesDropped result.stderr (p.stderr.getD "")].filter (fun count => 0 < count) =
      [bytesDropped result.stderr (p.stderr.getD "")] :=
    List.filter_cons_of_pos (by exact decide_eq_true (Nat.pos_of_ne_zero hover))
  rw [hcounted, List.map_singleton, List.length_singleton] at hlength
  exact absurd hlength (Nat.not_succ_le_self _)

/-- Each stream of a result is shown within the budget, and there is a notice of what each lost, if and only if the standard error fits
the budget. -/
theorem rendered_honest_iff (result : ShellResult) {maxOutput : Nat} (h : 2 ≤ maxOutput) :
    (∃ p, rendered maxOutput result = .ok p ∧ render maxOutput result = .ok ("\n".intercalate p.parts) ∧ p.Honest maxOutput result) ↔
      (encodeUtf8 result.stderr.toList).length ≤ maxOutput := by
  constructor
  · rintro ⟨p, hrun, -, hhonest⟩
    exact stderr_fits_of_honest h hrun hhonest
  · intro hle
    obtain ⟨p, hrun, hkept, hkept', hfits, hfits', hdropped, hnotices⟩ := rendered_spec result h
    refine ⟨p, hrun, by rw [render, hrun]; rfl, hkept, hkept', hfits, hfits', ?_⟩
    rw [drops_eq, hdropped.mpr hle, hnotices, List.map_append]
    simp only [List.filter_cons, Nat.lt_irrefl, decide_false, Bool.false_eq_true, if_false, List.filter_nil, List.map_nil,
      List.append_nil]
    exact List.Sublist.refl _

/-- The case of a standard output that is cut in a character. -/
theorem rendered_honest_iff_cut : ∃ p, rendered 4 ⟨"aéébc", "é", 1, false⟩ = .ok p ∧
    render 4 ⟨"aéébc", "é", 1, false⟩ = .ok ("\n".intercalate p.parts) ∧ p.Honest 4 ⟨"aéébc", "é", 1, false⟩ :=
  (rendered_honest_iff ⟨"aéébc", "é", 1, false⟩ (by decide)).mpr (by decide)

/-- Nothing says that a standard error of six bytes was cut to four. -/
theorem not_honest_stderr : ¬∃ p, rendered 4 ⟨"", "abcdef", 1, false⟩ = .ok p ∧
    render 4 ⟨"", "abcdef", 1, false⟩ = .ok ("\n".intercalate p.parts) ∧ p.Honest 4 ⟨"", "abcdef", 1, false⟩ := by
  rintro ⟨p, hrun, -, hhonest⟩
  have hfits := stderr_fits_of_honest (by decide) hrun hhonest
  revert hfits
  decide

end BashTool

end Pydsh
