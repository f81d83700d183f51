import Mathlib.Algebra.Ring.Nat
import Pydsh.Python.Text

/-!
# Reading a window of a file

`FileSystem.read_text` of `capability/fs.py`. The lines from the offset on are taken one by one until there are as many as the limit
allows or the next does not fit into the byte budget; the rest is only counted. What is returned is always the front of what was asked
for. The flag is computed from the offset and the limit as they were given, and so it says of some whole files that they were
truncated when the offset is before the first line or the limit is negative (`readText_window_iff`).
-/

namespace Pydsh

/-- What is at a path. -/
inductive FsEntry where
  | missing | directory
  | file (data : List UInt8)

/-- What `read_text` raises. -/
inductive ReadTextError where
  | isADirectory (message : String)
  | fileNotFound (message : String)
  deriving DecidableEq

/-- The dict that `read_text` returns. -/
structure ReadResult where
  path : String
  totalLines : Nat
  lines : List (Nat × List Char)
  truncated : Bool
  deriving DecidableEq

/-- The caller's bounds. -/
structure ReadBounds where
  offset : Int
  limit : Int
  maxLineLength : Int
  maxBytes : Int

/-- The variables of the loop. -/
structure ReadState where
  lines : List (Nat × List Char)
  budget : Int
  truncated : Bool
  total : Nat
  collecting : Bool

namespace ReadBounds

/-- `READ_LIMIT`, `READ_MAX_LINE_LENGTH` and `READ_MAX_BYTES`, from the first line on. -/
def default : ReadBounds := ⟨1, 2000, 2000, 1024 * 1024⟩

/-- A line without its end. -/
def lineText (raw : List Char) : List Char := raw.rdropWhile (fun c => c = '\n')

/-- Whether a line is longer than a line that is returned may be. -/
def Cut (b : ReadBounds) (raw : List Char) : Prop := b.maxLineLength < (lineText raw).length

instance (b : ReadBounds) (raw : List Char) : Decidable (b.Cut raw) := inferInstanceAs (Decidable (_ < _))

/-- What is returned of a line; "…" is `TRUNCATION_MARK`. -/
def shownText (b : ReadBounds) (raw : List Char) : List Char :=
  if b.Cut raw then sliceTo (lineText raw) b.maxLineLength ++ ['…'] else lineText raw

/-- What a line takes of the byte budget. -/
def cost (b : ReadBounds) (raw : List Char) : Nat := (encodeUtf8 (b.shownText raw)).length

/-- The loop's body. -/
def step (b : ReadBounds) (s : ReadState) (line : List Char × Nat) : ReadState :=
  let s := { s with total := line.2 }
  if !s.collecting ∨ line.2 < b.offset ∨ b.limit ≤ s.lines.length then s
  else
    let s := { s with truncated := s.truncated || decide (b.Cut line.1) }
    if s.budget < (b.cost line.1 : Int) then { s with truncated := true, collecting := false }
    else { s with budget := s.budget - b.cost line.1, lines := s.lines ++ [(line.2, b.shownText line.1)] }

/-- The state that the loop starts from. -/
def start (b : ReadBounds) : ReadState := ⟨[], b.maxBytes, false, 0, true⟩

/-- The loop over the lines of a file, from the first. -/
def scan (b : ReadBounds) (lines : List (List Char)) : ReadState := (lines.zipIdx 1).foldl b.step b.start

/-- What is made of the loop's variables. -/
def finish (b : ReadBounds) (path : String) (s : ReadState) : ReadResult :=
  ⟨path, s.total, s.lines, s.truncated || decide (b.limit ≤ s.lines.length ∧ b.offset - 1 + b.limit < s.total)⟩

end ReadBounds

/-- The lines of a file that is read as text. -/
def linesOfFile (data : List UInt8) : List (List Char) := fileLines (universalNewlines (decodeReplace data))

/-- `read_text`, of a path that was resolved. -/
def readText (path : String) (entry : FsEntry) (b : ReadBounds) : Except ReadTextError ReadResult :=
  match entry with
  | .directory => .error (.isADirectory s!"{path} is a directory, not a text file")
  | .missing => .error (.fileNotFound s!"no such file: {path}")
  | .file data => .ok (b.finish path (b.scan (linesOfFile data)))

/-! ## Windows -/

namespace ReadBounds

/-- The lines at or after the offset, each with its number in the file. -/
def requested (b : ReadBounds) (lines : List (List Char)) : List (List Char × Nat) :=
  (lines.drop (b.offset - 1).toNat).zipIdx ((b.offset - 1).toNat + 1)

/-- A numbered line as it is returned. -/
def shown (b : ReadBounds) (line : List Char × Nat) : Nat × List Char := (line.2, b.shownText line.1)

/-- The bytes of the lines that are returned. -/
def spent (b : ReadBounds) (lines : List (List Char × Nat)) : Nat := (lines.map (fun line => b.cost line.1)).sum

/-- The result is an exact window: so many of the requested lines in a row, from the first of them, within both bounds; no fewer than
fit; and the flag says whether one of those requested was left out or cut. -/
structure Window (b : ReadBounds) (lines : List (List Char)) (r : ReadResult) : Prop where
  counted : r.totalLines = lines.length
  run : r.lines = ((b.requested lines).take r.lines.length).map b.shown
  within_limit : r.lines.length ≤ b.limit.toNat
  within_budget : (r.lines.map (fun line => (encodeUtf8 line.2).length)).sum ≤ b.maxBytes.toNat
  filled : ∀ line, (b.requested lines)[r.lines.length]? = some line →
    b.limit ≤ r.lines.length ∨ b.maxBytes < b.spent ((b.requested lines).take r.lines.length) + b.cost line.1
  flag : r.truncated = true ↔
    r.lines.length < (b.requested lines).length ∨ ∃ line ∈ (b.requested lines).take r.lines.length, b.Cut line.1

/-- Nothing that was asked for is left out or cut, and the flag is set: the limit is negative and no line is at or after the offset, or
the offset is before the first line and the limit is the number of lines. -/
def FlagMisses (b : ReadBounds) (lines : List (List Char)) : Prop :=
  (b.limit < 0 ∧ lines.length ≤ (b.offset - 1).toNat ∧ b.offset - 1 + b.limit < lines.length) ∨
    (b.offset ≤ 0 ∧ b.limit = lines.length ∧ (∀ line ∈ lines, ¬b.Cut line) ∧
      (lines = [] ∨ ((lines.map b.cost).sum : Int) ≤ b.maxBytes))

theorem length_requested (b : ReadBounds) (lines : List (List Char)) :
    (b.requested lines).length = lines.length - (b.offset - 1).toNat := by
  rw [requested, List.length_zipIdx, List.length_drop]

/-- Of the lines that were read, those that the loop looks at. -/
def wanted (b : ReadBounds) (done : List (List Char × Nat)) : List (List Char × Nat) := done.filter (fun line => b.offset ≤ line.2)

theorem wanted_append (b : ReadBounds) (done more : List (List Char × Nat)) : b.wanted (done ++ more) = b.wanted done ++ b.wanted more :=
  List.filter_append ..

/-- The lines that the loop looks at are those that were asked for. -/
theorem wanted_zipIdx (b : ReadBounds) (lines : List (List Char)) : b.wanted (lines.zipIdx 1) = b.requested lines := by
  obtain ⟨skipped, hskipped⟩ : ∃ skipped, skipped = (b.offset - 1).toNat := ⟨_, rfl⟩
  rw [requested, ← hskipped]
  conv_lhs => rw [← List.take_append_drop skipped lines]
  rw [List.zipIdx_append, wanted_append]
  have hbefore : b.wanted ((lines.take skipped).zipIdx 1) = [] := by
    refine List.filter_eq_nil_iff.mpr ?_
    rintro ⟨raw, number⟩ hmem
    obtain ⟨hle, hlt, -⟩ := List.mem_zipIdx hmem
    rw [List.length_take] at hlt
    simp only [decide_eq_true_eq]
    omega
  rw [hbefore, List.nil_append]
  by_cases hlength : skipped ≤ lines.length
  · rw [List.length_take, Nat.min_eq_left hlength, Nat.add_comm]
    refine List.filter_eq_self.mpr ?_
    rintro ⟨raw, number⟩ hmem
    have hle := (List.mem_zipIdx hmem).1
    simp only [decide_eq_true_eq]
    omega
  · rw [List.drop_eq_nil_of_le (by omega)]
    rfl

/-- A line is passed over, is the one that the budget is out at, or is taken. -/
theorem step_cases (b : ReadBounds) (s : ReadState) (line : List Char × Nat) :
    ((s.collecting = false ∨ line.2 < b.offset ∨ b.limit ≤ s.lines.length) ∧ b.step s line = { s with total := line.2 }) ∨
    (s.collecting = true ∧ b.offset ≤ line.2 ∧ s.lines.length < b.limit ∧ s.budget < b.cost line.1 ∧
      b.step s line = { s with total := line.2, truncated := true, collecting := false }) ∨
    (s.collecting = true ∧ b.offset ≤ line.2 ∧ s.lines.length < b.limit ∧ b.cost line.1 ≤ s.budget ∧
      b.step s line =
        ⟨s.lines ++ [b.shown line], s.budget - b.cost line.1, s.truncated || decide (b.Cut line.1), line.2, s.collecting⟩) := by
  by_cases hpassed : (!s.collecting) = true ∨ line.2 < b.offset ∨ b.limit ≤ s.lines.length
  · refine Or.inl ⟨?_, if_pos hpassed⟩
    rwa [Bool.not_eq_true'] at hpassed
  · have hlooked : s.collecting = true ∧ b.offset ≤ line.2 ∧ s.lines.length < b.limit := by
      simpa only [Bool.not_eq_true', not_or, Int.not_lt, Int.not_le, Bool.not_eq_false] using hpassed
    obtain ⟨hcollecting, hoffset, hlimit⟩ := hlooked
    by_cases hover : s.budget < b.cost line.1
    · exact Or.inr (Or.inl ⟨hcollecting, hoffset, hlimit, hover, (if_neg hpassed).trans (if_pos hover)⟩)
    · exact Or.inr (Or.inr ⟨hcollecting, hoffset, hlimit, Int.not_lt.mp hover, (if_neg hpassed).trans (if_neg hover)⟩)

/-- What the loop holds after the lines `done`. -/
structure Scanned (b : ReadBounds) (done : List (List Char × Nat)) (s : ReadState) : Prop where
  total : s.total = done.length
  run : s.lines = ((b.wanted done).take s.lines.length).map b.shown
  within_limit : s.lines.length ≤ b.limit.toNat
  budget : s.budget = b.maxBytes - b.spent ((b.wanted done).take s.lines.length)
  solvent : s.lines = [] ∨ 0 ≤ s.budget
  collecting : s.collecting = true →
    (s.lines.length = (b.wanted done).length ∨ b.limit ≤ s.lines.length) ∧
      (s.truncated = true ↔ ∃ line ∈ (b.wanted done).take s.lines.length, b.Cut line.1)
  stopped : s.collecting = false →
    s.truncated = true ∧ ∃ line, (b.wanted done)[s.lines.length]? = some line ∧ s.budget < b.cost line.1

theorem Scanned.length_le {b : ReadBounds} {done : List (List Char × Nat)} {s : ReadState} (h : b.Scanned done s) :
    s.lines.length ≤ (b.wanted done).length := by
  have hlength := congrArg List.length h.run
  rw [List.length_map, List.length_take] at hlength
  omega

theorem scanned_start (b : ReadBounds) : b.Scanned [] b.start where
  total := rfl
  run := rfl
  within_limit := Nat.zero_le _
  budget := (Int.sub_zero b.maxBytes).symm
  solvent := Or.inl rfl
  collecting := fun _ => ⟨Or.inl rfl, by simp [start, wanted]⟩
  stopped := fun h => by cases h

/-- What was taken is the front of what is looked at also with more lines. -/
theorem Scanned.front {b : ReadBounds} {done : List (List Char × Nat)} {s : ReadState} (h : b.Scanned done s)
    (more : List (List Char × Nat)) : (b.wanted (done ++ more)).take s.lines.length = (b.wanted done).take s.lines.length := by
  rw [wanted_append]
  exact List.take_append_of_le_length h.length_le

theorem Scanned.all_taken {b : ReadBounds} {done : List (List Char × Nat)} {s : ReadState} (h : b.Scanned done s)
    (hcollecting : s.collecting = true) (hlimit : s.lines.length < b.limit) : s.lines.length = (b.wanted done).length :=
  (h.collecting hcollecting).1.resolve_right (Int.not_le.mpr hlimit)

theorem wanted_singleton {b : ReadBounds} {line : List Char × Nat} (h : b.offset ≤ line.2) : b.wanted [line] = [line] :=
  List.filter_eq_self.mpr (by simpa using h)

theorem Scanned.pass {b : ReadBounds} {done : List (List Char × Nat)} {s : ReadState} (h : b.Scanned done s) {line : List Char × Nat}
    (hlength : (done ++ [line]).length = line.2) (hpassed : s.collecting = false ∨ line.2 < b.offset ∨ b.limit ≤ s.lines.length) :
    b.Scanned (done ++ [line]) { s with total := line.2 } := by
  refine ⟨hlength.symm, ?_, h.within_limit, ?_, h.solvent, ?_, ?_⟩
  · rw [h.front]
    exact h.run
  · rw [h.front]
    exact h.budget
  · intro hcollecting
    obtain ⟨hall, hflag⟩ := h.collecting hcollecting
    rw [h.front]
    refine ⟨?_, hflag⟩
    rcases hpassed with hstopped | hbefore | hfull
    · exact absurd (hcollecting.symm.trans hstopped) (by decide)
    · have hnone : b.wanted [line] = [] := List.filter_eq_nil_iff.mpr (by simpa using hbefore)
      rwa [wanted_append, hnone, List.append_nil]
    · exact Or.inr hfull
  · intro hstopped
    obtain ⟨hflag, next, hnext, hover⟩ := h.stopped hstopped
    refine ⟨hflag, next, ?_, hover⟩
    rw [wanted_append]
    exact List.getElem?_append_left (List.getElem?_eq_some_iff.mp hnext).1 ▸ hnext

theorem Scanned.stop {b : ReadBounds} {done : List (List Char × Nat)} {s : ReadState} (h : b.Scanned done s) {line : List Char × Nat}
    (hlength : (done ++ [line]).length = line.2) (hcollecting : s.collecting = true) (hoffset : b.offset ≤ line.2)
    (hlimit : s.lines.length < b.limit) (hover : s.budget < b.cost line.1) :
    b.Scanned (done ++ [line]) { s with total := line.2, truncated := true, collecting := false } := by
  refine ⟨hlength.symm, ?_, h.within_limit, ?_, h.solvent, ?_, fun _ => ⟨rfl, line, ?_, hover⟩⟩
  · rw [h.front]
    exact h.run
  · rw [h.front]
    exact h.budget
  · exact fun hcollecting => by cases hcollecting
  · rw [wanted_append, wanted_singleton hoffset]
    dsimp only
    rw [h.all_taken hcollecting hlimit, List.getElem?_concat_length]

theorem Scanned.take {b : ReadBounds} {done : List (List Char × Nat)} {s : ReadState} (h : b.Scanned done s) {line : List Char × Nat}
    (hlength : (done ++ [line]).length = line.2) (hcollecting : s.collecting = true) (hoffset : b.offset ≤ line.2)
    (hlimit : s.lines.length < b.limit) (hfits : b.cost line.1 ≤ s.budget) :
    b.Scanned (done ++ [line])
      ⟨s.lines ++ [b.shown line], s.budget - b.cost line.1, s.truncated || decide (b.Cut line.1), line.2, s.collecting⟩ := by
  have hall := h.all_taken hcollecting hlimit
  have hwanted : b.wanted (done ++ [line]) = b.wanted done ++ [line] := by rw [wanted_append, wanted_singleton hoffset]
  have htaken : (b.wanted (done ++ [line])).take (s.lines ++ [b.shown line]).length = b.wanted done ++ [line] := by
    rw [hwanted, List.length_append, hall, List.length_singleton]
    exact List.take_of_length_le (by rw [List.length_append, List.length_singleton])
  have hbefore : (b.wanted done).take s.lines.length = b.wanted done := List.take_of_length_le (by omega)
  have hrun := h.run
  have hbudget := h.budget
  have hflag := (h.collecting hcollecting).2
  rw [hbefore] at hrun hbudget hflag
  refine ⟨hlength.symm, ?_, ?_, ?_, Or.inr ?_, fun _ => ⟨Or.inl ?_, ?_⟩, fun hstopped => ?_⟩
  · dsimp only
    rw [htaken, List.map_append, ← hrun]
    rfl
  · dsimp only
    rw [List.length_append, List.length_singleton]
    omega
  · dsimp only
    rw [htaken, hbudget, spent, spent, List.map_append, List.sum_append]
    simp only [List.map_cons, List.map_nil, List.sum_singleton, Int.natCast_add]
    omega
  · exact Int.sub_nonneg.mpr hfits
  · dsimp only
    rw [hwanted, List.length_append, List.length_append, hall]
    rfl
  · dsimp only
    rw [htaken, Bool.or_eq_true, hflag, decide_eq_true_eq]
    simp only [List.mem_append, List.mem_singleton, or_and_right, exists_or, exists_eq_left]
  · exact absurd (hcollecting.symm.trans hstopped) (by decide)

theorem Scanned.step {b : ReadBounds} {done : List (List Char × Nat)} {s : ReadState} (h : b.Scanned done s) {line : List Char × Nat}
    (hnumber : line.2 = done.length + 1) : b.Scanned (done ++ [line]) (b.step s line) := by
  have hlength : (done ++ [line]).length = line.2 := by rw [hnumber, List.length_append, List.length_singleton]
  rcases b.step_cases s line with ⟨hpassed, heq⟩ | ⟨hcollecting, hoffset, hlimit, hover, heq⟩ | ⟨hcollecting, hoffset, hlimit, hfits, heq⟩
  · rw [heq]
    exact h.pass hlength hpassed
  · rw [heq]
    exact h.stop hlength hcollecting hoffset hlimit hover
  · rw [heq]
    exact h.take hlength hcollecting hoffset hlimit hfits

theorem scanned_scan (b : ReadBounds) (lines : List (List Char)) : b.Scanned (lines.zipIdx 1) (b.scan lines) := by
  unfold scan
  induction lines using List.reverseRecOn with
  | nil => exact b.scanned_start
  | append_singleton lines raw ih =>
    rw [List.zipIdx_append, List.foldl_append]
    refine ih.step ?_
    rw [List.length_zipIdx, Nat.add_comm]

/-! ## The flag -/

theorem mem_of_mem_requested {b : ReadBounds} {lines : List (List Char)} {line : List Char × Nat} (h : line ∈ b.requested lines) :
    line.1 ∈ lines := by
  obtain ⟨hle, hlt, heq⟩ := List.mem_zipIdx (x := line.1) (i := line.2) h
  rw [heq]
  exact List.mem_of_mem_drop (List.getElem_mem _)

theorem requested_of_nonpos {b : ReadBounds} (h : b.offset ≤ 0) (lines : List (List Char)) : b.requested lines = lines.zipIdx 1 := by
  have hzero : (b.offset - 1).toNat = 0 := by omega
  rw [requested, hzero, List.drop_zero]

theorem spent_zipIdx (b : ReadBounds) (lines : List (List Char)) : b.spent (lines.zipIdx 1) = (lines.map b.cost).sum := by
  have hfst : (lines.zipIdx 1).map (fun line => b.cost line.1) = ((lines.zipIdx 1).map Prod.fst).map b.cost := by
    rw [List.map_map]
    rfl
  rw [spent, hfst, List.zipIdx_map_fst]

theorem sum_map_shown (b : ReadBounds) (w : List (List Char × Nat)) :
    ((w.map b.shown).map (fun line => (encodeUtf8 line.2).length)).sum = b.spent w := by
  rw [List.map_map]
  rfl

theorem spent_take_add_le {b : ReadBounds} {w : List (List Char × Nat)} {n : Nat} {line : List Char × Nat} (h : w[n]? = some line) :
    b.spent (w.take n) + b.cost line.1 ≤ b.spent w := by
  obtain ⟨hlt, hget⟩ := List.getElem?_eq_some_iff.mp h
  have hsplit : w = w.take n ++ line :: w.drop (n + 1) := by
    rw [← hget, List.getElem_cons_drop, List.take_append_drop]
  conv_rhs => rw [hsplit]
  rw [spent, spent, List.map_append, List.sum_append, List.map_cons, List.sum_cons]
  omega

/-- A file of which a line was asked for and left out is not one of those. -/
theorem not_flagMisses_of_leftOut {b : ReadBounds} {lines : List (List Char)} {n : Nat} {line : List Char × Nat}
    (h : (b.requested lines)[n]? = some line)
    (hstop : b.limit ≤ n ∨ b.maxBytes < b.spent ((b.requested lines).take n) + b.cost line.1) : ¬b.FlagMisses lines := by
  have hlt := (List.getElem?_eq_some_iff.mp h).1
  rw [length_requested] at hlt
  rintro (⟨-, hnone, -⟩ | ⟨hoffset, hlimit, -, hfits⟩)
  · omega
  · rcases hfits with rfl | hfits
    · exact absurd hlt (by simp)
    · have hspent := spent_take_add_le (b := b) h
      rw [requested_of_nonpos hoffset, spent_zipIdx] at hspent
      rw [requested_of_nonpos hoffset] at hstop
      omega

theorem not_flagMisses_of_cut {b : ReadBounds} {lines : List (List Char)} {line : List Char × Nat} (h : line ∈ b.requested lines)
    (hcut : b.Cut line.1) : ¬b.FlagMisses lines := by
  rintro (⟨-, hnone, -⟩ | ⟨-, -, huncut, -⟩)
  · have hpos := List.length_pos_of_mem h
    rw [length_requested] at hpos
    omega
  · exact huncut line.1 (mem_of_mem_requested h) hcut

/-- Where all that was asked for is returned whole, the flag is computed from the numbers alone. -/
theorem flagMisses_iff_of_whole {b : ReadBounds} {lines : List (List Char)} (hlimit : (b.requested lines).length ≤ b.limit.toNat)
    (hbudget : b.requested lines = [] ∨ (b.spent (b.requested lines) : Int) ≤ b.maxBytes)
    (hcut : ∀ line ∈ b.requested lines, ¬b.Cut line.1) :
    b.FlagMisses lines ↔ b.limit ≤ (b.requested lines).length ∧ b.offset - 1 + b.limit < lines.length := by
  rw [length_requested] at hlimit ⊢
  constructor
  · rintro (⟨hneg, hnone, hless⟩ | ⟨hoffset, hall, -, -⟩)
    · omega
    · omega
  · rintro ⟨hfull, hless⟩
    by_cases hneg : b.limit < 0
    · exact Or.inl ⟨hneg, by omega, hless⟩
    · have hoffset : b.offset ≤ 0 := by omega
      rw [requested_of_nonpos hoffset] at hbudget hcut
      rw [spent_zipIdx] at hbudget
      refine Or.inr ⟨hoffset, by omega, ?_, hbudget.imp_left ?_⟩
      · intro line hline
        rw [← List.zipIdx_map_fst 1 lines] at hline
        obtain ⟨numbered, hnumbered, rfl⟩ := List.mem_map.mp hline
        exact hcut numbered hnumbered
      · exact fun hnil => List.zipIdx_eq_nil_iff.mp hnil

theorem flag_finish_iff (b : ReadBounds) (path : String) (lines : List (List Char)) :
    ((b.finish path (b.scan lines)).truncated = true ↔ (b.scan lines).lines.length < (b.requested lines).length ∨
      ∃ line ∈ (b.requested lines).take (b.scan lines).lines.length, b.Cut line.1) ↔ ¬b.FlagMisses lines := by
  have hscan := b.scanned_scan lines
  generalize b.scan lines = s at hscan
  have htotal := hscan.total
  rw [List.length_zipIdx] at htotal
  have hbudget := hscan.budget
  have hle := hscan.length_le
  have hstopped := hscan.stopped
  have hcollected := hscan.collecting
  rw [wanted_zipIdx] at hbudget hle hstopped hcollected
  have hflag : (b.finish path s).truncated = true ↔
      s.truncated = true ∨ (b.limit ≤ s.lines.length ∧ b.offset - 1 + b.limit < lines.length) := by
    rw [finish, Bool.or_eq_true, decide_eq_true_eq, htotal]
  rw [hflag]
  cases hcollecting : s.collecting with
  | false =>
    obtain ⟨htruncated, line, hline, hover⟩ := hstopped hcollecting
    have hlt := (List.getElem?_eq_some_iff.mp hline).1
    refine iff_of_true ⟨fun _ => Or.inl hlt, fun _ => Or.inl htruncated⟩ (not_flagMisses_of_leftOut hline (Or.inr ?_))
    omega
  | true =>
    obtain ⟨hall, htruncated⟩ := hcollected hcollecting
    rw [htruncated]
    by_cases hcut : ∃ line ∈ (b.requested lines).take s.lines.length, b.Cut line.1
    · obtain ⟨line, hline, hlong⟩ := hcut
      exact iff_of_true ⟨fun _ => Or.inr ⟨line, hline, hlong⟩, fun _ => Or.inl ⟨line, hline, hlong⟩⟩
        (not_flagMisses_of_cut (List.mem_of_mem_take hline) hlong)
    · rw [or_iff_right hcut, or_iff_left hcut]
      rcases Nat.lt_or_ge s.lines.length (b.requested lines).length with hlt | hge
      · have hfull : b.limit ≤ s.lines.length := hall.resolve_left (Nat.ne_of_lt hlt)
        refine iff_of_true ⟨fun _ => hlt, fun _ => ⟨hfull, ?_⟩⟩
          (not_flagMisses_of_leftOut (List.getElem?_eq_getElem hlt) (Or.inl hfull))
        rw [length_requested] at hlt
        omega
      · have hwhole : s.lines.length = (b.requested lines).length := Nat.le_antisymm hle hge
        rw [List.take_of_length_le hge] at hcut hbudget
        have hmisses := @flagMisses_iff_of_whole b lines (hwhole ▸ hscan.within_limit)
          (hscan.solvent.imp (fun hnil => List.length_eq_zero_iff.mp (by rw [← hwhole, hnil, List.length_nil])) (fun hpos => by omega))
          (fun line hline hlong => hcut ⟨line, hline, hlong⟩)
        rw [hmisses, hwhole]
        constructor
        · exact fun h hfull => absurd (h.mp hfull) (Nat.lt_irrefl _)
        · exact fun h => ⟨fun hfull => absurd hfull h, fun hlt => absurd hlt (Nat.lt_irrefl _)⟩

/-- What the loop leaves is an exact window but for the files that the flag misses. -/
theorem window_finish_iff (b : ReadBounds) (path : String) (lines : List (List Char)) :
    b.Window lines (b.finish path (b.scan lines)) ↔ ¬b.FlagMisses lines := by
  rw [← b.flag_finish_iff path]
  refine ⟨fun hwindow => hwindow.flag, ?_⟩
  intro hflag
  have hscan := b.scanned_scan lines
  have hrun := hscan.run
  have hbudget := hscan.budget
  have hcollected := hscan.collecting
  have hstopped := hscan.stopped
  rw [wanted_zipIdx] at hrun hbudget hcollected hstopped
  refine ⟨hscan.total.trans List.length_zipIdx, hrun, hscan.within_limit, ?_, ?_, hflag⟩
  · have hspent := b.sum_map_shown ((b.requested lines).take (b.scan lines).lines.length)
    rw [← hrun] at hspent
    rcases hscan.solvent with hnone | hpos
    · simp [finish, hnone]
    · rw [finish, hspent]
      omega
  · intro line hline
    dsimp only [finish] at hline ⊢
    cases hcollecting : (b.scan lines).collecting with
    | true =>
      have hlt := (List.getElem?_eq_some_iff.mp hline).1
      exact Or.inl ((hcollected hcollecting).1.resolve_left (Nat.ne_of_lt hlt))
    | false =>
      obtain ⟨-, stop, hstop, hover⟩ := hstopped hcollecting
      cases hline.symm.trans hstop
      refine Or.inr ?_
      omega

end ReadBounds

/-! ## `read_text` -/

/-- A file is read as an exact window unless it is one that the flag misses. -/
theorem readText_window_iff (path : String) (data : List UInt8) (b : ReadBounds) :
    (∃ r, readText path (.file data) b = .ok r ∧ b.Window (linesOfFile data) r) ↔ ¬b.FlagMisses (linesOfFile data) := by
  rw [← b.window_finish_iff path]
  constructor
  · rintro ⟨r, hread, hwindow⟩
    rwa [← Except.ok.inj hread] at hwindow
  · exact fun hwindow => ⟨_, rfl, hwindow⟩

/-- A file of one line is read whole from line 0 on, and said to be truncated. -/
theorem not_window_line_zero :
    ∃ r, readText "/a.txt" (.file (encodeUtf8 ['a', '\n'])) ⟨0, 1, 2000, 1048576⟩ = .ok r ∧ r.lines = [(1, ['a'])] ∧ r.totalLines = 1 ∧
      r.truncated = true ∧ ¬(ReadBounds.mk 0 1 2000 1048576).Window (linesOfFile (encodeUtf8 ['a', '\n'])) r := by
  have hlines : linesOfFile (encodeUtf8 ['a', '\n']) = [['a', '\n']] := by
    rw [linesOfFile, decodeReplace_encodeUtf8]
    decide
  refine ⟨_, rfl, ?_, ?_, ?_, ?_⟩
  · rw [hlines]
    decide
  · rw [hlines]
    decide
  · rw [hlines]
    decide
  · rw [hlines, ReadBounds.window_finish_iff, not_not]
    exact Or.inr ⟨by decide, by decide, by decide, Or.inr (by decide)⟩

end Pydsh
