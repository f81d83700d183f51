import Pydsh.Bounded.Shown

/-!
# What pruning leaves of a content

The walk of `prune_content` passes over blocks of text and others. Before the first character that is removed it keeps every text whole;
the block that holds it gets the marker; from there on it keeps what lies behind the last character that is removed
(`pruneWalk_before`, `pruneWalk_behind`). So an accepted configuration prunes every content over its threshold, once
(`pruneContent_over`).
-/

namespace Pydsh

/-- The characters of the text blocks of a content, in order. -/
def contentText : List PyValue → List Char
  | [] => []
  | .textBlock (.str s) :: blocks => s.toList ++ contentText blocks
  | _ :: blocks => contentText blocks

/-- The text blocks of a content hold strings. -/
def HoldsText (blocks : List PyValue) : Prop := ∀ text, .textBlock text ∈ blocks → ∃ s, text = .str s

/-- The second content is the first with its texts cut where they stand: a text block is kept with its begin and its end, with or without
the marker between them, or left out; every other block is kept. -/
inductive CutInPlace : List PyValue → List PyValue → Prop where
  | nil : CutInPlace [] []
  | other {block : PyValue} {blocks blocks' : List PyValue} : (∀ text, block ≠ .textBlock text) → CutInPlace blocks blocks' →
      CutInPlace (block :: blocks) (block :: blocks')
  | text {s t marker : String} {head tail : Nat} {blocks blocks' : List PyValue} : head ≤ tail → (marker = "" ∨ marker = pruneMarker) →
      t.toList = s.toList.take head ++ marker.toList ++ s.toList.drop tail → CutInPlace blocks blocks' →
      CutInPlace (.textBlock (.str s) :: blocks) (.textBlock (.str t) :: blocks')
  | left {s : String} {blocks blocks' : List PyValue} : CutInPlace blocks blocks' →
      CutInPlace (.textBlock (.str s) :: blocks) blocks'

theorem HoldsText.tail {block : PyValue} {blocks : List PyValue} (h : HoldsText (block :: blocks)) : HoldsText blocks :=
  fun text htext => h text (List.mem_cons_of_mem block htext)

theorem contentText_other {block : PyValue} (hblock : ∀ text, block ≠ .textBlock text) (blocks : List PyValue) :
    contentText (block :: blocks) = contentText blocks := by
  cases block with
  | textBlock text => exact absurd rfl (hblock text)
  | _ => rfl

theorem measureContent_eq {blocks : List PyValue} (h : HoldsText blocks) : measureContent blocks = .ok (contentText blocks).length := by
  induction blocks with
  | nil => rfl
  | cons block blocks ih =>
    by_cases htext : ∃ text, block = .textBlock text
    · obtain ⟨text, rfl⟩ := htext
      obtain ⟨s, rfl⟩ := h text List.mem_cons_self
      rw [measureContent, ih h.tail, contentText, List.length_append, String.length_toList]
      rfl
    · have hblock : ∀ text, block ≠ .textBlock text := fun text heq => htext ⟨text, heq⟩
      rw [measureContent, ih h.tail, contentText_other hblock]
      exact fun text heq => hblock text heq

/-! ## The walk -/

/-- What the walk keeps of a text block. -/
def keptText (s marker : String) (head tail : Nat) : String :=
  String.ofList (s.toList.take head) ++ marker ++ String.ofList (s.toList.drop tail)

theorem toList_keptText (s marker : String) (head tail : Nat) :
    (keptText s marker head tail).toList = s.toList.take head ++ marker.toList ++ s.toList.drop tail := by
  simp [keptText]

/-- A text that was cut, in front of what was kept behind it; an empty one is left out. -/
def putText (text : String) (rest : List PyValue) : List PyValue := if text = "" then rest else .textBlock (.str text) :: rest

theorem contentText_putText (text : String) (rest : List PyValue) :
    contentText (putText text rest) = text.toList ++ contentText rest := by
  unfold putText
  split
  · rename_i hempty
    rw [hempty]
    rfl
  · rfl

theorem CutInPlace.putText {s marker : String} {head tail : Nat} {blocks blocks' : List PyValue} (h : CutInPlace blocks blocks')
    (hle : head ≤ tail) (hmarker : marker = "" ∨ marker = pruneMarker) :
    CutInPlace (.textBlock (.str s) :: blocks) (putText (keptText s marker head tail) blocks') := by
  unfold Pydsh.putText
  split
  · exact .left h
  · exact .text hle hmarker (toList_keptText s marker head tail) h

theorem pruneWalk_text_eq {removedFrom removedTo : Nat} {s : String} {blocks : List PyValue} {start : Nat} {marked marked' : Bool}
    {rest : List PyValue} {overlaps : Bool} (hoverlaps : overlaps = (decide (start < removedTo) && decide (start + s.length > removedFrom)))
    (h : pruneWalk removedFrom removedTo blocks (start + s.length) (overlaps || marked) = .ok (rest, marked')) :
    pruneWalk removedFrom removedTo (.textBlock (.str s) :: blocks) start marked =
      .ok (putText (keptText s (if overlaps && !marked then pruneMarker else "") (min s.length (removedFrom - start))
        (min s.length (removedTo - start))) rest, marked') := by
  subst hoverlaps
  rw [pruneWalk, h]
  rfl

theorem pruneWalk_other_eq {removedFrom removedTo : Nat} {block : PyValue} (hblock : ∀ text, block ≠ .textBlock text)
    {blocks : List PyValue} {start : Nat} {marked marked' : Bool} {rest : List PyValue}
    (h : pruneWalk removedFrom removedTo blocks start marked = .ok (rest, marked')) :
    pruneWalk removedFrom removedTo (block :: blocks) start marked = .ok (block :: rest, marked') := by
  rw [pruneWalk, h]
  · rfl
  · exact fun characters heq => hblock _ heq
  · exact fun text heq => hblock text heq

theorem drop_min_length (s : String) (n : Nat) : s.toList.drop (min s.length n) = s.toList.drop n := by
  rw [← String.length_toList]
  obtain h | h := Nat.le_total s.toList.length n
  · rw [Nat.min_eq_left h, List.drop_length, List.drop_eq_nil_of_le h]
  · rw [Nat.min_eq_right h]

theorem take_min_length (s : String) (n : Nat) : s.toList.take (min s.length n) = s.toList.take n := by
  rw [← String.length_toList, Nat.min_comm, ← List.take_eq_take_min]

theorem HoldsText.cases {block : PyValue} {blocks : List PyValue} (h : HoldsText (block :: blocks)) :
    (∃ s, block = .textBlock (.str s)) ∨ ∀ text, block ≠ .textBlock text := by
  by_cases htext : ∃ text, block = .textBlock text
  · obtain ⟨text, rfl⟩ := htext
    obtain ⟨s, rfl⟩ := h text List.mem_cons_self
    exact .inl ⟨s, rfl⟩
  · exact .inr (fun text heq => htext ⟨text, heq⟩)

/-- Behind the first character that is removed, what lies behind the last one is kept. -/
theorem pruneWalk_behind {removedFrom removedTo : Nat} {blocks : List PyValue} (h : HoldsText blocks) {start : Nat}
    (hstart : removedFrom < start) :
    ∃ pruned, pruneWalk removedFrom removedTo blocks start true = .ok (pruned, true) ∧
      contentText pruned = (contentText blocks).drop (removedTo - start) ∧ CutInPlace blocks pruned := by
  induction blocks generalizing start with
  | nil => exact ⟨[], rfl, List.drop_nil.symm, .nil⟩
  | cons block blocks ih =>
    obtain ⟨s, rfl⟩ | hblock := h.cases
    · obtain ⟨rest, hwalk, htext, hcut⟩ := ih h.tail (Nat.lt_of_lt_of_le hstart (Nat.le_add_right start s.length))
      have hhead : removedFrom - start = 0 := Nat.sub_eq_zero_of_le (Nat.le_of_lt hstart)
      refine ⟨_, pruneWalk_text_eq rfl (by rwa [Bool.or_true]), ?_, hcut.putText (by omega) (.inl (by simp))⟩
      rw [contentText_putText, toList_keptText, htext, hhead, contentText, List.drop_append, drop_min_length, String.length_toList,
        Nat.sub_add_eq, Bool.not_true, Bool.and_false, Nat.min_zero]
      rfl
    · obtain ⟨rest, hwalk, htext, hcut⟩ := ih h.tail hstart
      refine ⟨_, pruneWalk_other_eq hblock hwalk, ?_, .other hblock hcut⟩
      rw [contentText_other hblock, contentText_other hblock, htext]

/-- Up to the first character that is removed, everything is kept; the block that holds it gets the marker. -/
theorem pruneWalk_before {removedFrom removedTo : Nat} (hrange : removedFrom < removedTo) {blocks : List PyValue}
    (h : HoldsText blocks) {start : Nat} (hstart : start ≤ removedFrom) (hmore : removedFrom < start + (contentText blocks).length) :
    ∃ pruned, pruneWalk removedFrom removedTo blocks start false = .ok (pruned, true) ∧
      contentText pruned = (contentText blocks).take (removedFrom - start) ++ pruneMarker.toList ++
        (contentText blocks).drop (removedTo - start) ∧ CutInPlace blocks pruned := by
  induction blocks generalizing start with
  | nil => exact absurd hmore (Nat.not_lt_of_le hstart)
  | cons block blocks ih =>
    obtain ⟨s, rfl⟩ | hblock := h.cases
    · have hlength : (contentText (.textBlock (.str s) :: blocks)).length = s.length + (contentText blocks).length := by
        rw [contentText, List.length_append, String.length_toList]
      rw [hlength] at hmore
      by_cases hwhole : start + s.length ≤ removedFrom
      · -- the block ends before what is removed
        have hoverlaps : false = (decide (start < removedTo) && decide (start + s.length > removedFrom)) := by
          simp [Nat.not_lt_of_le hwhole]
        obtain ⟨rest, hwalk, htext, hcut⟩ := ih h.tail hwhole (by omega)
        refine ⟨_, pruneWalk_text_eq hoverlaps hwalk, ?_, hcut.putText (by omega) (.inl (by simp))⟩
        have htake : s.toList.take (removedFrom - start) = s.toList :=
          List.take_of_length_le (by rw [String.length_toList]; omega)
        have hdrop : s.toList.drop (removedTo - start) = [] := List.drop_eq_nil_of_le (by rw [String.length_toList]; omega)
        rw [contentText_putText, toList_keptText, htext, contentText, take_min_length, drop_min_length, List.take_append,
          List.drop_append, htake, hdrop, String.length_toList, Nat.sub_add_eq, Nat.sub_add_eq]
        simp
      · -- what is removed begins in the block
        have hoverlaps : true = (decide (start < removedTo) && decide (start + s.length > removedFrom)) := by
          simp [Nat.lt_of_le_of_lt hstart hrange, Nat.lt_of_not_le hwhole]
        obtain ⟨rest, hwalk, htext, hcut⟩ := @pruneWalk_behind removedFrom removedTo blocks h.tail _ (Nat.lt_of_not_le hwhole)
        refine ⟨_, pruneWalk_text_eq hoverlaps (by rwa [Bool.true_or]), ?_, hcut.putText (by omega) (.inr (by simp))⟩
        have htake : (contentText blocks).take (removedFrom - start - s.length) = [] := by
          rw [List.take_eq_nil_iff]
          exact .inl (by omega)
        rw [contentText_putText, toList_keptText, htext, contentText, take_min_length, drop_min_length, List.take_append,
          List.drop_append, String.length_toList, Nat.sub_add_eq, htake]
        simp
    · rw [contentText_other hblock] at hmore ⊢
      obtain ⟨rest, hwalk, htext, hcut⟩ := ih h.tail hstart hmore
      refine ⟨_, pruneWalk_other_eq hblock hwalk, ?_, .other hblock hcut⟩
      rw [contentText_other hblock, htext]

/-- A content that was cut in place holds strings where it holds texts. -/
theorem CutInPlace.holdsText {blocks blocks' : List PyValue} (h : CutInPlace blocks blocks') : HoldsText blocks' := by
  induction h with
  | nil => exact fun _ htext => absurd htext List.not_mem_nil
  | other hblock _ ih =>
    intro text htext
    rcases List.mem_cons.mp htext with heq | htext
    · exact absurd heq.symm (hblock text)
    · exact ih text htext
  | @text s t _ _ _ _ _ _ _ _ _ ih =>
    intro text htext
    rcases List.mem_cons.mp htext with heq | htext
    · exact ⟨t, by simpa using heq⟩
    · exact ih text htext
  | left _ ih => exact ih

/-! ## A content over the threshold -/

theorem pruneContent_within (cfg : PrunerConfig) {blocks : List PyValue} (h : HoldsText blocks)
    (hfits : (contentText blocks).length ≤ cfg.thresholdChars) : pruneContent cfg blocks = .ok none := by
  simp only [pruneContent, measureContent_eq h, bind, Except.bind, if_pos hfits]
  rfl

/-- What the walk makes of a content over the threshold fits it, and so it is taken. -/
theorem pruneContent_fits (cfg : PrunerConfig) {blocks : List PyValue} (h : HoldsText blocks)
    (hover : cfg.thresholdChars < (contentText blocks).length) :
    ∃ pruned, pruneContent cfg blocks = .ok (some pruned) ∧
      contentText pruned = (contentText blocks).take cfg.headChars ++ pruneMarker.toList ++
        (contentText blocks).drop ((contentText blocks).length - cfg.tailChars) ∧
      CutInPlace blocks pruned ∧ (contentText pruned).length ≤ cfg.thresholdChars := by
  have hfits := cfg.fits
  have hmarker : 0 < pruneMarker.length := by decide
  obtain ⟨pruned, hwalk, htext, hcut⟩ := @pruneWalk_before cfg.headChars ((contentText blocks).length - cfg.tailChars) (by omega)
    blocks h 0 (Nat.zero_le _) (by omega)
  rw [Nat.sub_zero, Nat.sub_zero] at htext
  have hlength : (contentText pruned).length = cfg.headChars + pruneMarker.length + cfg.tailChars := by
    rw [htext, List.length_append, List.length_append, List.length_take, List.length_drop, String.length_toList]
    omega
  have hafter : (contentText pruned).length ≤ cfg.thresholdChars := by omega
  refine ⟨pruned, ?_, htext, hcut, hafter⟩
  have hshrinks : ¬((contentText pruned).length ≥ (contentText blocks).length ∨ (contentText pruned).length > cfg.thresholdChars) := by
    omega
  simp only [pruneContent, measureContent_eq h, measureContent_eq hcut.holdsText, bind, Except.bind, if_neg (Nat.not_le_of_lt hover),
    hwalk, Bool.not_true, Bool.false_eq_true, if_false, if_neg hshrinks]
  rfl

/-- A content over the threshold is pruned, whatever blocks it consists of: its text becomes the head, the marker and the tail of the
text that it was, cut where it stood, with every other block in its place; it fits the threshold, and pruning it again leaves it. -/
theorem pruneContent_over (cfg : PrunerConfig) {blocks : List PyValue} (h : HoldsText blocks)
    (hover : cfg.thresholdChars < (contentText blocks).length) :
    ∃ pruned, pruneContent cfg blocks = .ok (some pruned) ∧
      contentText pruned = (contentText blocks).take cfg.headChars ++ pruneMarker.toList ++
        (contentText blocks).drop ((contentText blocks).length - cfg.tailChars) ∧
      CutInPlace blocks pruned ∧ (contentText pruned).length ≤ cfg.thresholdChars ∧ pruneContent cfg pruned = .ok none := by
  obtain ⟨pruned, hpruned, htext, hcut, hafter⟩ := pruneContent_fits cfg h hover
  exact ⟨pruned, hpruned, htext, hcut, hafter, pruneContent_within cfg hcut.holdsText hafter⟩

/-- A long text, a block that is none, and a short text. -/
def mixedContent : List PyValue := [.textBlock (.str (String.ofList (List.replicate 60 'a'))), .dict [], .textBlock (.str "end")]

def smallBudgets : PrunerConfig := ⟨45, 2, 2, by decide, by decide⟩

/-- The case of a content with a block between its texts. -/
theorem pruneContent_over_mixed : ∃ pruned, pruneContent smallBudgets mixedContent = .ok (some pruned) ∧
    contentText pruned = "aa".toList ++ pruneMarker.toList ++ "nd".toList ∧ CutInPlace mixedContent pruned ∧
    pruneContent smallBudgets pruned = .ok none := by
  have htexts : HoldsText mixedContent := by
    intro text htext
    simp only [mixedContent, List.mem_cons, PyValue.textBlock.injEq, List.not_mem_nil, or_false, reduceCtorEq, false_or] at htext
    rcases htext with rfl | rfl
    · exact ⟨_, rfl⟩
    · exact ⟨_, rfl⟩
  obtain ⟨pruned, hpruned, htext, hcut, -, hagain⟩ := pruneContent_over smallBudgets htexts (by decide)
  exact ⟨pruned, hpruned, htext, hcut, hagain⟩

end Pydsh
