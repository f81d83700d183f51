import Mathlib.Data.List.Infix
import Mathlib.Data.List.DropRight

/-!
# Self-synchronising codes

A code of variable length whose words begin with a unit that tells the length of the word, and go on with units that no word begins
with. A cut anywhere in a text leaves whole words and a piece of one (`take_encodeAll`, `drop_encodeAll`), and the whole words are
the longest prefix, or suffix, that fits (`LongestPrefix`, `LongestSuffix`).
-/

/-- The letters, the units they are written in, and how a reader tells the units that begin a letter. -/
structure SelfSync (κ β : Type*) where
  encode : κ → List β
  /-- Units that go on with a letter. -/
  follows : β → Bool
  /-- The length that a first unit announces. -/
  width : β → Nat
  encode_shape : ∀ c, ∃ lead rest, encode c = lead :: rest ∧ follows lead = false ∧ width lead = (encode c).length ∧
    ∀ b ∈ rest, follows b = true

namespace SelfSync

variable {κ β : Type*} (code : SelfSync κ β)

/-- A text, written. -/
def encodeAll (text : List κ) : List β := text.flatMap code.encode

@[simp] theorem encodeAll_nil : code.encodeAll [] = [] := rfl

@[simp] theorem encodeAll_cons (c : κ) (text : List κ) :
    code.encodeAll (c :: text) = code.encode c ++ code.encodeAll text := rfl

@[simp] theorem encodeAll_append (a b : List κ) : code.encodeAll (a ++ b) = code.encodeAll a ++ code.encodeAll b :=
  List.flatMap_append

theorem length_encode_pos (c : κ) : 0 < (code.encode c).length := by
  obtain ⟨lead, rest, h, -, -, -⟩ := code.encode_shape c
  rw [h]
  exact Nat.succ_pos _

/-- The longest prefix of a text that is written in at most so many units. -/
structure LongestPrefix (text : List κ) (cap : Nat) (shown : List κ) : Prop where
  isPrefix : shown <+: text
  fits : (code.encodeAll shown).length ≤ cap
  longest : ∀ other, other <+: text → (code.encodeAll other).length ≤ cap → other <+: shown

/-- The longest suffix of a text that is written in at most so many units. -/
structure LongestSuffix (text : List κ) (cap : Nat) (shown : List κ) : Prop where
  isSuffix : shown <:+ text
  fits : (code.encodeAll shown).length ≤ cap
  longest : ∀ other, other <:+ text → (code.encodeAll other).length ≤ cap → other <:+ shown

/-! ## Cuts -/

/-- What is between the whole words before a cut and the cut: the begin of the next word, but not all of it. -/
def Begun (after : List κ) (piece : List β) : Prop :=
  piece = [] ∨ ∃ c later rest, after = c :: later ∧ piece ≠ [] ∧ rest ≠ [] ∧ code.encode c = piece ++ rest

/-- What is between a cut and the whole words after it: the end of the word before, but not all of it. -/
def Ending (before : List κ) (piece : List β) : Prop :=
  piece = [] ∨ ∃ earlier c begun, before = earlier ++ [c] ∧ piece ≠ [] ∧ begun ≠ [] ∧ code.encode c = begun ++ piece

/-- A cut leaves whole words, and the begin of the next. -/
theorem take_encodeAll (text : List κ) (n : Nat) :
    ∃ before after piece, text = before ++ after ∧ (code.encodeAll text).take n = code.encodeAll before ++ piece ∧
      code.Begun after piece := by
  induction text generalizing n with
  | nil => exact ⟨[], [], [], rfl, by simp, .inl rfl⟩
  | cons c text ih =>
    rw [encodeAll_cons, List.take_append]
    by_cases hn : (code.encode c).length ≤ n
    · obtain ⟨before, after, piece, rfl, htake, hpiece⟩ := ih (n - (code.encode c).length)
      refine ⟨c :: before, after, piece, rfl, ?_, hpiece⟩
      rw [htake, List.take_of_length_le hn, encodeAll_cons, List.append_assoc]
    · refine ⟨[], c :: text, (code.encode c).take n, rfl, ?_, ?_⟩
      · have hrest : n - (code.encode c).length = 0 := by omega
        rw [hrest, List.take_zero, List.append_nil]
        rfl
      · by_cases hzero : n = 0
        · subst hzero
          exact .inl rfl
        · have hlength : n < (code.encode c).length := Nat.lt_of_not_le hn
          refine .inr ⟨c, text, (code.encode c).drop n, rfl, ?_, ?_, (List.take_append_drop n _).symm⟩
          · exact fun hnil => hzero ((List.take_eq_nil_iff.mp hnil).resolve_right
              (List.ne_nil_of_length_pos (code.length_encode_pos c)))
          · exact fun hnil => hn (List.drop_eq_nil_iff.mp hnil)

/-- Behind a cut is the end of a word, and whole ones. -/
theorem drop_encodeAll (text : List κ) (n : Nat) :
    ∃ before after piece, text = before ++ after ∧ (code.encodeAll text).drop n = piece ++ code.encodeAll after ∧
      code.Ending before piece := by
  induction text generalizing n with
  | nil => exact ⟨[], [], [], rfl, by simp, .inl rfl⟩
  | cons c text ih =>
    rw [encodeAll_cons, List.drop_append]
    by_cases hn : (code.encode c).length ≤ n
    · obtain ⟨before, after, piece, rfl, hdrop, hpiece⟩ := ih (n - (code.encode c).length)
      refine ⟨c :: before, after, piece, rfl, ?_, ?_⟩
      · rw [hdrop, List.drop_of_length_le hn, List.nil_append]
      · obtain rfl | ⟨earlier, d, begun, rfl, h⟩ := hpiece
        · exact .inl rfl
        · exact .inr ⟨c :: earlier, d, begun, rfl, h⟩
    · have hrest : n - (code.encode c).length = 0 := by omega
      rw [hrest, List.drop_zero]
      by_cases hzero : n = 0
      · subst hzero
        exact ⟨[], c :: text, [], rfl, rfl, .inl rfl⟩
      · refine ⟨[c], text, (code.encode c).drop n, rfl, rfl, .inr ⟨[], c, (code.encode c).take n, rfl, ?_, ?_, ?_⟩⟩
        · exact fun hnil => hn (List.drop_eq_nil_iff.mp hnil)
        · exact fun hnil => hzero ((List.take_eq_nil_iff.mp hnil).resolve_right
            (List.ne_nil_of_length_pos (code.length_encode_pos c)))
        · exact (List.take_append_drop n _).symm

/-! ## The longest that fits -/

/-- The whole words before a cut are all that fits before it. -/
theorem longestPrefix_of_take {text before after : List κ} {piece : List β} {n : Nat} (hn : n ≤ (code.encodeAll text).length)
    (htext : text = before ++ after) (htake : (code.encodeAll text).take n = code.encodeAll before ++ piece)
    (hpiece : code.Begun after piece) : code.LongestPrefix text n before := by
  have hlength : n = (code.encodeAll before).length + piece.length := by
    rw [← List.length_append, ← htake, List.length_take, min_eq_left hn]
  refine ⟨⟨after, htext.symm⟩, by omega, ?_⟩
  intro other hother hfits
  obtain hshort | ⟨more, rfl⟩ := List.prefix_or_prefix_of_prefix hother ⟨after, htext.symm⟩
  · exact hshort
  · -- One word more does not fit: the cut goes through it.
    cases more with
    | nil => simp
    | cons c more =>
      obtain ⟨rest, hrest⟩ := hother
      have hafter : after = c :: (more ++ rest) := by
        rw [htext, List.append_assoc] at hrest
        exact (List.append_cancel_left hrest).symm
      simp only [encodeAll_append, encodeAll_cons, List.length_append] at hfits
      have hpos := code.length_encode_pos c
      obtain rfl | ⟨d, later, rest', heq, -, hrest', hencode⟩ := hpiece
      · simp only [List.length_nil] at hlength
        omega
      · obtain ⟨rfl, -⟩ := List.cons.inj (hafter.symm.trans heq)
        have : 0 < rest'.length := List.length_pos_iff.mpr hrest'
        rw [hencode, List.length_append] at hfits
        omega

/-- The whole words behind a cut are all that fits behind it. -/
theorem longestSuffix_of_drop {text before after : List κ} {piece : List β} {n : Nat} (hn : n ≤ (code.encodeAll text).length)
    (htext : text = before ++ after)
    (hdrop : (code.encodeAll text).drop ((code.encodeAll text).length - n) = piece ++ code.encodeAll after)
    (hpiece : code.Ending before piece) : code.LongestSuffix text n after := by
  have hlength : n = piece.length + (code.encodeAll after).length := by
    rw [← List.length_append, ← hdrop, List.length_drop]
    omega
  refine ⟨⟨before, htext.symm⟩, by omega, ?_⟩
  intro other hother hfits
  obtain hshort | ⟨more, rfl⟩ := List.suffix_or_suffix_of_suffix hother ⟨before, htext.symm⟩
  · exact hshort
  · cases more using List.reverseRecOn with
    | nil => simp
    | append_singleton more c =>
      obtain ⟨rest, hrest⟩ := hother
      have hbefore : before = rest ++ more ++ [c] := by
        rw [htext, ← List.append_assoc, ← List.append_assoc] at hrest
        exact (List.append_cancel_right hrest).symm
      simp only [encodeAll_append, encodeAll_cons, encodeAll_nil, List.append_nil, List.length_append] at hfits
      have hpos := code.length_encode_pos c
      obtain rfl | ⟨earlier, d, begun, heq, -, hbegun, hencode⟩ := hpiece
      · simp only [List.length_nil] at hlength
        omega
      · obtain ⟨-, hlast⟩ := List.append_inj' (hbefore.symm.trans heq) rfl
        obtain ⟨rfl, -⟩ := List.cons.inj hlast
        have : 0 < begun.length := List.length_pos_iff.mpr hbegun
        rw [hencode, List.length_append] at hfits
        omega

/-! ## A text that grows -/

/-- A letter is written in a unit or more. -/
theorem length_le_length_encodeAll (text : List κ) : text.length ≤ (code.encodeAll text).length := by
  induction text with
  | nil => exact Nat.le_refl _
  | cons c text ih =>
    have hpos := code.length_encode_pos c
    rw [encodeAll_cons, List.length_append, List.length_cons]
    omega

theorem longestSuffix_self {text : List κ} {cap : Nat} (h : (code.encodeAll text).length ≤ cap) : code.LongestSuffix text cap text :=
  ⟨List.suffix_refl text, h, fun _ hsuffix _ => hsuffix⟩

/-- A suffix of as many letters as fit at all is the longest that fits. -/
theorem longestSuffix_of_length {text shown : List κ} {cap : Nat} (hsuffix : shown <:+ text) (hfits : (code.encodeAll shown).length ≤ cap)
    (hfull : cap ≤ shown.length) : code.LongestSuffix text cap shown := by
  refine ⟨hsuffix, hfits, fun other hother hother' => ?_⟩
  have hlength := code.length_le_length_encodeAll other
  exact List.suffix_of_suffix_length_le hother hsuffix (by omega)

/-- What is cut off at the front of a text never fits again, so what is kept of it stands for it. -/
theorem LongestSuffix.append_iff {text kept : List κ} {cap : Nat} (h : code.LongestSuffix text cap kept) (more shown : List κ) :
    code.LongestSuffix (text ++ more) cap shown ↔ code.LongestSuffix (kept ++ more) cap shown := by
  have hwhole : kept ++ more <:+ text ++ more := List.suffix_append_self_iff.mpr h.isSuffix
  have hkept : ∀ other, other <:+ text ++ more → (code.encodeAll other).length ≤ cap → other <:+ kept ++ more := by
    intro other hother hfits
    obtain hshort | ⟨front, rfl⟩ := List.suffix_or_suffix_of_suffix hother (List.suffix_append text more)
    · exact hshort.trans (List.suffix_append kept more)
    · rw [encodeAll_append, List.length_append] at hfits
      exact List.suffix_append_self_iff.mpr (h.longest front (List.suffix_append_self_iff.mp hother) (by omega))
  constructor
  · intro hlongest
    exact ⟨hkept shown hlongest.isSuffix hlongest.fits, hlongest.fits,
      fun other hother hfits => hlongest.longest other (hother.trans hwhole) hfits⟩
  · intro hlongest
    exact ⟨hlongest.isSuffix.trans hwhole, hlongest.fits,
      fun other hother hfits => hlongest.longest other (hkept other hother hfits) hfits⟩

/-! ## What a reader makes of a piece -/

/-- The begin of a word: its first unit, which announces more than there is, and units that follow. -/
theorem Begun.shape {after : List κ} {piece : List β} (h : code.Begun after piece) (hne : piece ≠ []) :
    ∃ lead rest, piece = lead :: rest ∧ code.follows lead = false ∧ piece.length < code.width lead ∧
      ∀ b ∈ rest, code.follows b = true := by
  obtain rfl | ⟨c, later, more, -, -, hmore, hencode⟩ := h
  · exact absurd rfl hne
  · obtain ⟨lead, rest, hshape, hlead, hwidth, hfollow⟩ := code.encode_shape c
    cases piece with
    | nil => exact absurd rfl hne
    | cons unit piece =>
      rw [hencode, List.cons_append] at hshape
      obtain ⟨rfl, rfl⟩ := List.cons.inj hshape
      refine ⟨unit, piece, rfl, hlead, ?_, fun b hb => hfollow b (List.mem_append_left _ hb)⟩
      have : 0 < more.length := List.length_pos_iff.mpr hmore
      rw [hwidth, hencode, List.length_append]
      omega

/-- The end of a word: units that follow. -/
theorem Ending.follows {before : List κ} {piece : List β} (h : code.Ending before piece) :
    ∀ b ∈ piece, code.follows b = true := by
  obtain rfl | ⟨earlier, c, begun, -, -, hbegun, hencode⟩ := h
  · exact fun b hb => absurd hb List.not_mem_nil
  · obtain ⟨lead, rest, hshape, -, -, hfollow⟩ := code.encode_shape c
    cases begun with
    | nil => exact absurd rfl hbegun
    | cons unit begun =>
      rw [hencode, List.cons_append] at hshape
      obtain ⟨-, rfl⟩ := List.cons.inj hshape
      exact fun b hb => hfollow b (List.mem_append_right _ hb)

/-- A reader that skips the units that follow skips the end of a word. -/
theorem dropWhile_follows {before after : List κ} {piece : List β} (h : code.Ending before piece) :
    (piece ++ code.encodeAll after).dropWhile code.follows = code.encodeAll after := by
  rw [List.dropWhile_append_of_pos (h.follows code)]
  cases after with
  | nil => rfl
  | cons c after =>
    obtain ⟨lead, rest, hshape, hlead, -, -⟩ := code.encode_shape c
    rw [encodeAll_cons, hshape, List.cons_append, List.dropWhile_cons_of_neg (by simp [hlead])]

end SelfSync
