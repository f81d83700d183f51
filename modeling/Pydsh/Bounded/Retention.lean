import Pydsh.Python.Utf8

/-!
# The retainer of a text stream

`bounded/retention.py`: `TextRetainer` keeps the first and the last bytes of a stream that arrives in chunks, and says how many bytes
it did not keep. A cut may fall inside a character, by a chunk or by a budget; what is shown has whole characters only.
`TextRetainer.finish_shows` says what it holds after any chunks, and what it shows of a text.
-/

namespace Pydsh

/-! ## Characters -/

/-- `_MAX_UTF8_WIDTH` -/
def maxUtf8Width : Nat := 4

/-- `_is_continuation`: `10xxxxxx`. -/
def isContinuation (byte : UInt8) : Bool := byte &&& 0xC0 == 0x80

/-- `_lead_width`, over `_LEAD_LENGTHS`. -/
def leadWidth (byte : UInt8) : Nat :=
  if byte &&& 0xF8 == 0xF0 then 4
  else if byte &&& 0xF0 == 0xE0 then 3
  else if byte &&& 0xE0 == 0xC0 then 2
  else 1

/-- The loop of `trim_trailing_partial_utf8`, with how many steps are left and one more than the index. -/
def walkBack (data : List UInt8) : Nat → Nat → Nat
  | 0, past => past
  | _ + 1, 0 => 0
  | steps + 1, index + 1 => if isContinuation (data.getD index 0) then walkBack data steps index else index + 1

/-- `trim_trailing_partial_utf8` -/
def trimTrailingPartialUtf8 (data : List UInt8) : List UInt8 :=
  if data = [] then data
  else
    match walkBack data maxUtf8Width data.length with
    | 0 => []
    | index + 1 => if index + leadWidth (data.getD index 0) > data.length then data.take index else data

/-- `trim_leading_continuation_utf8` -/
def trimLeadingContinuationUtf8 (data : List UInt8) : List UInt8 := data.dropWhile isContinuation

theorem forall_byte {p : UInt8 → Prop} (h : ∀ n : Fin 256, p (UInt8.ofFin n)) (b : UInt8) : p b := by
  have := h b.toFin
  rwa [UInt8.ofFin_toFin] at this

theorem isContinuation_six_bits : ∀ b : UInt8, isContinuation (b &&& 0x3f ||| 0x80) = true :=
  forall_byte (by decide +kernel)

theorem lead_one : ∀ b : UInt8, b ≤ 0x7f → isContinuation b = false ∧ leadWidth b = 1 :=
  forall_byte (by decide +kernel)

theorem lead_two : ∀ b : UInt8, isContinuation (b &&& 0x1f ||| 0xc0) = false ∧ leadWidth (b &&& 0x1f ||| 0xc0) = 2 :=
  forall_byte (by decide +kernel)

theorem lead_three : ∀ b : UInt8, isContinuation (b &&& 0x0f ||| 0xe0) = false ∧ leadWidth (b &&& 0x0f ||| 0xe0) = 3 :=
  forall_byte (by decide +kernel)

theorem lead_four : ∀ b : UInt8, isContinuation (b &&& 0x07 ||| 0xf0) = false ∧ leadWidth (b &&& 0x07 ||| 0xf0) = 4 :=
  forall_byte (by decide +kernel)

/-- A character is a byte that does not continue one and tells how many bytes there are, and bytes that continue it. -/
theorem utf8EncodeChar_shape (c : Char) :
    ∃ lead rest, String.utf8EncodeChar c = lead :: rest ∧ isContinuation lead = false ∧
      leadWidth lead = (String.utf8EncodeChar c).length ∧ ∀ b ∈ rest, isContinuation b = true := by
  rw [String.length_utf8EncodeChar]
  obtain h | h | h | h := c.utf8Size_eq
  · rw [String.utf8EncodeChar_eq_singleton h, h]
    have hsmall : c.val.toUInt8 ≤ 0x7f := by
      have hval := Char.utf8Size_eq_one_iff.mp h
      rw [UInt32.le_iff_toNat_le] at hval
      rw [UInt8.le_iff_toNat_le, UInt32.toNat_toUInt8]
      exact (Nat.mod_le _ _).trans hval
    obtain ⟨hlead, hwidth⟩ := lead_one _ hsmall
    exact ⟨_, [], rfl, hlead, hwidth, fun b hb => absurd hb List.not_mem_nil⟩
  · rw [String.utf8EncodeChar_eq_cons_cons h, h]
    refine ⟨_, _, rfl, (lead_two _).1, (lead_two _).2, ?_⟩
    simp [isContinuation_six_bits]
  · rw [String.utf8EncodeChar_eq_cons_cons_cons h, h]
    refine ⟨_, _, rfl, (lead_three _).1, (lead_three _).2, ?_⟩
    simp [isContinuation_six_bits]
  · rw [String.utf8EncodeChar_eq_cons_cons_cons_cons h, h]
    refine ⟨_, _, rfl, (lead_four _).1, (lead_four _).2, ?_⟩
    simp [isContinuation_six_bits]

/-- UTF-8 as a code that a reader can enter anywhere. -/
def utf8 : SelfSync Char UInt8 where
  encode := String.utf8EncodeChar
  follows := isContinuation
  width := leadWidth
  encode_shape := utf8EncodeChar_shape

theorem encodeUtf8_eq (text : List Char) : encodeUtf8 text = utf8.encodeAll text := rfl

/-- The walk stops at the byte before the bytes that continue a character. -/
theorem walkBack_eq {data : List UInt8} {index : Nat} (hlead : isContinuation (data.getD index 0) = false) (steps follow : Nat)
    (hsteps : follow ≤ steps) (hfollow : ∀ k < follow, isContinuation (data.getD (index + 1 + k) 0) = true) :
    walkBack data steps (index + 1 + follow) = index + 1 := by
  induction steps generalizing follow with
  | zero =>
    obtain rfl : follow = 0 := Nat.le_zero.mp hsteps
    rfl
  | succ steps ih =>
    cases follow with
    | zero => rw [Nat.add_zero, walkBack, hlead, if_neg Bool.false_ne_true]
    | succ follow =>
      rw [← Nat.add_assoc, walkBack, hfollow follow (Nat.lt_succ_self _), if_pos rfl]
      exact ih follow (Nat.le_of_succ_le_succ hsteps) (fun k hk => hfollow k (Nat.lt_succ_of_lt hk))

/-- What the trimming does is decided by the last byte that begins a character. -/
theorem trimTrailingPartialUtf8_eq {before rest : List UInt8} {lead : UInt8} (hlead : isContinuation lead = false)
    (hrest : ∀ b ∈ rest, isContinuation b = true) (hwidth : rest.length ≤ maxUtf8Width) :
    trimTrailingPartialUtf8 (before ++ lead :: rest) =
      if rest.length + 1 < leadWidth lead then before else before ++ lead :: rest := by
  have hat : (before ++ lead :: rest).getD before.length 0 = lead := by simp
  have hwalk : walkBack (before ++ lead :: rest) maxUtf8Width (before ++ lead :: rest).length = before.length + 1 := by
    have hlength : (before ++ lead :: rest).length = before.length + 1 + rest.length := by
      rw [List.length_append, List.length_cons]
      omega
    rw [hlength]
    refine walkBack_eq (by rw [hat]; exact hlead) _ _ hwidth ?_
    intro k hk
    have hget : (before ++ lead :: rest).getD (before.length + 1 + k) 0 = rest[k] := by
      have hsub : before.length + 1 + k - before.length = k + 1 := by omega
      rw [List.getD_eq_getElem?_getD, List.getElem?_append_right (by omega), hsub, List.getElem?_cons_succ,
        List.getElem?_eq_getElem hk, Option.getD_some]
    rw [hget]
    exact hrest _ (List.getElem_mem hk)
  unfold trimTrailingPartialUtf8
  rw [if_neg (by simp), hwalk]
  simp only [hat, List.take_left, List.length_append, List.length_cons]
  by_cases h : rest.length + 1 < leadWidth lead
  · rw [if_pos (by omega), if_pos h]
  · rw [if_neg (by omega), if_neg h]

theorem length_utf8_encode_le (c : Char) : (utf8.encode c).length ≤ maxUtf8Width := by
  rw [show utf8.encode c = String.utf8EncodeChar c from rfl, String.length_utf8EncodeChar]
  exact c.utf8Size_le_four

/-- Of whole characters and the begin of one, the whole ones are left. -/
theorem trimTrailingPartialUtf8_cut {before after : List Char} {piece : List UInt8} (hpiece : utf8.Begun after piece) :
    trimTrailingPartialUtf8 (utf8.encodeAll before ++ piece) = utf8.encodeAll before := by
  by_cases hnil : piece = []
  · subst hnil
    rw [List.append_nil]
    cases before using List.reverseRecOn with
    | nil => rfl
    | append_singleton before c =>
      obtain ⟨lead, rest, hshape, hlead, hwidth, hrest⟩ := utf8.encode_shape c
      have hlength := length_utf8_encode_le c
      rw [hshape, List.length_cons] at hwidth hlength
      rw [SelfSync.encodeAll_append, SelfSync.encodeAll_cons, SelfSync.encodeAll_nil, List.append_nil, hshape,
        trimTrailingPartialUtf8_eq hlead hrest (by omega), if_neg]
      exact fun hlt => absurd hwidth (Nat.ne_of_gt hlt)
  · obtain ⟨lead, rest, rfl, hlead, hwidth, hrest⟩ := hpiece.shape utf8 hnil
    rw [List.length_cons] at hwidth
    have hle : leadWidth lead ≤ maxUtf8Width := by
      unfold leadWidth maxUtf8Width
      split_ifs <;> omega
    have hlt : rest.length + 1 < leadWidth lead := hwidth
    rw [trimTrailingPartialUtf8_eq hlead hrest (by omega), if_pos hlt]

/-- Of the end of a character and whole ones, the whole ones are left. -/
theorem trimLeadingContinuationUtf8_cut {before after : List Char} {piece : List UInt8} (hpiece : utf8.Ending before piece) :
    trimLeadingContinuationUtf8 (piece ++ utf8.encodeAll after) = utf8.encodeAll after :=
  utf8.dropWhile_follows hpiece

/-- The trimmed begin of a text is its longest prefix that fits. -/
theorem trimTrailingPartialUtf8_take {text : List Char} {cap : Nat} (hcap : cap ≤ (utf8.encodeAll text).length) :
    ∃ shown, trimTrailingPartialUtf8 ((utf8.encodeAll text).take cap) = utf8.encodeAll shown ∧
      utf8.LongestPrefix text cap shown := by
  obtain ⟨before, after, piece, htext, htake, hpiece⟩ := utf8.take_encodeAll text cap
  refine ⟨before, ?_, utf8.longestPrefix_of_take hcap htext htake hpiece⟩
  rw [htake, trimTrailingPartialUtf8_cut hpiece]

/-- The trimmed end of a text is its longest suffix that fits. -/
theorem trimLeadingContinuationUtf8_rtake {text : List Char} {cap : Nat} (hcap : cap ≤ (utf8.encodeAll text).length) :
    ∃ shown, trimLeadingContinuationUtf8 ((utf8.encodeAll text).rtake cap) = utf8.encodeAll shown ∧
      utf8.LongestSuffix text cap shown := by
  obtain ⟨before, after, piece, htext, hdrop, hpiece⟩ := utf8.drop_encodeAll text ((utf8.encodeAll text).length - cap)
  refine ⟨after, ?_, utf8.longestSuffix_of_drop hcap htext hdrop hpiece⟩
  rw [List.rtake, hdrop, trimLeadingContinuationUtf8_cut hpiece]

/-! ## `TextRetainer` -/

/-- What is offered: bytes, or a text. -/
inductive TextChunk where
  | bytes (data : List UInt8)
  | str (text : String)

/-- The bytes of a chunk. -/
def TextChunk.data : TextChunk → List UInt8
  | .bytes data => data
  | .str text => encodeUtf8 text.toList

/-- What was dropped (`bounded/omitted.py`), as far as a retainer says it. -/
inductive Omitted where
  | none
  | exact (count : Nat)
  deriving DecidableEq

/-- How many were dropped. -/
def Omitted.count : Omitted → Nat
  | .none => 0
  | .exact count => count

/-- `assert_budget`, of an `int`. -/
def assertBudget (value : Int) (name : String) : Except String Unit :=
  if value < 0 then .error s!"{name} must be a non-negative integer, got {value}" else .ok ()

structure TextRetainer where
  headCap : Nat
  tailCap : Nat
  headChunks : List (List UInt8)
  headHeld : Nat
  tailChunks : List (List UInt8)
  tailHeld : Nat
  total : Nat

/-- What `push` reports. -/
structure PushReport where
  kept : Bool
  truncated : Bool
  deriving DecidableEq

/-- What `finish` reports. -/
structure RetainedText where
  text : String
  truncated : Bool
  omittedBytes : Omitted
  deriving DecidableEq

namespace TextRetainer

/-- `__init__` -/
def new (headBytes tailBytes : Int) : Except String TextRetainer := do
  assertBudget headBytes "head_bytes"
  assertBudget tailBytes "tail_bytes"
  return ⟨headBytes.toNat, tailBytes.toNat, [], 0, [], 0, 0⟩

def head (maxBytes : Int) : Except String TextRetainer := new maxBytes 0

def tail (maxBytes : Int) : Except String TextRetainer := new 0 maxBytes

def headTail (headBytes tailBytes : Int) : Except String TextRetainer := new headBytes tailBytes

/-- Bytes the budget would have dropped by the time `total` were seen. -/
def omittedAt (r : TextRetainer) (total : Nat) : Nat :=
  let headLen := min total r.headCap
  let tailLen := min (total - headLen) r.tailCap
  total - headLen - tailLen

/-- The part of `push` that fills the head. -/
def pushHead (r : TextRetainer) (data : List UInt8) : TextRetainer :=
  let room := r.headCap - r.headHeld
  let take := min room data.length
  if take = 0 then r else { r with headChunks := r.headChunks ++ [data.take take], headHeld := r.headHeld + take }

/-- The loop of `push` over the tail: whole chunks that have slid out of the window go. -/
def popChunks (cap : Nat) : List (List UInt8) → Nat → List (List UInt8) × Nat
  | [], held => ([], held)
  | chunk :: chunks, held =>
    if held - chunk.length ≥ cap then popChunks cap chunks (held - chunk.length) else (chunk :: chunks, held)

/-- The trim of the chunk that is the first then. -/
def trimFirst (cap : Nat) : List (List UInt8) → Nat → List (List UInt8) × Nat
  | [], held => ([], held)
  | chunk :: chunks, held =>
    if held > cap then (chunk.drop (held - cap) :: chunks, held - (held - cap)) else (chunk :: chunks, held)

/-- The part of `push` that moves the tail. -/
def pushTail (r : TextRetainer) (data : List UInt8) : TextRetainer :=
  if r.tailCap = 0 then r
  else
    let popped := popChunks r.tailCap (r.tailChunks ++ [data]) (r.tailHeld + data.length)
    let trimmed := trimFirst r.tailCap popped.1 popped.2
    { r with tailChunks := trimmed.1, tailHeld := trimmed.2 }

def push (r : TextRetainer) (chunk : TextChunk) : TextRetainer × PushReport :=
  let data := chunk.data
  let before := r.total
  let r := pushTail (pushHead { r with total := r.total + data.length } data) data
  let droppedNow := decide (r.omittedAt r.total > r.omittedAt before)
  (r, ⟨!droppedNow, decide (r.omittedAt r.total > 0)⟩)

def finish (r : TextRetainer) : RetainedText :=
  let headLen := min r.total r.headCap
  let tailLen := min (r.total - headLen) r.tailCap
  let head := r.headChunks.flatten
  let tail := if tailLen = 0 then [] else r.tailChunks.flatten.drop (r.tailHeld - tailLen)
  if r.omittedAt r.total = 0 then ⟨String.ofList (decodeReplace (head ++ tail)), false, .none⟩
  else
    let keptHead := trimTrailingPartialUtf8 head
    let keptTail := trimLeadingContinuationUtf8 tail
    let omitted := r.total - keptHead.length - keptTail.length
    ⟨String.ofList (decodeReplace keptHead) ++ String.ofList (decodeReplace keptTail), decide (omitted > 0),
      if omitted = 0 then .none else .exact omitted⟩

/-- Chunks offered one after another. -/
def pushAll (r : TextRetainer) (chunks : List TextChunk) : TextRetainer := chunks.foldl (fun r chunk => (r.push chunk).1) r

/-- The bytes it holds. -/
def retained (r : TextRetainer) : Nat := r.headChunks.flatten.length + r.tailChunks.flatten.length

/-! ### What a retainer holds -/

/-- The retainer holds the begin and the end of a stream, each as far as its budget goes. -/
structure Holds (r : TextRetainer) (data : List UInt8) : Prop where
  total_eq : r.total = data.length
  head_eq : r.headChunks.flatten = data.take r.headCap
  headHeld_eq : r.headHeld = r.headChunks.flatten.length
  tail_eq : r.tailChunks.flatten = data.rtake r.tailCap
  tailHeld_eq : r.tailHeld = r.tailChunks.flatten.length

theorem pushHead_caps (r : TextRetainer) (data : List UInt8) :
    (r.pushHead data).headCap = r.headCap ∧ (r.pushHead data).tailCap = r.tailCap ∧ (r.pushHead data).total = r.total ∧
      (r.pushHead data).tailChunks = r.tailChunks ∧ (r.pushHead data).tailHeld = r.tailHeld := by
  unfold pushHead
  dsimp only
  split <;> exact ⟨rfl, rfl, rfl, rfl, rfl⟩

theorem pushTail_caps (r : TextRetainer) (data : List UInt8) :
    (r.pushTail data).headCap = r.headCap ∧ (r.pushTail data).tailCap = r.tailCap ∧ (r.pushTail data).total = r.total ∧
      (r.pushTail data).headChunks = r.headChunks ∧ (r.pushTail data).headHeld = r.headHeld := by
  unfold pushTail
  dsimp only
  split <;> exact ⟨rfl, rfl, rfl, rfl, rfl⟩

theorem pushHead_head {r : TextRetainer} {seen : List UInt8} (hhead : r.headChunks.flatten = seen.take r.headCap)
    (hheld : r.headHeld = r.headChunks.flatten.length) (data : List UInt8) :
    (r.pushHead data).headChunks.flatten = (seen ++ data).take r.headCap ∧
      (r.pushHead data).headHeld = (r.pushHead data).headChunks.flatten.length := by
  have hroom : r.headCap - r.headHeld = r.headCap - seen.length := by
    rw [hheld, hhead, List.length_take]
    omega
  have htake : data.take (min (r.headCap - seen.length) data.length) = data.take (r.headCap - seen.length) :=
    (List.take_eq_take_min).symm
  unfold pushHead
  dsimp only
  rw [hroom]
  split
  · rename_i hzero
    refine ⟨?_, hheld⟩
    rw [hzero, List.take_zero] at htake
    rw [hhead, List.take_append, ← htake, List.append_nil]
  · dsimp only
    rw [htake, List.flatten_append, List.flatten_singleton, hhead, List.take_append]
    refine ⟨rfl, ?_⟩
    rw [hheld, hhead, List.length_append, List.length_take (l := data)]

/-- The window over what is held is the window over the whole stream. -/
theorem rtake_append_of_le {α : Type*} {n : Nat} (a : List α) {b : List α} (h : n ≤ b.length) : (a ++ b).rtake n = b.rtake n := by
  have hcut : (a ++ b).length - n = a.length + (b.length - n) := by
    rw [List.length_append]
    omega
  rw [List.rtake, List.rtake, hcut, List.drop_append, List.drop_of_length_le (by omega), Nat.add_sub_cancel_left, List.nil_append]

theorem length_rtake {α : Type*} (n : Nat) (l : List α) : (l.rtake n).length = min n l.length := by
  rw [List.rtake, List.length_drop]
  omega

theorem rtake_rtake_append {α : Type*} (n : Nat) (seen data : List α) : (seen.rtake n ++ data).rtake n = (seen ++ data).rtake n := by
  by_cases h : n ≤ seen.length
  · have hsplit : seen ++ data = seen.take (seen.length - n) ++ (seen.rtake n ++ data) := by
      rw [← List.append_assoc, List.rtake, List.take_append_drop]
    have hle : n ≤ (seen.rtake n ++ data).length := by
      rw [List.length_append, length_rtake, min_eq_left h]
      omega
    rw [hsplit, rtake_append_of_le _ hle]
  · have hall : seen.rtake n = seen := by
      rw [List.rtake, Nat.sub_eq_zero_of_le (by omega), List.drop_zero]
    rw [hall]

/-- The chunks that go are not of the window, and the first that is left reaches into it. -/
theorem popChunks_spec (cap : Nat) (chunks : List (List UInt8)) :
    ∃ gone left, chunks = gone ++ left ∧ popChunks cap chunks chunks.flatten.length = (left, left.flatten.length) ∧
      (gone = [] ∨ cap ≤ left.flatten.length) ∧ ∀ chunk rest, left = chunk :: rest → rest.flatten.length < cap := by
  induction chunks with
  | nil => exact ⟨[], [], rfl, rfl, .inl rfl, fun chunk rest h => absurd h.symm (List.cons_ne_nil _ _)⟩
  | cons chunk chunks ih =>
    have hrest : (chunk :: chunks).flatten.length - chunk.length = chunks.flatten.length := by
      rw [List.flatten_cons, List.length_append, Nat.add_sub_cancel_left]
    rw [popChunks, hrest]
    by_cases hcap : chunks.flatten.length ≥ cap
    · obtain ⟨gone, left, rfl, hpop, hgone, hleft⟩ := ih
      rw [if_pos hcap]
      refine ⟨chunk :: gone, left, rfl, hpop, .inr ?_, hleft⟩
      obtain rfl | hle := hgone
      · exact hcap
      · exact hle
    · rw [if_neg hcap]
      refine ⟨[], chunk :: chunks, rfl, rfl, .inl rfl, ?_⟩
      intro first rest heq
      obtain ⟨-, rfl⟩ := List.cons.inj heq
      exact Nat.lt_of_not_le hcap

theorem trimFirst_spec {cap : Nat} {chunks : List (List UInt8)}
    (h : ∀ chunk rest, chunks = chunk :: rest → rest.flatten.length < cap) :
    (trimFirst cap chunks chunks.flatten.length).1.flatten = chunks.flatten.rtake cap ∧
      (trimFirst cap chunks chunks.flatten.length).2 = (trimFirst cap chunks chunks.flatten.length).1.flatten.length := by
  cases chunks with
  | nil => exact ⟨(List.rtake_nil _).symm, rfl⟩
  | cons chunk rest =>
    have hrest := h chunk rest rfl
    rw [trimFirst, List.flatten_cons]
    split
    · rename_i hmore
      rw [List.length_append] at hmore ⊢
      dsimp only
      constructor
      · rw [List.rtake, List.length_append, List.flatten_cons, List.drop_append_of_le_length (by omega)]
      · rw [List.flatten_cons, List.length_append, List.length_drop]
        omega
    · rename_i hmore
      rw [List.rtake, Nat.sub_eq_zero_of_le (Nat.le_of_not_lt hmore), List.drop_zero]
      exact ⟨rfl, rfl⟩

theorem pushTail_tail {r : TextRetainer} {seen : List UInt8} (htail : r.tailChunks.flatten = seen.rtake r.tailCap)
    (hheld : r.tailHeld = r.tailChunks.flatten.length) (data : List UInt8) :
    (r.pushTail data).tailChunks.flatten = (seen ++ data).rtake r.tailCap ∧
      (r.pushTail data).tailHeld = (r.pushTail data).tailChunks.flatten.length := by
  unfold pushTail
  split
  · rename_i hzero
    rw [hzero] at htail ⊢
    exact ⟨by rw [htail, List.rtake_zero, List.rtake_zero], hheld⟩
  · obtain ⟨gone, left, hsplit, hpop, hgone, hleft⟩ := popChunks_spec r.tailCap (r.tailChunks ++ [data])
    have hlength : r.tailHeld + data.length = (r.tailChunks ++ [data]).flatten.length := by
      rw [List.flatten_append, List.flatten_singleton, List.length_append, hheld]
    have hwindow : left.flatten.rtake r.tailCap = (seen ++ data).rtake r.tailCap := by
      have hall : (r.tailChunks ++ [data]).flatten = gone.flatten ++ left.flatten := by rw [hsplit, List.flatten_append]
      rw [List.flatten_append, List.flatten_singleton, htail] at hall
      rw [← rtake_rtake_append, hall]
      obtain rfl | hle := hgone
      · rfl
      · rw [rtake_append_of_le _ hle]
    obtain ⟨htrim, hlen⟩ := trimFirst_spec hleft
    dsimp only
    rw [hlength, hpop]
    exact ⟨htrim.trans hwindow, hlen⟩

/-- A push keeps what is held: the begin and the end of the stream so far. -/
theorem Holds.push {r : TextRetainer} {seen : List UInt8} (h : r.Holds seen) (chunk : TextChunk) :
    (r.push chunk).1.Holds (seen ++ chunk.data) ∧ (r.push chunk).1.headCap = r.headCap ∧ (r.push chunk).1.tailCap = r.tailCap := by
  obtain ⟨hcap₁, htail₁, htotal₁, hchunks₁, hheld₁⟩ := pushHead_caps { r with total := r.total + chunk.data.length } chunk.data
  obtain ⟨hcap₂, htail₂, htotal₂, hchunks₂, hheld₂⟩ :=
    pushTail_caps (pushHead { r with total := r.total + chunk.data.length } chunk.data) chunk.data
  obtain ⟨hhead, hheadHeld⟩ := pushHead_head (r := { r with total := r.total + chunk.data.length }) h.head_eq h.headHeld_eq chunk.data
  obtain ⟨htail, htailHeld⟩ := pushTail_tail (r := pushHead { r with total := r.total + chunk.data.length } chunk.data)
    (by rw [hchunks₁, htail₁]; exact h.tail_eq) (by rw [hheld₁, hchunks₁]; exact h.tailHeld_eq) chunk.data
  refine ⟨⟨?_, ?_, ?_, ?_, htailHeld⟩, hcap₂.trans hcap₁, htail₂.trans htail₁⟩
  · rw [List.length_append, ← h.total_eq]
    exact htotal₂.trans htotal₁
  · exact (congrArg List.flatten hchunks₂).trans (hhead.trans (by rw [← hcap₁, ← hcap₂]; rfl))
  · exact hheld₂.trans (hheadHeld.trans (by rw [← hchunks₂]; rfl))
  · exact htail.trans (by rw [← htail₂]; rfl)

theorem Holds.pushAll {r : TextRetainer} {seen : List UInt8} (h : r.Holds seen) (chunks : List TextChunk) :
    (r.pushAll chunks).Holds (seen ++ chunks.flatMap TextChunk.data) ∧ (r.pushAll chunks).headCap = r.headCap ∧
      (r.pushAll chunks).tailCap = r.tailCap := by
  induction chunks generalizing r seen with
  | nil => exact ⟨by rw [List.flatMap_nil, List.append_nil]; exact h, rfl, rfl⟩
  | cons chunk chunks ih =>
    obtain ⟨hholds, hhead, htail⟩ := h.push chunk
    obtain ⟨hholds', hhead', htail'⟩ := ih hholds
    rw [List.flatMap_cons, ← List.append_assoc]
    exact ⟨hholds', hhead'.trans hhead, htail'.trans htail⟩

theorem Holds.retained_le {r : TextRetainer} {data : List UInt8} (h : r.Holds data) : r.retained ≤ r.headCap + r.tailCap := by
  rw [retained, h.head_eq, h.tail_eq, List.length_take, length_rtake]
  omega

/-! ### What a retainer shows -/

theorem new_ok (headBytes tailBytes : Nat) : new headBytes tailBytes = .ok ⟨headBytes, tailBytes, [], 0, [], 0, 0⟩ := by
  have haccept : ∀ (n : Nat) (name : String), assertBudget n name = .ok () := fun n name => if_neg (by omega)
  rw [new, haccept, haccept]
  rfl

theorem holds_new (headBytes tailBytes : Nat) : Holds ⟨headBytes, tailBytes, [], 0, [], 0, 0⟩ [] :=
  ⟨rfl, List.take_nil.symm, rfl, (List.rtake_nil _).symm, rfl⟩

/-- If nothing was dropped, the head and the tail after it are the stream. -/
theorem Holds.finish_whole {r : TextRetainer} {data : List UInt8} (h : r.Holds data) (hfits : data.length ≤ r.headCap + r.tailCap) :
    r.finish = ⟨String.ofList (decodeReplace data), false, .none⟩ := by
  have hnone : r.omittedAt r.total = 0 := by
    unfold omittedAt
    rw [h.total_eq]
    dsimp only
    omega
  have hheld : r.tailHeld = min r.tailCap data.length := by rw [h.tailHeld_eq, h.tail_eq, length_rtake]
  have hjoin : r.headChunks.flatten ++
      (if min (r.total - min r.total r.headCap) r.tailCap = 0 then []
        else r.tailChunks.flatten.drop (r.tailHeld - min (r.total - min r.total r.headCap) r.tailCap)) = data := by
    rw [h.head_eq, h.tail_eq, h.total_eq, hheld]
    by_cases hhead : data.length ≤ r.headCap
    · rw [if_pos (by omega), List.append_nil, List.take_of_length_le hhead]
    · split
      · rename_i hzero
        exact absurd hzero (by omega)
      · have hcut : data.length - r.tailCap +
            (min r.tailCap data.length - min (data.length - min data.length r.headCap) r.tailCap) = r.headCap := by omega
        rw [List.rtake, List.drop_drop, hcut, List.take_append_drop]
  unfold finish
  dsimp only
  rw [if_pos hnone, hjoin]

/-- If something was dropped, the head and the tail are shown without what they hold of a character. -/
theorem Holds.finish_cut {r : TextRetainer} {data : List UInt8} (h : r.Holds data) (hmore : r.headCap + r.tailCap < data.length) :
    r.finish.text = String.ofList (decodeReplace (trimTrailingPartialUtf8 (data.take r.headCap))) ++
        String.ofList (decodeReplace (trimLeadingContinuationUtf8 (data.rtake r.tailCap))) ∧
      r.finish.omittedBytes.count = data.length - (trimTrailingPartialUtf8 (data.take r.headCap)).length -
        (trimLeadingContinuationUtf8 (data.rtake r.tailCap)).length := by
  have hsome : r.omittedAt r.total ≠ 0 := by
    unfold omittedAt
    rw [h.total_eq]
    dsimp only
    omega
  have hheld : r.tailHeld = r.tailCap := by
    rw [h.tailHeld_eq, h.tail_eq, length_rtake]
    omega
  have hwindow : min (data.length - min data.length r.headCap) r.tailCap = r.tailCap := by omega
  have htail : (if min (r.total - min r.total r.headCap) r.tailCap = 0 then []
      else r.tailChunks.flatten.drop (r.tailHeld - min (r.total - min r.total r.headCap) r.tailCap)) = data.rtake r.tailCap := by
    rw [h.total_eq, hwindow, hheld, Nat.sub_self, List.drop_zero, h.tail_eq]
    split
    · rename_i hzero
      rw [hzero, List.rtake_zero]
    · rfl
  unfold finish
  dsimp only
  rw [if_neg hsome, htail, h.head_eq, h.total_eq]
  refine ⟨rfl, ?_⟩
  split
  · rename_i hzero
    exact hzero.symm
  · rfl

theorem Holds.finish_text_eq {r r' : TextRetainer} {data : List UInt8} (h : r.Holds data) (h' : r'.Holds data)
    (hhead : r'.headCap = r.headCap) (htail : r'.tailCap = r.tailCap) : r'.finish.text = r.finish.text := by
  by_cases hfits : data.length ≤ r.headCap + r.tailCap
  · rw [h.finish_whole hfits, h'.finish_whole (by rw [hhead, htail]; exact hfits)]
  · have hmore : r.headCap + r.tailCap < data.length := Nat.lt_of_not_le hfits
    rw [(h.finish_cut hmore).1, (h'.finish_cut (by rw [hhead, htail]; exact hmore)).1, hhead, htail]

/-- Of a text that does not fit, the longest begin and end of whole characters are shown, and all else is counted. -/
theorem Holds.shows_cut {r : TextRetainer} {text : List Char} (h : r.Holds (encodeUtf8 text))
    (hmore : r.headCap + r.tailCap < (encodeUtf8 text).length) :
    ∃ before after, utf8.LongestPrefix text r.headCap before ∧ utf8.LongestSuffix text r.tailCap after ∧
      r.finish.text = String.ofList (before ++ after) ∧
      r.finish.omittedBytes.count + (encodeUtf8 (before ++ after)).length = (encodeUtf8 text).length := by
  obtain ⟨before, hbefore, hprefix⟩ := @trimTrailingPartialUtf8_take text r.headCap (by
    rw [← encodeUtf8_eq]
    omega)
  obtain ⟨after, hafter, hsuffix⟩ := @trimLeadingContinuationUtf8_rtake text r.tailCap (by
    rw [← encodeUtf8_eq]
    omega)
  obtain ⟨htext, hcount⟩ := h.finish_cut hmore
  rw [encodeUtf8_eq text, hbefore, hafter, ← encodeUtf8_eq text, ← encodeUtf8_eq before, ← encodeUtf8_eq after] at hcount
  rw [encodeUtf8_eq text, hbefore, hafter, ← encodeUtf8_eq before, ← encodeUtf8_eq after] at htext
  refine ⟨before, after, hprefix, hsuffix, ?_, ?_⟩
  · rw [htext, decodeReplace_encodeUtf8, decodeReplace_encodeUtf8, String.ofList_append]
  · have hfits := hprefix.fits
    have hfits' := hsuffix.fits
    rw [← encodeUtf8_eq] at hfits hfits'
    rw [hcount, encodeUtf8_eq (before ++ after), SelfSync.encodeAll_append, ← encodeUtf8_eq, ← encodeUtf8_eq, List.length_append]
    omega

/-- What a retainer holds and shows of a text, in whatever chunks its bytes arrive. No more is ever held than the two budgets; what is
shown does not depend on the chunks; a text that fits is shown whole, of any other the longest begin and the longest end of whole
characters that their budgets take; and what was omitted, with what is shown, is all of it. -/
theorem finish_shows (headBytes tailBytes : Nat) (text : String) (chunks : List TextChunk)
    (hchunks : chunks.flatMap TextChunk.data = encodeUtf8 text.toList) :
    ∃ r, new headBytes tailBytes = .ok r ∧
      (∀ earlier, earlier <+: chunks → (r.pushAll earlier).retained ≤ headBytes + tailBytes) ∧
      (∀ others : List TextChunk, others.flatMap TextChunk.data = encodeUtf8 text.toList →
        (r.pushAll others).finish.text = (r.pushAll chunks).finish.text) ∧
      ((encodeUtf8 text.toList).length ≤ headBytes + tailBytes → (r.pushAll chunks).finish.text = text) ∧
      (headBytes + tailBytes < (encodeUtf8 text.toList).length → ∃ before after,
        utf8.LongestPrefix text.toList headBytes before ∧ utf8.LongestSuffix text.toList tailBytes after ∧
        (r.pushAll chunks).finish.text = String.ofList (before ++ after)) ∧
      (r.pushAll chunks).finish.omittedBytes.count + (encodeUtf8 (r.pushAll chunks).finish.text.toList).length =
        (encodeUtf8 text.toList).length := by
  refine ⟨_, new_ok headBytes tailBytes, ?_, ?_, ?_⟩
  · intro earlier _
    obtain ⟨hholds, hhead, htail⟩ := (holds_new headBytes tailBytes).pushAll earlier
    have hle := hholds.retained_le
    rwa [hhead, htail] at hle
  · intro others hothers
    obtain ⟨hholds, hhead, htail⟩ := (holds_new headBytes tailBytes).pushAll chunks
    obtain ⟨hholds', hhead', htail'⟩ := (holds_new headBytes tailBytes).pushAll others
    rw [hchunks] at hholds
    rw [hothers] at hholds'
    exact hholds.finish_text_eq hholds' (hhead'.trans hhead.symm) (htail'.trans htail.symm)
  · obtain ⟨hholds, hhead, htail⟩ := (holds_new headBytes tailBytes).pushAll chunks
    rw [List.nil_append, hchunks] at hholds
    generalize pushAll ⟨headBytes, tailBytes, [], 0, [], 0, 0⟩ chunks = r at hholds hhead htail
    by_cases hfits : (encodeUtf8 text.toList).length ≤ headBytes + tailBytes
    · have hfinish := hholds.finish_whole (by rw [hhead, htail]; exact hfits)
      rw [decodeReplace_encodeUtf8, String.ofList_toList] at hfinish
      refine ⟨fun _ => by rw [hfinish], fun hmore => absurd hfits (Nat.not_le_of_lt hmore), ?_⟩
      rw [hfinish]
      exact Nat.zero_add _
    · obtain ⟨before, after, hprefix, hsuffix, htext, hcount⟩ :=
        hholds.shows_cut (by rw [hhead, htail]; exact Nat.lt_of_not_le hfits)
      rw [hhead] at hprefix
      rw [htail] at hsuffix
      refine ⟨fun h => absurd h hfits, fun _ => ⟨before, after, hprefix, hsuffix, htext⟩, ?_⟩
      rw [htext, String.toList_ofList]
      exact hcount

/-- The case of a character that a chunk and both budgets cut. -/
theorem finish_shows_cut_character :
    ∃ r, new 2 2 = .ok r ∧ (r.pushAll [.bytes [0x61, 0xc3], .bytes [0xa9, 0xc3], .bytes [0xa9, 0x62]]).finish.omittedBytes.count +
      (encodeUtf8 (r.pushAll [.bytes [0x61, 0xc3], .bytes [0xa9, 0xc3], .bytes [0xa9, 0x62]]).finish.text.toList).length = 6 := by
  obtain ⟨r, hnew, -, -, -, -, hcount⟩ :=
    finish_shows 2 2 "aééb" [.bytes [0x61, 0xc3], .bytes [0xa9, 0xc3], .bytes [0xa9, 0x62]] (by decide)
  exact ⟨r, hnew, hcount⟩

end TextRetainer

end Pydsh
