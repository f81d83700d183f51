import Pydsh.Bounded.Retention
import Pydsh.Lib.Machine
import Pydsh.Lib.Occurrence
import Pydsh.Python.CodePoints

/-!
# Whose output a command returns

`send` and `_read_until` of `capability/terminal.py`, with the shell at the other end of the pipe. A command is written with an `echo` of
a marker behind it, and its text is what comes until the marker does.

Each piece that is read is decoded by itself, a command that was given up on goes on printing into the pipe, two calls read the same
pipe, and the newline behind the marker can be left in it. In a run that is `Orderly` every text is what the command's own bytes come to,
with no cut (`outputs_belong`). The shell is whatever prints in the order of the commands, each of them anything at any time from when
those before it have ended on, so also in the background.
-/

namespace Pydsh

/-! ## Decoding in pieces -/

theorem utf8Ranges_le (lead : UInt8) : ∀ range ∈ utf8Ranges lead, 0x80 ≤ range.1 := by
  unfold utf8Ranges
  split_ifs <;> simp

theorem matchRanges_append {x : UInt8} (hx : x < 0x80) (rest : List UInt8) {ranges : List (UInt8 × UInt8)}
    (h : ∀ range ∈ ranges, 0x80 ≤ range.1) (bytes : List UInt8) :
    matchRanges ranges (bytes ++ x :: rest) = matchRanges ranges bytes ∧ matchRanges ranges bytes ≤ bytes.length := by
  induction bytes generalizing ranges with
  | nil =>
    cases ranges with
    | nil => simp [matchRanges]
    | cons range ranges =>
      have hnot : ¬(range.1 ≤ x ∧ x ≤ range.2) := fun hin =>
        UInt8.not_le.mpr (UInt8.lt_of_le_of_lt hin.1 hx) (h range List.mem_cons_self)
      simp [matchRanges, hnot]
  | cons byte bytes ih =>
    cases ranges with
    | nil => simp [matchRanges]
    | cons range ranges =>
      obtain ⟨heq, hle⟩ := ih (fun other hother => h other (List.mem_cons_of_mem _ hother))
      simp only [List.cons_append, matchRanges, List.length_cons]
      split
      · exact ⟨by rw [heq], Nat.succ_le_succ hle⟩
      · exact ⟨rfl, Nat.zero_le _⟩

/-- Bytes begin with a character, or the first of them is replaced, with those that go on with it. -/
theorem decodeReplace_cases (lead : UInt8) (more : List UInt8) :
    (∃ c rest, lead :: more = String.utf8EncodeChar c ++ rest) ∨
    (∀ c rest, lead :: more ≠ String.utf8EncodeChar c ++ rest) ∧
      decodeReplace (lead :: more) = '\uFFFD' :: decodeReplace (more.drop (matchRanges (utf8Ranges lead) more)) := by
  cases hdecode : (lead :: more).toByteArray.utf8DecodeChar? 0 with
  | some c =>
    obtain ⟨rest, hrest⟩ := ByteArray.exists_of_utf8DecodeChar?_eq_some hdecode
    exact Or.inl ⟨c, rest.data.toList, by simpa using congrArg (fun b : ByteArray => b.data.toList) hrest⟩
  | none =>
    refine Or.inr ⟨fun c rest heq => ?_, by rw [decodeReplace, hdecode]⟩
    rw [heq, List.toByteArray_append, ByteArray.utf8DecodeChar?_utf8EncodeChar_append] at hdecode
    cases hdecode

theorem decodeReplace_append_ascii {x : UInt8} (hx : x < 0x80) (rest data : List UInt8) :
    decodeReplace (data ++ x :: rest) = decodeReplace data ++ decodeReplace (x :: rest) := by
  induction hlength : data.length using Nat.strongRecOn generalizing data with
  | _ n ih =>
    cases data with
    | nil => rw [List.nil_append, decodeReplace.eq_1, List.nil_append]
    | cons lead more =>
      rcases decodeReplace_cases lead more with ⟨c, behind, heq⟩ | ⟨hno, heq⟩
      · have hless : behind.length < n := by
          have hpos := utf8.length_encode_pos c
          rw [← hlength, heq, List.length_append]
          exact Nat.lt_add_of_pos_left hpos
        rw [heq, List.append_assoc, decodeReplace_encode_append, decodeReplace_encode_append, ih _ hless behind rfl, List.cons_append]
      · obtain ⟨hmatch, hle⟩ := matchRanges_append hx rest (utf8Ranges_le lead) more
        have hless : (more.drop (matchRanges (utf8Ranges lead) more)).length < n := by
          rw [← hlength, List.length_drop, List.length_cons]
          omega
        rcases decodeReplace_cases lead (more ++ x :: rest) with ⟨c, behind, hbegins⟩ | ⟨-, hreplaced⟩
        · obtain ⟨first, follow, hshape, -, -, hfollow⟩ := utf8EncodeChar_shape c
          rcases List.append_eq_append_iff.mp (show (lead :: more) ++ x :: rest = String.utf8EncodeChar c ++ behind from hbegins) with
            ⟨cut, hcut, hrest⟩ | ⟨cut, hcut, -⟩
          · -- the character would go on with the ASCII byte
            cases cut with
            | nil => exact absurd (by rw [hcut, List.append_nil, List.append_nil]) (hno c [])
            | cons y cut =>
              rw [List.cons_append, List.cons.injEq] at hrest
              rw [hshape, List.cons_append, List.cons.injEq] at hcut
              have hcontinues := hfollow x (by rw [hcut.2, hrest.1]; simp)
              rw [(lead_one x (Nat.le_of_lt_succ hx)).1] at hcontinues
              exact absurd hcontinues Bool.false_ne_true
          · exact absurd hcut (hno c cut)
        · rw [List.cons_append, hreplaced, heq, hmatch, List.drop_append_of_le_length hle, ih _ hless _ rfl, List.cons_append]

theorem encode_ascii {c : Char} (hc : c.utf8Size = 1) : ∃ x, x < 0x80 ∧ String.utf8EncodeChar c = [x] := by
  refine ⟨_, ?_, String.utf8EncodeChar_eq_singleton hc⟩
  have hval := Char.utf8Size_eq_one_iff.mp hc
  rw [UInt32.le_iff_toNat_le] at hval
  rw [UInt8.lt_iff_toNat_lt, UInt32.toNat_toUInt8]
  exact Nat.lt_succ_of_le ((Nat.mod_le _ _).trans hval)

theorem decodeReplace_split {c : Char} (hc : c.utf8Size = 1) {data : List UInt8} {u v : List Char}
    (h : decodeReplace data = u ++ c :: v) :
    ∃ before rest, data = before ++ String.utf8EncodeChar c ++ rest ∧ decodeReplace before = u ∧ decodeReplace rest = v := by
  obtain ⟨x, hx, hencode⟩ := encode_ascii hc
  induction hlength : data.length using Nat.strongRecOn generalizing data u with
  | _ n ih =>
    cases data with
    | nil =>
      rw [decodeReplace.eq_1] at h
      exact absurd h.symm (by simp)
    | cons lead more =>
      rcases decodeReplace_cases lead more with ⟨d, behind, heq⟩ | ⟨-, heq⟩
      · have hless : behind.length < n := by
          have hpos := utf8.length_encode_pos d
          rw [← hlength, heq, List.length_append]
          exact Nat.lt_add_of_pos_left hpos
        rw [heq, decodeReplace_encode_append] at h
        rw [heq]
        cases u with
        | nil =>
          obtain ⟨rfl, hv⟩ := List.cons.inj h
          exact ⟨[], behind, by rw [List.nil_append], decodeReplace.eq_1, hv⟩
        | cons d' u =>
          obtain ⟨rfl, hu⟩ := List.cons.inj h
          obtain ⟨before, rest, hbehind, hbefore, hrest⟩ := ih _ hless hu rfl
          refine ⟨String.utf8EncodeChar d ++ before, rest, by rw [hbehind]; simp only [List.append_assoc], ?_, hrest⟩
          rw [decodeReplace_encode_append, hbefore]
      · have hless : (more.drop (matchRanges (utf8Ranges lead) more)).length < n := by
          rw [← hlength, List.length_drop, List.length_cons]
          omega
        rw [heq] at h
        cases u with
        | nil =>
          obtain ⟨rfl, -⟩ := List.cons.inj h
          exact absurd hc (by decide)
        | cons d' u =>
          obtain ⟨rfl, hu⟩ := List.cons.inj h
          obtain ⟨before, rest, hbehind, hbefore, hrest⟩ := ih _ hless hu rfl
          rw [hencode, List.append_assoc, List.singleton_append] at hbehind
          rw [hencode]
          have hdata : lead :: more = lead :: more.take (matchRanges (utf8Ranges lead) more) ++ before ++ x :: rest := by
            rw [List.append_assoc, ← hbehind, List.cons_append, List.take_append_drop]
          refine ⟨lead :: more.take (matchRanges (utf8Ranges lead) more) ++ before, rest, ?_, ?_, hrest⟩
          · rw [hdata, List.append_assoc _ [x] rest, List.singleton_append]
          · -- what stands behind the byte is the same on both sides
            have hall := decodeReplace_append_ascii hx rest (lead :: more.take (matchRanges (utf8Ranges lead) more) ++ before)
            rw [← hdata, heq, hbehind, decodeReplace_append_ascii hx, hbefore, ← List.cons_append] at hall
            exact (List.append_cancel_right hall).symm

/-- What is found in the text of some bytes is found in that of more, and at the same place. -/
theorem decodeReplace_append_of_ascii {m : List Char} (hm : ∀ c ∈ m, c.utf8Size = 1) (hne : m ≠ []) {data : List UInt8}
    {u v : List Char} (h : decodeReplace data = u ++ m ++ v) (more : List UInt8) :
    ∃ v', decodeReplace (data ++ more) = u ++ m ++ v' := by
  induction m generalizing data u with
  | nil => exact absurd rfl hne
  | cons c m ih =>
    have hc := hm c List.mem_cons_self
    rw [List.append_assoc, List.cons_append] at h
    obtain ⟨before, rest, rfl, rfl, hrest⟩ := decodeReplace_split hc h
    obtain ⟨x, hx, hencode⟩ := encode_ascii hc
    have hfound : decodeReplace (before ++ String.utf8EncodeChar c ++ rest ++ more) =
        decodeReplace before ++ c :: decodeReplace (rest ++ more) := by
      have hbyte := decodeReplace_encode_append c (rest ++ more)
      rw [hencode] at hbyte ⊢
      rw [List.singleton_append] at hbyte
      rw [List.append_assoc, List.append_assoc, List.singleton_append, decodeReplace_append_ascii hx, hbyte]
    by_cases hm' : m = []
    · subst hm'
      exact ⟨_, by rw [hfound, List.append_assoc, List.singleton_append]⟩
    · obtain ⟨v', hv'⟩ := ih (fun d hd => hm d (List.mem_cons_of_mem _ hd)) hm' (u := []) (by rw [hrest, List.nil_append])
      exact ⟨v', by rw [hfound, hv', List.nil_append, List.append_assoc, List.cons_append]⟩

/-- What is cut off at a mark in the text of some bytes is cut off so in that of more. -/
theorem splitFirst_decodeReplace_append {m : List Char} (hm : ∀ c ∈ m, c.utf8Size = 1) (hne : m ≠ []) {data : List UInt8}
    {parts : List Char × List Char} (h : Occurrence.splitFirst m (decodeReplace data) = some parts) (more : List UInt8) :
    ∃ rest, Occurrence.splitFirst m (decodeReplace (data ++ more)) = some (parts.1, rest) := by
  have hfirst := Occurrence.first_of_splitFirst h
  obtain ⟨rest, hrest⟩ := decodeReplace_append_of_ascii hm hne hfirst.occurs more
  exact ⟨rest, Occurrence.splitFirst_eq_some_iff.mpr (hrest ▸ hfirst.behind rest)⟩

/-! ## The reader -/

/-- What ends a line for `str.splitlines`. -/
def isLineBreak (c : Char) : Bool :=
  c == '\n' || c == '\r' || c == '\x0b' || c == '\x0c' || c == '\x1c' || c == '\x1d' || c == '\x1e' || c == '\u0085' ||
    c == '\u2028' || c == '\u2029'

/-- `str.splitlines`. -/
def splitLines : List Char → List (List Char)
  | [] => []
  | '\r' :: '\n' :: rest => [] :: splitLines rest
  | c :: rest =>
    if isLineBreak c then [] :: splitLines rest
    else
      match splitLines rest with
      | [] => [[c]]
      | line :: lines => (c :: line) :: lines

/-- The digits that the marker of a command takes from a `uuid4`. -/
structure DoneMarker where
  digits : Fin 12 → Fin 16

/-- `__pydsh_done_…__`. -/
def DoneMarker.text (marker : DoneMarker) : List Char :=
  "__pydsh_done_".toList ++ List.ofFn (fun i => PyText.hexDigit (marker.digits i)) ++ "__".toList

/-- What `_read_until` returns of what it collected: what is before the marker, without the lines that have the marker in them. -/
def DoneMarker.textOf (marker : DoneMarker) (collected : List Char) : List Char :=
  let collected :=
    match Occurrence.splitFirst marker.text collected with
    | some parts => parts.1
    | none => collected
  ['\n'].intercalate ((splitLines collected).filter (fun line => (Occurrence.splitFirst marker.text line).isNone))

/-! ## The terminal -/

/-- A command that was sent, and what it has printed: at its end the line with the marker, and in the background anything behind that. -/
structure TerminalCommand where
  marker : DoneMarker
  printed : List UInt8 := []
  done : Bool := false

/-- A call of `send` in `_read_until`: what it has collected, whether another one has taken data since it last read, and, for the
statements, the bytes it has read. -/
structure TerminalReader where
  command : Nat
  marker : DoneMarker
  collected : List Char := []
  robbed : Bool := false
  got : List UInt8 := []

/-- What a call returned, for which command, of which bytes, and whether it had found the marker. -/
structure TerminalText where
  command : Nat
  got : List UInt8
  text : List Char
  ended : Bool

/-- The commands in the order in which the shell has them, what lies in the pipe, the calls that read it, what calls have returned, and
whether the session noticed its end and the shell is over. -/
structure TerminalStream where
  commands : List TerminalCommand := []
  pipe : List UInt8 := []
  readers : List TerminalReader := []
  texts : List TerminalText := []
  closed : Bool := false
  exited : Bool := false

/-- What happens: a command is sent, with its marker; the `k`th command prints, or ends; the shell ends; a call reads some bytes, runs out
of time, is told of the end of the output, or raises since another one waits for the same pipe. -/
inductive StreamAction where
  | send (marker : DoneMarker)
  | print (k : Nat) (bytes : List UInt8)
  | finish (k : Nat)
  | exit
  | read (place n : Nat)
  | timeout (place : Nat)
  | ended (place : Nat)
  | clash (place : Nat)

namespace TerminalStream

/-- The shell has come to the command. -/
def reached (st : TerminalStream) (k : Nat) : Bool := !st.exited && (st.commands.take k).all (·.done)

/-- A command prints. -/
def put (st : TerminalStream) (k : Nat) (command : TerminalCommand) (bytes : List UInt8) (done : Bool) : TerminalStream :=
  { st with commands := st.commands.set k { command with printed := command.printed ++ bytes, done }, pipe := st.pipe ++ bytes }

/-- A call returns. -/
def leave (st : TerminalStream) (place : Nat) (r : TerminalReader) (ended : Bool) : TerminalStream :=
  { st with
    readers := st.readers.eraseIdx place
    texts := st.texts ++ [{ command := r.command, got := r.got, text := r.marker.textOf r.collected, ended }] }

/-- A call has read some bytes, and looks for its marker. -/
def take (st : TerminalStream) (place : Nat) (r : TerminalReader) (n : Nat) : TerminalStream :=
  let data := st.pipe.take n
  let r := { r with collected := r.collected ++ decodeReplace data, robbed := false, got := r.got ++ data }
  let others := st.readers.map (fun other => { other with robbed := true })
  let st := { st with pipe := st.pipe.drop n, readers := others.set place r }
  if (Occurrence.splitFirst r.marker.text r.collected).isSome then st.leave place r true else st

/-- One step; `none` where the action cannot happen. A call is given no data at the end of the output, and where it was woken for data
that another one has taken. -/
def step (st : TerminalStream) : StreamAction → Option TerminalStream
  | .send marker =>
    if st.closed then none
    else some { st with
      commands := st.commands ++ [{ marker }]
      readers := st.readers ++ [{ command := st.commands.length, marker }] }
  | .print k bytes =>
    match st.commands[k]? with
    | none => none
    | some command => if st.reached k then some (st.put k command bytes command.done) else none
  | .finish k =>
    match st.commands[k]? with
    | none => none
    | some command =>
      if st.reached k && !command.done then some (st.put k command (encodeUtf8 (command.marker.text ++ ['\n'])) true) else none
  | .exit => some { st with exited := true }
  | .read place n =>
    match st.readers[place]? with
    | none => none
    | some r => if 0 < n ∧ n ≤ 4096 ∧ n ≤ st.pipe.length then some (st.take place r n) else none
  | .timeout place => (st.readers[place]?).map (fun r => st.leave place r false)
  | .ended place =>
    match st.readers[place]? with
    | none => none
    | some r =>
      if r.robbed || st.exited && st.pipe.isEmpty then some (leave { st with closed := true } place r false) else none
  | .clash place => if 1 < st.readers.length then some { st with readers := st.readers.eraseIdx place } else none

/-- What a call returned is what the bytes it read come to in one piece, and these are its command's first; and where it found the
marker, it is what all that the command prints comes to. -/
def Belongs (st : TerminalStream) (t : TerminalText) : Prop :=
  ∃ command, st.commands[t.command]? = some command ∧ t.got <+: command.printed ∧
    t.text = command.marker.textOf (decodeReplace t.got) ∧
    (t.ended = true → t.text = command.marker.textOf (decodeReplace command.printed))

/-- A command is sent when nobody reads and nothing is left in the pipe; only the last command prints; and no read ends within a
character. -/
def Orderly (st : TerminalStream) : StreamAction → Prop
  | .send _ => st.readers = [] ∧ st.pipe = []
  | .print k _ => k + 1 = st.commands.length
  | .finish k => k + 1 = st.commands.length
  | .read place n => ∀ r, st.readers[place]? = some r →
    decodeReplace (r.got ++ st.pipe.take n) = decodeReplace r.got ++ decodeReplace (st.pipe.take n)
  | _ => True

/-! ## Texts that belong to their commands -/

theorem utf8Size_marker (marker : DoneMarker) : ∀ c ∈ marker.text, c.utf8Size = 1 := by
  intro c hc
  unfold DoneMarker.text at hc
  simp only [List.mem_append, List.mem_ofFn] at hc
  have hhex : ∀ digit : Fin 16, (PyText.hexDigit digit).utf8Size = 1 := by decide +kernel
  have hbegin : "__pydsh_done_".toList.all (fun c => decide (c.utf8Size = 1)) = true := by decide +kernel
  have hend : "__".toList.all (fun c => decide (c.utf8Size = 1)) = true := by decide +kernel
  rcases hc with (hc | ⟨i, rfl⟩) | hc
  · exact of_decide_eq_true (List.all_eq_true.mp hbegin c hc)
  · exact hhex (marker.digits i)
  · exact of_decide_eq_true (List.all_eq_true.mp hend c hc)

theorem marker_ne_nil (marker : DoneMarker) : marker.text ≠ [] := by
  unfold DoneMarker.text
  simp

/-- The text that ends with a marker is that of any more bytes. -/
theorem textOf_append (marker : DoneMarker) {got : List UInt8}
    (h : (Occurrence.splitFirst marker.text (decodeReplace got)).isSome = true) (more : List UInt8) :
    marker.textOf (decodeReplace (got ++ more)) = marker.textOf (decodeReplace got) := by
  obtain ⟨parts, hparts⟩ := Option.isSome_iff_exists.mp h
  obtain ⟨rest, hrest⟩ := splitFirst_decodeReplace_append (utf8Size_marker marker) (marker_ne_nil marker) hparts more
  simp only [DoneMarker.textOf, hparts, hrest]

/-- A call reads its command from the first byte on, and the rest of it is in the pipe. -/
def Follows (st : TerminalStream) (r : TerminalReader) : Prop :=
  r.command + 1 = st.commands.length ∧ r.collected = decodeReplace r.got ∧
    ∃ command, st.commands[r.command]? = some command ∧ command.marker = r.marker ∧ r.got ++ st.pipe = command.printed

/-- What is returned was the begin of what the command printed, up to the marker if that was found. -/
def Holds (st : TerminalStream) (t : TerminalText) : Prop :=
  ∃ command, st.commands[t.command]? = some command ∧ t.got <+: command.printed ∧
    t.text = command.marker.textOf (decodeReplace t.got) ∧
    (t.ended = true → (Occurrence.splitFirst command.marker.text (decodeReplace t.got)).isSome = true)

structure Inv (st : TerminalStream) : Prop where
  reader : st.readers = [] ∨ ∃ r, st.readers = [r] ∧ st.Follows r
  texts : ∀ t ∈ st.texts, st.Holds t

variable {st st' : TerminalStream} {k place n : Nat} {command : TerminalCommand} {bytes : List UInt8} {done ended : Bool}
  {r : TerminalReader} {t : TerminalText}

theorem Holds.belongs (h : st.Holds t) : st.Belongs t := by
  obtain ⟨command, hcommand, ⟨more, hmore⟩, htext, hended⟩ := h
  refine ⟨command, hcommand, ⟨more, hmore⟩, htext, fun hfound => ?_⟩
  rw [htext, ← hmore, textOf_append command.marker (hended hfound) more]

theorem Holds.mono (h : st.Holds t) (hmore : ∀ (k : Nat) (command : TerminalCommand), st.commands[k]? = some command →
    ∃ command', st'.commands[k]? = some command' ∧ command'.marker = command.marker ∧ command.printed <+: command'.printed) :
    st'.Holds t := by
  obtain ⟨command, hcommand, hgot, htext, hended⟩ := h
  obtain ⟨command', hcommand', hmarker, hprinted⟩ := hmore _ command hcommand
  rw [← hmarker] at htext hended
  exact ⟨command', hcommand', hgot.trans hprinted, htext, hended⟩

theorem Inv.send (h : st.Inv) (marker : DoneMarker) (hreaders : st.readers = []) (hpipe : st.pipe = []) :
    Inv { st with
      commands := st.commands ++ [{ marker }]
      readers := st.readers ++ [{ command := st.commands.length, marker }] } := by
  refine ⟨Or.inr ⟨_, by rw [hreaders, List.nil_append], ?_, decodeReplace.eq_1.symm, { marker }, ?_, rfl, ?_⟩,
    fun t ht => (h.texts t ht).mono ?_⟩
  · simp
  · simp
  · simp [hpipe]
  · intro k command hcommand
    have hlt := (List.getElem?_eq_some_iff.mp hcommand).1
    exact ⟨command, (List.getElem?_append_left hlt).trans hcommand, rfl, List.prefix_refl _⟩

theorem Inv.put (h : st.Inv) (hcommand : st.commands[k]? = some command) (hlast : k + 1 = st.commands.length) :
    (st.put k command bytes done).Inv := by
  have hlt : k < st.commands.length := by omega
  refine ⟨h.reader.imp id ?_, fun t ht => (h.texts t ht).mono ?_⟩
  · rintro ⟨r, hr, hcount, hcollected, command', hcommand', hmarker, hprinted⟩
    obtain rfl : r.command = k := by omega
    obtain rfl := Option.some.inj (hcommand.symm.trans hcommand')
    refine ⟨r, hr, by simpa [TerminalStream.put] using hcount, hcollected, _, List.getElem?_set_self hlt, hmarker, ?_⟩
    simp only [TerminalStream.put]
    rw [← hprinted, List.append_assoc]
  · intro k' command' hcommand'
    by_cases hk : k' = k
    · subst hk
      obtain rfl := Option.some.inj (hcommand.symm.trans hcommand')
      exact ⟨_, List.getElem?_set_self hlt, rfl, List.prefix_append _ _⟩
    · exact ⟨command', by simpa [TerminalStream.put, List.getElem?_set_ne (Ne.symm hk)] using hcommand', rfl, List.prefix_refl _⟩

theorem Inv.only (h : st.Inv) (hr : st.readers[place]? = some r) : place = 0 ∧ st.readers = [r] ∧ st.Follows r := by
  rcases h.reader with hnone | ⟨r', hone, hfollows⟩
  · simp [hnone] at hr
  · rw [hone] at hr
    rw [List.getElem?_singleton] at hr
    split at hr
    · rename_i hplace
      obtain rfl := Option.some.inj hr
      exact ⟨hplace, hone, hfollows⟩
    · contradiction

theorem Inv.leave (h : st.Inv) (hr : st.readers[place]? = some r)
    (hended : ended = true → (Occurrence.splitFirst r.marker.text r.collected).isSome = true) : (st.leave place r ended).Inv := by
  obtain ⟨rfl, hone, -, hcollected, command, hcommand, hmarker, hprinted⟩ := h.only hr
  refine ⟨Or.inl (by simp [TerminalStream.leave, hone]), fun t ht => ?_⟩
  rcases List.mem_append.mp ht with ht | ht
  · exact h.texts t ht
  · obtain rfl := List.mem_singleton.mp ht
    refine ⟨command, hcommand, ⟨st.pipe, hprinted⟩, ?_, ?_⟩
    · rw [hmarker, ← hcollected]
    · rw [hmarker, ← hcollected]
      exact hended

theorem Inv.take (h : st.Inv) (hr : st.readers[place]? = some r)
    (hwhole : decodeReplace (r.got ++ st.pipe.take n) = decodeReplace r.got ++ decodeReplace (st.pipe.take n)) :
    (st.take place r n).Inv := by
  obtain ⟨rfl, hone, hcount, hcollected, command, hcommand, hmarker, hprinted⟩ := h.only hr
  have hread : Inv { st with
      pipe := st.pipe.drop n
      readers := [{ r with
        collected := r.collected ++ decodeReplace (st.pipe.take n)
        robbed := false
        got := r.got ++ st.pipe.take n }] } := by
    refine ⟨Or.inr ⟨_, rfl, hcount, ?_, command, hcommand, hmarker, ?_⟩, h.texts⟩
    · simp only [hcollected, hwhole]
    · rw [List.append_assoc, List.take_append_drop, hprinted]
  simp only [TerminalStream.take, hone, List.map_cons, List.map_nil, List.set_cons_zero]
  split
  · rename_i hfound
    exact hread.leave rfl (fun _ => hfound)
  · exact hread

theorem Inv.step (h : st.Inv) {a : StreamAction} (hok : st.Orderly a) (hstep : st.step a = some st') : st'.Inv := by
  cases a with
  | send marker =>
    simp only [TerminalStream.step] at hstep
    split at hstep
    · contradiction
    · obtain rfl := Option.some.inj hstep
      exact h.send marker hok.1 hok.2
  | print k bytes =>
    simp only [TerminalStream.step] at hstep
    split at hstep
    · contradiction
    · split at hstep
      · obtain rfl := Option.some.inj hstep
        exact h.put ‹_› hok
      · contradiction
  | finish k =>
    simp only [TerminalStream.step] at hstep
    split at hstep
    · contradiction
    · split at hstep
      · obtain rfl := Option.some.inj hstep
        exact h.put ‹_› hok
      · contradiction
  | exit =>
    obtain rfl := Option.some.inj hstep
    exact ⟨h.reader, h.texts⟩
  | read place n =>
    simp only [TerminalStream.step] at hstep
    split at hstep
    · contradiction
    · rename_i r hr
      split at hstep
      · obtain rfl := Option.some.inj hstep
        exact h.take hr (hok r hr)
      · contradiction
  | timeout place =>
    obtain ⟨r, hr, rfl⟩ := Option.map_eq_some_iff.mp hstep
    exact h.leave hr (fun hended => absurd hended Bool.false_ne_true)
  | ended place =>
    simp only [TerminalStream.step] at hstep
    split at hstep
    · contradiction
    · rename_i r hr
      split at hstep
      · obtain rfl := Option.some.inj hstep
        have hclosed : Inv { st with closed := true } := ⟨h.reader, h.texts⟩
        exact hclosed.leave hr (fun hended => absurd hended Bool.false_ne_true)
      · contradiction
  | clash place =>
    simp only [TerminalStream.step] at hstep
    split at hstep
    · rename_i hmany
      rcases h.reader with hnone | ⟨r, hone, -⟩
      · simp [hnone] at hmany
      · simp [hone] at hmany
    · contradiction

end TerminalStream

/-- In every run in which a command is sent when nobody reads and nothing is left in the pipe, only the last command prints, and no read
ends within a character: what is returned for a command is what the bytes that were read come to in one piece, these are the first that
the command printed, and where the marker was found it is what all that the command prints comes to. -/
theorem outputs_belong {st : TerminalStream} (h : Machine.Reach TerminalStream.step TerminalStream.Orderly {} st) :
    ∀ t ∈ st.texts, st.Belongs t := by
  have hinv : st.Inv := h.invariant ⟨Or.inl rfl, fun t ht => absurd ht List.not_mem_nil⟩
    (fun _ _ _ hinv hok hstep => hinv.step hok hstep)
  exact fun t ht => (hinv.texts t ht).belongs

namespace TerminalStream

instance (st : TerminalStream) : ∀ a, Decidable (st.Orderly a)
  | .send _ => inferInstanceAs (Decidable (st.readers = [] ∧ st.pipe = []))
  | .print k _ => inferInstanceAs (Decidable (k + 1 = st.commands.length))
  | .finish k => inferInstanceAs (Decidable (k + 1 = st.commands.length))
  | .read place n => inferInstanceAs (Decidable (∀ r ∈ st.readers[place]?,
      decodeReplace (r.got ++ st.pipe.take n) = decodeReplace r.got ++ decodeReplace (st.pipe.take n)))
  | .exit => isTrue trivial
  | .timeout _ => isTrue trivial
  | .ended _ => isTrue trivial
  | .clash _ => isTrue trivial

instance (st : TerminalStream) (t : TerminalText) : Decidable (st.Belongs t) :=
  inferInstanceAs (Decidable (∃ command, st.commands[t.command]? = some command ∧ t.got <+: command.printed ∧
    t.text = command.marker.textOf (decodeReplace t.got) ∧
    (t.ended = true → t.text = command.marker.textOf (decodeReplace command.printed))))

end TerminalStream

namespace TerminalRuns

/-- A marker of one digit. -/
def marker (digit : Fin 16) : DoneMarker := ⟨fun _ => digit⟩

/-- A command prints a text. -/
def say (k : Nat) (text : String) : StreamAction := .print k (encodeUtf8 text.toList)

/-- A command is read in two pieces, the second with a part of its marker; the next one does not come to its end in time. -/
def inOrder : List StreamAction :=
  [.send (marker 0), say 0 "é\n", .read 0 2, .finish 0, .read 0 10, .read 0 19, .send (marker 1), say 1 "b", .read 0 1, .timeout 0]

/-- A read ends between the two bytes of a character. -/
def cut : List StreamAction := [.send (marker 0), say 0 "é", .read 0 1, .read 0 1, .finish 0, .read 0 28]

/-- A command is given up on, and prints and ends when the next one was sent. -/
def late : List StreamAction :=
  [.send (marker 0), .timeout 0, .send (marker 1), say 0 "late\n", .finish 0, .finish 1, .read 0 61]

/-- A read ends between a marker and its newline. -/
def behind : List StreamAction :=
  [.send (marker 0), say 0 "a\n", .finish 0, .read 0 29, .send (marker 1), say 1 "b\n", .finish 1, .read 0 31]

/-- Two commands are sent at a time, so that the second call raises, and its command's output is left to the next call. -/
def overlapping : List StreamAction :=
  [.send (marker 0), .send (marker 1), .clash 1, say 0 "a\n", .finish 0, .read 0 30, say 1 "b\n", .finish 1, .send (marker 2), .finish 2,
    .read 0 58]

/-- What the calls of a run returned. -/
def returned (as : List StreamAction) : Option (List String) :=
  (Machine.exec TerminalStream.step {} as).map (fun st => st.texts.map (fun t => String.ofList t.text))

end TerminalRuns

open TerminalRuns in
theorem outputs_belong_inOrder : returned inOrder = some ["é", "b"] ∧
    ∃ st, Machine.exec TerminalStream.step {} inOrder = some st ∧ ∀ t ∈ st.texts, st.Belongs t := by
  have hruns : (Machine.execIf TerminalStream.step TerminalStream.Orderly {} inOrder).isSome = true := by decide +kernel
  obtain ⟨st, hst⟩ := Option.isSome_iff_exists.mp hruns
  exact ⟨by decide +kernel, st, (Machine.meets_of_execIf hst).1, outputs_belong (.execIf .start hst)⟩

open TerminalRuns in
/-- A character that was cut is replaced twice; a command that follows one that was given up on, or one that was sent while another read,
returns the other's output and marker; and a newline that was left is returned by the next command. -/
theorem outputs_not_belong :
    returned cut = some ["\uFFFD\uFFFD"] ∧ returned late = some ["", "late\n__pydsh_done_000000000000__"] ∧
    returned behind = some ["a", "\nb"] ∧ returned overlapping = some ["a", "b\n__pydsh_done_111111111111__"] ∧
    ∀ as ∈ [cut, late, behind, overlapping],
      ∃ st, Machine.exec TerminalStream.step {} as = some st ∧ ¬∀ t ∈ st.texts, st.Belongs t := by
  refine ⟨by decide +kernel, by decide +kernel, by decide +kernel, by decide +kernel, fun as has => ?_⟩
  have hall : [cut, late, behind, overlapping].all (fun as => (Machine.exec TerminalStream.step {} as).any
      (fun st => decide (¬∀ t ∈ st.texts, st.Belongs t))) = true := by decide +kernel
  obtain ⟨st, hst, hnot⟩ := (Option.any_eq_true _ _).mp (List.all_eq_true.mp hall as has)
  exact ⟨st, hst, of_decide_eq_true hnot⟩

end Pydsh
