import Pydsh.Agent.Assembler
import Pydsh.Lib.Ledger
import Pydsh.Llm.Translate

/-!
# What the assembler keeps of a stream

The frames of a stream as words under a key, the kind and the index of a block: what a start frame or a delta says, and what ends
(`StreamChunk.op`). The accounts of these words (`Ledger.spans`) say what the blocks of the stream are, by the stream alone. The
assembler keeps them, up to one thing: it holds one block of text and one of reasoning at a time, whatever their indices. Where the
frames of a kind keep to the block of it that is open (`InTurn`), the blocks are those of the stream (`blocks_conserved`).
-/

namespace Pydsh

open Ledger

/-- What a frame says of a block. -/
structure Delta where
  id : Option String := none
  name : Option String := none
  text : String := ""

/-- The kind that a `block_type` names. -/
def blockKind? : Option String → Option BlockKind
  | some "text" => some .text
  | some "reasoning" => some .reasoning
  | some "tool-call" => some .tool
  | _ => none

theorem blockKind?_eq_some {name : Option String} {kind : BlockKind} (h : blockKind? name = some kind) :
    (name = some "text" ∧ kind = .text) ∨ (name = some "reasoning" ∧ kind = .reasoning) ∨
      (name = some "tool-call" ∧ kind = .tool) := by
  unfold blockKind? at h
  split at h
  · exact .inl ⟨rfl, (Option.some.inj h).symm⟩
  · exact .inr (.inl ⟨rfl, (Option.some.inj h).symm⟩)
  · exact .inr (.inr ⟨rfl, (Option.some.inj h).symm⟩)
  · cases h

namespace StreamChunk

variable (chunk : StreamChunk)

/-- A block of a kind, under the index of the frame. -/
def key (kind : BlockKind) : BlockKind × Int := (kind, chunk.index.getD 0)

/-- What a frame says, and under which key. -/
def op : Option (Op (BlockKind × Int) Delta) :=
  match chunk.type with
  | .blockStart => (blockKind? chunk.blockType).map (fun kind => .tell (chunk.key kind) {})
  | .textDelta => some (.tell (chunk.key .text) { text := chunk.text.getD "" })
  | .reasoningDelta => some (.tell (chunk.key .reasoning) { text := chunk.reasoning.getD "" })
  | .toolCallDelta => some (.tell (chunk.key .tool)
    { id := chunk.toolCallId
      name := chunk.toolCallName
      text := chunk.argumentsDelta.getD "" })
  | .blockEnd => (blockKind? chunk.blockType).map (fun kind => .close (chunk.key kind))
  | .usage => none
  | .finish => some .closeAll

end StreamChunk

/-- The concatenation of the deltas, in their order. -/
def deltaText (told : List Delta) : String := told.foldl (fun s d => s ++ d.text) ""

/-- The tool call that deltas make: the last id and the last name they give, and their arguments. -/
def deltaCall (told : List Delta) : ToolCallBlock where
  id := told.foldl (fun id d => d.id.getD id) ""
  name := told.foldl (fun name d => d.name.getD name) ""
  arguments := deltaText told

/-- A tool call of which nothing came. -/
def ToolCallBlock.isShell (call : ToolCallBlock) : Bool := call.id == "" && call.name == "" && call.arguments == ""

/-- The block of an account. A tool call of which nothing came is left out, unless it was closed under its own key. -/
def accountBlock (e : Entry (BlockKind × Int) Delta) : Option ContentBlock :=
  if e.status = .live then none
  else match e.key.1 with
    | .text => some (.text (deltaText e.told))
    | .reasoning => some (.reasoning (deltaText e.told))
    | .tool => if e.status = .swept && (deltaCall e.told).isShell then none else some (.toolCall (deltaCall e.told))

/-- What the frames of a stream say. -/
def streamOps (chunks : List StreamChunk) : List (Op (BlockKind × Int) Delta) := chunks.filterMap (·.op)

/-- The blocks of a stream, in the order in which they are opened: each has what is said under its kind and index from its opening until
it is closed, those that are open yet left out. -/
def streamBlocks (ops : List (Op (BlockKind × Int) Delta)) : List ContentBlock :=
  (spans (fun _ => false) ops).filterMap accountBlock

namespace BlockAssembler

variable {a : BlockAssembler} {ops : List (Op (BlockKind × Int) Delta)}

/-! ## Open blocks as open accounts -/

/-- The open accounts of a kind. -/
def openOf (kind : BlockKind) (ops : List (Op (BlockKind × Int) Delta)) : List (Entry (BlockKind × Int) Delta × Nat) :=
  (live (ops.foldl put [])).filter (fun p => p.1.key.1 = kind)

/-- An open account, as `_OpenBlock`. -/
def accountOpen (p : Entry (BlockKind × Int) Delta × Nat) : OpenBlock where
  index := p.1.key.2
  order := p.2
  text := deltaText p.1.told

/-- An open account, as `_OpenToolCall`. -/
def accountCall (p : Entry (BlockKind × Int) Delta × Nat) : OpenToolCall where
  index := p.1.key.2
  order := p.2
  id := (deltaCall p.1.told).id
  name := (deltaCall p.1.told).name
  arguments := (deltaCall p.1.told).arguments

/-- The assembler holds the accounts of what was said: the open ones of each kind, and the blocks of the closed ones. -/
structure Holds (a : BlockAssembler) (ops : List (Op (BlockKind × Int) Delta)) : Prop where
  text : a.text.toList = (openOf .text ops).map accountOpen
  reasoning : a.reasoning.toList = (openOf .reasoning ops).map accountOpen
  calls : a.openCalls = (openOf .tool ops).map accountCall
  next : a.nextOrder = (ops.foldl put []).length
  closed : a.closed.Perm (results accountBlock (ops.foldl put []))

theorem closing_accountBlock : Closing accountBlock := by
  intro e he
  simp [accountBlock, he]

theorem Holds.start : Holds {} [] := ⟨rfl, rfl, rfl, rfl, .nil⟩

theorem isOpen_iff_openOf {k : BlockKind × Int} : isOpen (ops.foldl put []) k = true ↔ k ∈ (openOf k.1 ops).map (·.1.key) := by
  rw [isOpen_iff_live, List.mem_map, List.mem_map]
  constructor
  · rintro ⟨p, hp, rfl⟩
    exact ⟨p, List.mem_filter.mpr ⟨hp, by simp⟩, rfl⟩
  · rintro ⟨p, hp, hk⟩
    exact ⟨p, (List.mem_filter.mp hp).1, hk⟩

theorem openOf_tell (kind : BlockKind) (k : BlockKind × Int) (x : Delta) (ops : List (Op (BlockKind × Int) Delta)) :
    openOf kind (ops ++ [.tell k x]) = (openOf kind ops).map (fun p => (p.1.hear (.tell k x), p.2)) ++
      ((opening (ops.foldl put []) (.tell k x)).zipIdx (ops.foldl put []).length).filter (fun p => p.1.key.1 = kind) := by
  rw [openOf, List.foldl_concat, live_tell, List.filter_append, List.filter_map, openOf]
  congr 2
  exact List.filter_congr (fun p _ => by simp)

theorem map_hear_of_ne {l : List (Entry (BlockKind × Int) Delta × Nat)} {k : BlockKind × Int} (h : ∀ p ∈ l, p.1.key ≠ k)
    (x : Delta) : l.map (fun p => (p.1.hear (.tell k x), p.2)) = l := by
  have hsame : ∀ p ∈ l, (p.1.hear (.tell k x), p.2) = id p := by
    intro p hp
    rw [Entry.hear_tell_of_ne (h p hp)]
    rfl
  rw [List.map_congr_left hsame, List.map_id]

/-- A word under a key leaves the open accounts of another kind. -/
theorem openOf_tell_ne {kind : BlockKind} {k : BlockKind × Int} (hne : k.1 ≠ kind) (ops : List (Op (BlockKind × Int) Delta))
    (x : Delta) : openOf kind (ops ++ [.tell k x]) = openOf kind ops := by
  have hothers : ∀ p ∈ openOf kind ops, p.1.key ≠ k := by
    rintro p hp rfl
    exact hne (by simpa using (List.mem_filter.mp hp).2)
  rw [openOf_tell, map_hear_of_ne hothers, opening]
  split <;> simp [hne]

theorem openOf_tell_open {k : BlockKind × Int} (h : isOpen (ops.foldl put []) k = true) (x : Delta) :
    openOf k.1 (ops ++ [.tell k x]) = (openOf k.1 ops).map (fun p => (p.1.hear (.tell k x), p.2)) := by
  simp [openOf_tell, opening, h]

theorem openOf_tell_new {k : BlockKind × Int} (h : isOpen (ops.foldl put []) k = false) (x : Delta) :
    openOf k.1 (ops ++ [.tell k x]) = openOf k.1 ops ++ [(⟨k, [x], .live⟩, (ops.foldl put []).length)] := by
  have hothers : ∀ p ∈ openOf k.1 ops, p.1.key ≠ k := by
    intro p hp hk
    have hopen := isOpen_iff_openOf.mpr (List.mem_map.mpr ⟨p, hp, hk⟩)
    rw [h] at hopen
    cases hopen
  rw [openOf_tell, map_hear_of_ne hothers]
  simp [opening, h]

theorem openOf_close (kind : BlockKind) (ops : List (Op (BlockKind × Int) Delta)) (k : BlockKind × Int) :
    openOf kind (ops ++ [.close k]) = (openOf kind ops).filter (fun p => p.1.key ≠ k) := by
  rw [openOf, List.foldl_concat, live_close, List.filter_filter, openOf, List.filter_filter]
  exact List.filter_congr (fun p _ => Bool.and_comm _ _)

theorem openOf_close_ne {kind : BlockKind} {k : BlockKind × Int} (hne : k.1 ≠ kind) (ops : List (Op (BlockKind × Int) Delta)) :
    openOf kind (ops ++ [.close k]) = openOf kind ops := by
  rw [openOf_close, List.filter_eq_self]
  rintro p hp
  have hkind : p.1.key.1 = kind := by simpa using (List.mem_filter.mp hp).2
  have hkey : p.1.key ≠ k := by
    rintro rfl
    exact hne hkind
  simpa using hkey

theorem openOf_closeAll (kind : BlockKind) (ops : List (Op (BlockKind × Int) Delta)) : openOf kind (ops ++ [.closeAll]) = [] := by
  rw [openOf, List.foldl_concat, live_closeAll, List.filter_nil]

theorem length_tell (ops : List (Op (BlockKind × Int) Delta)) (k : BlockKind × Int) (x : Delta) :
    ((ops ++ [Op.tell k x]).foldl put []).length =
      if isOpen (ops.foldl put []) k then (ops.foldl put []).length else (ops.foldl put []).length + 1 := by
  rw [List.foldl_concat, length_put, opening]
  split <;> simp

theorem results_tell_op (ops : List (Op (BlockKind × Int) Delta)) (k : BlockKind × Int) (x : Delta) :
    results accountBlock ((ops ++ [Op.tell k x]).foldl put []) = results accountBlock (ops.foldl put []) := by
  rw [List.foldl_concat, results_tell closing_accountBlock]

theorem live_of_openOf {kind : BlockKind} {p : Entry (BlockKind × Int) Delta × Nat} (h : p ∈ openOf kind ops) :
    p.1.status = .live ∧ p.1.key.1 = kind := by
  obtain ⟨hlive, hkind⟩ := List.mem_filter.mp h
  exact ⟨(mem_live.mp hlive).2, by simpa using hkind⟩

theorem deltaText_concat (told : List Delta) (x : Delta) : deltaText (told ++ [x]) = deltaText told ++ x.text := by
  simp [deltaText]

/-! ## Text and reasoning -/

/-- What a start frame or a delta makes of the one block of a kind, where the next order is given. -/
def tellLane (was : Option OpenBlock) (next : Nat) (index : Int) (s : String) : OpenBlock :=
  match was with
  | some was => { was with text := was.text ++ s }
  | none => { index, order := next, text := s }

/-- The next order after that. -/
def nextLane (was : Option OpenBlock) (next : Nat) : Nat := if was.isSome then next else next + 1

/-- The block that the text of an open block makes. -/
def laneBlock (kind : BlockKind) (s : String) : ContentBlock := if kind = .text then .text s else .reasoning s

/-- The one account of a kind that is open, where the assembler has one block of it at most. -/
theorem openOf_eq_single {kind : BlockKind} {was : Option OpenBlock} (h : was.toList = (openOf kind ops).map accountOpen) :
    (was = none ∧ openOf kind ops = []) ∨ ∃ p, was = some (accountOpen p) ∧ openOf kind ops = [p] := by
  cases was with
  | none => exact .inl ⟨rfl, List.map_eq_nil_iff.mp h.symm⟩
  | some w =>
    obtain ⟨p, hp, hw⟩ := List.map_eq_singleton_iff.mp h.symm
    exact .inr ⟨p, by rw [hw], hp⟩

theorem key_of_single {kind : BlockKind} {p : Entry (BlockKind × Int) Delta × Nat} {index : Int} (hp : openOf kind ops = [p])
    (hindex : (accountOpen p).index = index) : p.1.key = (kind, index) := by
  have hmem : p ∈ openOf kind ops := by simp [hp]
  exact Prod.ext (live_of_openOf hmem).2 hindex

/-- A word for the one block of a kind that is open, or that opens it. -/
theorem lane_tell {kind : BlockKind} {was : Option OpenBlock} {index : Int} (x : Delta)
    (h : was.toList = (openOf kind ops).map accountOpen) (hindex : ∀ w, was = some w → w.index = index) :
    [tellLane was (ops.foldl put []).length index x.text] = (openOf kind (ops ++ [.tell (kind, index) x])).map accountOpen ∧
      nextLane was (ops.foldl put []).length = ((ops ++ [Op.tell (kind, index) x]).foldl put []).length := by
  rw [length_tell]
  rcases openOf_eq_single h with ⟨rfl, hempty⟩ | ⟨p, rfl, hsingle⟩
  · have hnew : isOpen (ops.foldl put []) (kind, index) = false := by
      rw [Bool.eq_false_iff, ne_eq, isOpen_iff_openOf]
      simp [hempty]
    rw [openOf_tell_new hnew, hnew]
    simp [hempty, tellLane, nextLane, accountOpen, deltaText]
  · have hkey := key_of_single hsingle (hindex _ rfl)
    have hmem : p ∈ openOf kind ops := by simp [hsingle]
    have hlive := (live_of_openOf hmem).1
    have hopen : isOpen (ops.foldl put []) (kind, index) = true := isOpen_iff_openOf.mpr (by simp [hsingle, hkey])
    rw [openOf_tell_open hopen, hopen, hsingle]
    simp [tellLane, nextLane, accountOpen, Entry.hear, Entry.isLive, hlive, hkey, deltaText_concat]

theorem lane_close {kind : BlockKind} {was : Option OpenBlock} {index : Int} (hlane : kind ≠ .tool)
    (h : was.toList = (openOf kind ops).map accountOpen) (hindex : ∀ w, was = some w → w.index = index) :
    openOf kind (ops ++ [.close (kind, index)]) = [] ∧
      (results accountBlock ((ops ++ [Op.close (kind, index)]).foldl put [])).Perm
        (results accountBlock (ops.foldl put []) ++ was.toList.map (fun w => (w.order, laneBlock kind w.text))) := by
  have hfilter : (live (ops.foldl put [])).filter (fun p => p.1.key = (kind, index)) =
      (openOf kind ops).filter (fun p => p.1.key = (kind, index)) := by
    rw [openOf, List.filter_filter]
    refine List.filter_congr (fun p _ => ?_)
    by_cases hk : p.1.key = (kind, index) <;> simp [hk]
  rw [openOf_close, List.foldl_concat]
  have hclosed := results_close closing_accountBlock (ops.foldl put []) (kind, index)
  rw [hfilter] at hclosed
  rcases openOf_eq_single h with ⟨rfl, hempty⟩ | ⟨p, rfl, hsingle⟩
  · simpa [hempty] using hclosed
  · have hkey := key_of_single hsingle (hindex _ rfl)
    refine ⟨by simp [hsingle, hkey], ?_⟩
    have hblock : accountBlock { p.1 with status := .closed } = some (laneBlock kind (deltaText p.1.told)) := by
      cases kind with
      | text => simp [accountBlock, hkey, laneBlock]
      | reasoning => simp [accountBlock, hkey, laneBlock]
      | tool => exact absurd rfl hlane
    have hkept : (openOf kind ops).filter (fun p => p.1.key = (kind, index)) = [p] := by simp [hsingle, hkey]
    rw [hkept, List.filterMap_cons, hblock] at hclosed
    exact hclosed

theorem closeText_none_eq (a : BlockAssembler) : a.closeText none = { a with
    text := none
    closed := a.closed ++ a.text.toList.map (fun w => (w.order, laneBlock .text w.text)) } := by
  cases htext : a.text with
  | none =>
    rw [closeText_none_of_none htext]
    cases a
    cases htext
    simp
  | some w =>
    rw [closeText_none_of_some htext]
    rfl

theorem closeReasoning_none_eq (a : BlockAssembler) : a.closeReasoning none = { a with
    reasoning := none
    closed := a.closed ++ a.reasoning.toList.map (fun w => (w.order, laneBlock .reasoning w.text)) } := by
  cases hreasoning : a.reasoning with
  | none =>
    rw [closeReasoning_none_of_none hreasoning]
    cases a
    cases hreasoning
    simp
  | some w =>
    rw [closeReasoning_none_of_some hreasoning]
    rfl

/-! ## Tool calls -/

/-- What a start frame or a delta does to a tool call. -/
def tellCall (a : BlockAssembler) (index : Int) (x : Delta) : BlockAssembler :=
  { a.openToolCall index with
    openCalls := (a.openToolCall index).openCalls.map (fun call =>
      if call.index == index then { call with
        id := x.id.getD call.id
        name := x.name.getD call.name
        arguments := call.arguments ++ x.text }
      else call) }

theorem deltaCall_concat (told : List Delta) (x : Delta) : deltaCall (told ++ [x]) =
    ⟨x.id.getD (deltaCall told).id, x.name.getD (deltaCall told).name, (deltaCall told).arguments ++ x.text⟩ := by
  simp [deltaCall, deltaText_concat]

/-- A start frame says nothing of a call but that it is there. -/
theorem openToolCall_eq_tellCall (a : BlockAssembler) (index : Int) : a.openToolCall index = a.tellCall index {} := by
  have hsame : ∀ call ∈ (a.openToolCall index).openCalls, (if call.index == index then { call with
      id := ({} : Delta).id.getD call.id
      name := ({} : Delta).name.getD call.name
      arguments := call.arguments ++ ({} : Delta).text } else call) = id call := by
    intro call _
    split <;> simp
  unfold tellCall
  rw [List.map_congr_left hsame, List.map_id]

theorem any_index_iff (h : a.openCalls = (openOf .tool ops).map accountCall) (index : Int) :
    a.openCalls.any (fun call => call.index == index) = isOpen (ops.foldl put []) (.tool, index) := by
  rw [Bool.eq_iff_iff, isOpen_iff_openOf, h, List.any_map, List.any_eq_true, List.mem_map]
  refine exists_congr (fun p => and_congr_right (fun hp => ?_))
  have hkind := (live_of_openOf hp).2
  simp [accountCall, Prod.ext_iff, hkind]

theorem calls_tell (h : a.openCalls = (openOf .tool ops).map accountCall) (hnext : a.nextOrder = (ops.foldl put []).length)
    (index : Int) (x : Delta) :
    (a.tellCall index x).openCalls = (openOf .tool (ops ++ [.tell (.tool, index) x])).map accountCall ∧
      (a.tellCall index x).nextOrder = ((ops ++ [Op.tell (BlockKind.tool, index) x]).foldl put []).length := by
  have hany := any_index_iff h index
  rw [length_tell]
  cases hopen : isOpen (ops.foldl put []) (.tool, index) with
  | true =>
    rw [hopen] at hany
    have hthere := openOf_tell_open hopen x
    simp only [tellCall, openToolCall, hany, if_true]
    refine ⟨?_, hnext⟩
    rw [hthere, h, List.map_map, List.map_map]
    refine List.map_congr_left (fun p hp => ?_)
    obtain ⟨hlive, hkind⟩ := live_of_openOf hp
    by_cases hindex : p.1.key.2 = index
    · have hkey : p.1.key = (.tool, index) := Prod.ext hkind hindex
      simp [accountCall, Entry.hear, Entry.isLive, hlive, hkey, deltaCall_concat]
    · have hkey : p.1.key ≠ (.tool, index) := fun hkey => hindex (congrArg Prod.snd hkey)
      simp [accountCall, Entry.hear_tell_of_ne hkey, hindex]
  | false =>
    rw [hopen] at hany
    have hnew := openOf_tell_new hopen x
    have hothers : ∀ call ∈ a.openCalls, (call.index == index) = false := by simpa using hany
    simp only [tellCall, openToolCall, hany, Bool.false_eq_true, if_false]
    refine ⟨?_, by rw [hnext]⟩
    have hsame : ∀ call ∈ a.openCalls, (if call.index == index then { call with
        id := x.id.getD call.id
        name := x.name.getD call.name
        arguments := call.arguments ++ x.text } else call) = id call := by
      intro call hcall
      rw [hothers call hcall, if_neg Bool.false_ne_true]
      rfl
    rw [hnew, List.map_append, List.map_append, List.map_congr_left hsame, List.map_id, h]
    simp [accountCall, deltaCall, deltaText, hnext]

/-- The open tool call under an index is the open account of its key. -/
theorem find?_index (h : a.openCalls = (openOf .tool ops).map accountCall) (index : Int) :
    a.openCalls.find? (fun call => call.index == index) =
      ((live (ops.foldl put [])).find? (fun p => p.1.key = (.tool, index))).map accountCall := by
  rw [h, List.find?_map, openOf, List.find?_filter]
  congr 2
  funext p
  simp [accountCall, Prod.ext_iff]

theorem calls_close (h : a.openCalls = (openOf .tool ops).map accountCall)
    (hclosed : a.closed.Perm (results accountBlock (ops.foldl put []))) (index : Int) :
    (a.closeToolCall index none).openCalls = (openOf .tool (ops ++ [.close (.tool, index)])).map accountCall ∧
      (a.closeToolCall index none).closed.Perm (results accountBlock ((ops ++ [Op.close (BlockKind.tool, index)]).foldl put [])) := by
  have hfind := find?_index h index
  have hresults := results_close closing_accountBlock (ops.foldl put []) (.tool, index)
  rw [filter_key_live] at hresults
  have hopen : a.openCalls.filter (fun call => call.index != index) =
      (openOf .tool (ops ++ [.close (.tool, index)])).map accountCall := by
    rw [openOf_close, h, List.filter_map]
    refine congrArg _ (List.filter_congr (fun p hp => ?_))
    have hkind := (live_of_openOf hp).2
    rw [Bool.eq_iff_iff]
    simp [accountCall, Prod.ext_iff, hkind]
  rw [List.foldl_concat]
  cases hthere : (live (ops.foldl put [])).find? (fun p => p.1.key = (.tool, index)) with
  | none =>
    rw [hthere] at hfind hresults
    refine ⟨?_, ?_⟩
    · simpa [closeToolCall, hfind] using hopen
    · rw [closeToolCall_none_of_none hfind]
      simpa using hclosed.trans (by simpa using hresults.symm)
  | some p =>
    rw [hthere] at hfind hresults
    have hkey : p.1.key = (.tool, index) := by simpa using List.find?_some hthere
    have hblock : accountBlock { p.1 with status := .closed } = some (.toolCall (deltaCall p.1.told)) := by
      simp [accountBlock, hkey]
    rw [closeToolCall_none_of_find hfind]
    refine ⟨hopen, ?_⟩
    rw [Option.toList_some, List.filterMap_cons, hblock] at hresults
    exact (hclosed.append_right _).trans hresults.symm

/-! ## One frame, and a stream -/

/-- The block of a kind that is open, where there is one at most. -/
def lane (a : BlockAssembler) : BlockKind → Option OpenBlock
  | .text => a.text
  | .reasoning => a.reasoning
  | .tool => none

/-- A key is that of the block of its kind that is open, if it is a kind with one at most. -/
def Current (a : BlockAssembler) (k : BlockKind × Int) : Prop := ∀ w, a.lane k.1 = some w → w.index = k.2

/-- A frame keeps to the block of its kind that is open. -/
def Addresses (a : BlockAssembler) (chunk : StreamChunk) : Prop :=
  ∀ k, (∃ x, chunk.op = some (.tell k x)) ∨ chunk.op = some (.close k) → a.Current k

/-- Every frame of a stream does when it comes. -/
def InTurn : BlockAssembler → List StreamChunk → Prop
  | _, [] => True
  | a, chunk :: chunks => a.Addresses chunk ∧ InTurn (a.push chunk) chunks

/-- What a word does to the assembler. -/
def tell (a : BlockAssembler) (k : BlockKind × Int) (x : Delta) : BlockAssembler :=
  match k.1 with
  | .text => { a with
    text := some (tellLane a.text a.nextOrder k.2 x.text)
    nextOrder := nextLane a.text a.nextOrder }
  | .reasoning => { a with
    reasoning := some (tellLane a.reasoning a.nextOrder k.2 x.text)
    nextOrder := nextLane a.reasoning a.nextOrder }
  | .tool => a.tellCall k.2 x

/-- What the end of a key does to the assembler. -/
def shut (a : BlockAssembler) (k : BlockKind × Int) : BlockAssembler :=
  match k.1 with
  | .text => a.closeText none
  | .reasoning => a.closeReasoning none
  | .tool => a.closeToolCall k.2 none

/-- A word keeps the accounts, where it is for the block of its kind that is open. -/
theorem Holds.tell (h : a.Holds ops) {k : BlockKind × Int} (hcurrent : a.Current k) (x : Delta) :
    (a.tell k x).Holds (ops ++ [.tell k x]) := by
  obtain ⟨kind, index⟩ := k
  have hothers : ∀ other, kind ≠ other → openOf other (ops ++ [.tell (kind, index) x]) = openOf other ops :=
    fun other hne => openOf_tell_ne hne ops x
  have hclosed := h.closed
  rw [← results_tell_op ops (kind, index) x] at hclosed
  cases kind with
  | text =>
    obtain ⟨hlane, hnext⟩ := lane_tell x h.text hcurrent
    rw [← h.next] at hlane hnext
    refine ⟨hlane, ?_, ?_, hnext, hclosed⟩
    · rw [hothers .reasoning (by decide)]
      exact h.reasoning
    · rw [hothers .tool (by decide)]
      exact h.calls
  | reasoning =>
    obtain ⟨hlane, hnext⟩ := lane_tell x h.reasoning hcurrent
    rw [← h.next] at hlane hnext
    refine ⟨?_, hlane, ?_, hnext, hclosed⟩
    · rw [hothers .text (by decide)]
      exact h.text
    · rw [hothers .tool (by decide)]
      exact h.calls
  | tool =>
    obtain ⟨hcalls, hnext⟩ := calls_tell h.calls h.next index x
    have hframe : (a.tellCall index x).text = a.text ∧ (a.tellCall index x).reasoning = a.reasoning ∧
        (a.tellCall index x).closed = a.closed := by
      unfold tellCall openToolCall
      split <;> exact ⟨rfl, rfl, rfl⟩
    refine ⟨?_, ?_, hcalls, hnext, ?_⟩
    · rw [hothers .text (by decide)]
      exact hframe.1 ▸ h.text
    · rw [hothers .reasoning (by decide)]
      exact hframe.2.1 ▸ h.reasoning
    · exact hframe.2.2 ▸ hclosed

/-- The end of a key keeps the accounts, where it is that of the block of its kind that is open. -/
theorem Holds.shut (h : a.Holds ops) {k : BlockKind × Int} (hcurrent : a.Current k) : (a.shut k).Holds (ops ++ [.close k]) := by
  obtain ⟨kind, index⟩ := k
  have hothers : ∀ other, kind ≠ other → openOf other (ops ++ [.close (kind, index)]) = openOf other ops :=
    fun other hne => openOf_close_ne hne ops
  have hnext : ((ops ++ [Op.close (kind, index)]).foldl put []).length = a.nextOrder := by
    rw [List.foldl_concat, length_put, h.next]
    rfl
  cases kind with
  | text =>
    obtain ⟨hlane, hclosed⟩ := lane_close (by decide) h.text hcurrent
    change (a.closeText none).Holds _
    rw [closeText_none_eq]
    refine ⟨by rw [hlane]; rfl, ?_, ?_, hnext.symm, (h.closed.append_right _).trans hclosed.symm⟩
    · rw [hothers .reasoning (by decide)]
      exact h.reasoning
    · rw [hothers .tool (by decide)]
      exact h.calls
  | reasoning =>
    obtain ⟨hlane, hclosed⟩ := lane_close (by decide) h.reasoning hcurrent
    change (a.closeReasoning none).Holds _
    rw [closeReasoning_none_eq]
    refine ⟨?_, by rw [hlane]; rfl, ?_, hnext.symm, (h.closed.append_right _).trans hclosed.symm⟩
    · rw [hothers .text (by decide)]
      exact h.text
    · rw [hothers .tool (by decide)]
      exact h.calls
  | tool =>
    obtain ⟨hcalls, hclosed⟩ := calls_close h.calls h.closed index
    have hframe : (a.closeToolCall index none).text = a.text ∧ (a.closeToolCall index none).reasoning = a.reasoning ∧
        (a.closeToolCall index none).nextOrder = a.nextOrder := by
      cases hfind : a.openCalls.find? (fun call => call.index == index) <;> simp [closeToolCall, close, hfind]
    change (a.closeToolCall index none).Holds _
    refine ⟨?_, ?_, hcalls, ?_, hclosed⟩
    · rw [hothers .text (by decide), hframe.1]
      exact h.text
    · rw [hothers .reasoning (by decide), hframe.2.1]
      exact h.reasoning
    · rw [hframe.2.2, hnext]

theorem openText_eq_tell (a : BlockAssembler) (index : Int) : a.openText index = a.tell (.text, index) {} := by
  cases htext : a.text with
  | none => simp [BlockAssembler.tell, openText, htext, tellLane, nextLane]
  | some w =>
    cases a
    cases htext
    simp [BlockAssembler.tell, openText, tellLane, nextLane]

theorem openReasoning_eq_tell (a : BlockAssembler) (index : Int) : a.openReasoning index = a.tell (.reasoning, index) {} := by
  cases hreasoning : a.reasoning with
  | none => simp [BlockAssembler.tell, openReasoning, hreasoning, tellLane, nextLane]
  | some w =>
    cases a
    cases hreasoning
    simp [BlockAssembler.tell, openReasoning, tellLane, nextLane]

/-- A frame that says something does to the assembler what its word does. -/
theorem push_tell {chunk : StreamChunk} {k : BlockKind × Int} {x : Delta} (h : chunk.op = some (.tell k x)) :
    a.push chunk = a.tell k x := by
  have htext : ∀ index s, { a.openText index with
      text := (a.openText index).text.map (fun was => { was with text := was.text ++ s }) } = a.tell (.text, index) { text := s } := by
    intro index s
    cases hwas : a.text <;> simp [BlockAssembler.tell, openText, hwas, tellLane, nextLane]
  have hreasoning : ∀ index s, { a.openReasoning index with
      reasoning := (a.openReasoning index).reasoning.map (fun was => { was with text := was.text ++ s }) } =
        a.tell (.reasoning, index) { text := s } := by
    intro index s
    cases hwas : a.reasoning <;> simp [BlockAssembler.tell, openReasoning, hwas, tellLane, nextLane]
  cases htype : chunk.type with
  | blockStart =>
    simp only [StreamChunk.op, htype, Option.map_eq_some_iff] at h
    obtain ⟨kind, hkind, hk⟩ := h
    cases hk
    rcases blockKind?_eq_some hkind with ⟨hname, rfl⟩ | ⟨hname, rfl⟩ | ⟨hname, rfl⟩
    · simp only [push, htype, start, hname]
      exact a.openText_eq_tell _
    · simp only [push, htype, start, hname]
      exact a.openReasoning_eq_tell _
    · simp only [push, htype, start, hname]
      exact a.openToolCall_eq_tellCall _
  | textDelta =>
    simp only [StreamChunk.op, htype, Option.some.injEq, Op.tell.injEq] at h
    obtain ⟨rfl, rfl⟩ := h
    simp only [push, htype]
    exact htext _ _
  | reasoningDelta =>
    simp only [StreamChunk.op, htype, Option.some.injEq, Op.tell.injEq] at h
    obtain ⟨rfl, rfl⟩ := h
    simp only [push, htype]
    exact hreasoning _ _
  | toolCallDelta =>
    simp only [StreamChunk.op, htype, Option.some.injEq, Op.tell.injEq] at h
    obtain ⟨rfl, rfl⟩ := h
    simp only [push, htype]
    rfl
  | blockEnd => simp [StreamChunk.op, htype] at h
  | usage => simp [StreamChunk.op, htype] at h
  | finish => simp [StreamChunk.op, htype] at h

/-- A frame that ends a block, with no value, does what the end of the key does. -/
theorem push_close {chunk : StreamChunk} {k : BlockKind × Int} (h : chunk.op = some (.close k)) (hblock : chunk.block = none) :
    a.push chunk = a.shut k := by
  cases htype : chunk.type with
  | blockEnd =>
    simp only [StreamChunk.op, htype, Option.map_eq_some_iff] at h
    obtain ⟨kind, hkind, hk⟩ := h
    cases hk
    rcases blockKind?_eq_some hkind with ⟨hname, rfl⟩ | ⟨hname, rfl⟩ | ⟨hname, rfl⟩
    · simp only [push, htype, endBlock, hblock, closeByType, hname]
      rfl
    · simp only [push, htype, endBlock, hblock, closeByType, hname]
      rfl
    · simp only [push, htype, endBlock, hblock, closeByType, hname]
      rfl
  | blockStart => simp [StreamChunk.op, htype] at h
  | textDelta => simp [StreamChunk.op, htype] at h
  | reasoningDelta => simp [StreamChunk.op, htype] at h
  | toolCallDelta => simp [StreamChunk.op, htype] at h
  | usage => simp [StreamChunk.op, htype] at h
  | finish => simp [StreamChunk.op, htype] at h

theorem push_silent {chunk : StreamChunk} (h : chunk.op = none) (hblock : chunk.type = .blockEnd → chunk.block = none) :
    ∃ usage, a.push chunk = { a with usage } := by
  have hunnamed : blockKind? chunk.blockType = none → chunk.type = .blockStart ∨ chunk.type = .blockEnd →
      a.push chunk = a := by
    intro hkind htype
    unfold blockKind? at hkind
    split at hkind
    · cases hkind
    · cases hkind
    · cases hkind
    · rename_i htext hreasoning htool
      rcases htype with htype | htype
      · simp only [push, htype, start]
      · simp only [push, htype, endBlock, hblock htype, closeByType]
  cases htype : chunk.type with
  | blockStart =>
    simp only [StreamChunk.op, htype, Option.map_eq_none_iff] at h
    exact ⟨a.usage, hunnamed h (.inl htype)⟩
  | blockEnd =>
    simp only [StreamChunk.op, htype, Option.map_eq_none_iff] at h
    exact ⟨a.usage, hunnamed h (.inr htype)⟩
  | usage => exact ⟨chunk.usage, by simp only [push, htype]⟩
  | textDelta => simp [StreamChunk.op, htype] at h
  | reasoningDelta => simp [StreamChunk.op, htype] at h
  | toolCallDelta => simp [StreamChunk.op, htype] at h
  | finish => simp [StreamChunk.op, htype] at h

theorem push_finish {chunk : StreamChunk} (h : chunk.op = some .closeAll) : ∃ finish, a.push chunk = { a with finish }.finalize := by
  cases htype : chunk.type with
  | finish =>
    unfold push
    rw [htype]
    exact ⟨_, rfl⟩
  | blockStart => simp [StreamChunk.op, htype] at h
  | blockEnd => simp [StreamChunk.op, htype] at h
  | usage => simp [StreamChunk.op, htype] at h
  | textDelta => simp [StreamChunk.op, htype] at h
  | reasoningDelta => simp [StreamChunk.op, htype] at h
  | toolCallDelta => simp [StreamChunk.op, htype] at h

/-! ## The end of a stream -/

/-- What the loop over the open calls closes, in the order of the indices. -/
theorem closeStarted_eq {indices : List Int} (hnodup : indices.Nodup) (a : BlockAssembler) :
    (a.closeStarted indices).text = a.text ∧ (a.closeStarted indices).reasoning = a.reasoning ∧
      (a.closeStarted indices).nextOrder = a.nextOrder ∧
      (a.closeStarted indices).closed = a.closed ++ indices.filterMap (fun index =>
        ((a.openCalls.find? (fun call => call.index == index)).filter (·.started)).map
          (fun was => (was.order, .toolCall ⟨was.id, was.name, was.arguments⟩))) := by
  induction indices generalizing a with
  | nil => simp [closeStarted]
  | cons index indices ih =>
    obtain ⟨hnew, hnodup⟩ := List.nodup_cons.mp hnodup
    unfold closeStarted
    cases hfind : a.openCalls.find? (fun call => call.index == index) with
    | none => simpa [hfind] using ih hnodup a
    | some was =>
      cases hstarted : was.started with
      | false => simpa [hfind, hstarted] using ih hnodup a
      | true =>
        obtain ⟨htext, hreasoning, hnext, hclosed⟩ := ih hnodup (a.closeToolCall index none)
        rw [closeToolCall_none_of_find hfind] at htext hreasoning hnext hclosed ⊢
        have hothers : ∀ other ∈ indices, (a.openCalls.filter (fun call => call.index != index)).find?
            (fun call => call.index == other) = a.openCalls.find? (fun call => call.index == other) := by
          intro other hother
          have hne : other ≠ index := fun h => hnew (h ▸ hother)
          rw [List.find?_filter]
          congr 1
          funext call
          by_cases hcall : call.index = other <;> simp [hcall, hne]
        simp only [hstarted, if_true]
        refine ⟨htext, hreasoning, hnext, ?_⟩
        rw [hclosed, List.filterMap_cons, hfind, Option.filter_some, hstarted, if_pos rfl, List.append_assoc]
        simp only [Option.map_some, List.singleton_append]
        congr 2
        exact List.filterMap_congr (fun other hother => by rw [hothers other hother])

theorem live_perm (ops : List (Op (BlockKind × Int) Delta)) :
    (live (ops.foldl put [])).Perm (openOf .text ops ++ (openOf .reasoning ops ++ openOf .tool ops)) := by
  have htext := List.filter_append_perm (fun p : Entry (BlockKind × Int) Delta × Nat => p.1.key.1 = .text) (live (ops.foldl put []))
  refine htext.symm.trans (.append_left _ ?_)
  have hothers := List.filter_append_perm (fun p : Entry (BlockKind × Int) Delta × Nat => p.1.key.1 = .reasoning)
    ((live (ops.foldl put [])).filter (fun p => !decide (p.1.key.1 = .text)))
  refine hothers.symm.trans (.of_eq ?_)
  rw [List.filter_filter, List.filter_filter, openOf, openOf]
  congr 1 <;>
    · refine List.filter_congr (fun p _ => ?_)
      cases p.1.key.1 <;> decide

/-- The blocks of open accounts that the end of the stream closes. -/
def swept (kind : BlockKind) (ops : List (Op (BlockKind × Int) Delta)) : List (Nat × ContentBlock) :=
  (openOf kind ops).filterMap (fun p => (accountBlock { p.1 with status := .swept }).map (fun b => (p.2, b)))

theorem swept_lane {kind : BlockKind} {was : Option OpenBlock} (hlane : kind ≠ .tool)
    (h : was.toList = (openOf kind ops).map accountOpen) :
    swept kind ops = was.toList.map (fun w => (w.order, laneBlock kind w.text)) := by
  rw [h, List.map_map, swept, ← List.filterMap_eq_map]
  refine List.filterMap_congr (fun p hp => ?_)
  have hkind := (live_of_openOf hp).2
  cases kind with
  | text => simp [accountBlock, hkind, laneBlock, accountOpen]
  | reasoning => simp [accountBlock, hkind, laneBlock, accountOpen]
  | tool => exact absurd rfl hlane

/-- The calls of which something came, in the order in which they were opened. -/
theorem swept_tool (h : a.openCalls = (openOf .tool ops).map accountCall) : swept .tool ops =
    a.openCalls.filterMap (fun was =>
      if was.started then some (was.order, .toolCall ⟨was.id, was.name, was.arguments⟩) else none) := by
  rw [h, List.filterMap_map, swept]
  refine List.filterMap_congr (fun p hp => ?_)
  have hkind := (live_of_openOf hp).2
  have hstarted : (accountCall p).started = !(deltaCall p.1.told).isShell := by
    simp [OpenToolCall.started, ToolCallBlock.isShell, accountCall, bne, Bool.not_and]
  simp only [Function.comp_apply, hstarted, accountBlock, hkind]
  cases (deltaCall p.1.told).isShell <;> simp [accountCall]

theorem nodup_index (h : a.openCalls = (openOf .tool ops).map accountCall) : (a.openCalls.map (·.index)).Nodup := by
  have hkeys : ((openOf .tool ops).map (·.1.key)).Nodup := (nodup_live ops).sublist (List.filter_sublist.map _)
  have hindices : (openOf .tool ops).map (·.1.key) = ((openOf .tool ops).map (·.1.key.2)).map (fun index => (.tool, index)) := by
    rw [List.map_map]
    exact List.map_congr_left (fun p hp => Prod.ext (live_of_openOf hp).2 rfl)
  rw [hindices] at hkeys
  rw [h, List.map_map]
  exact hkeys.of_map _

/-- The loop over the open calls closes those of which something came. -/
theorem closeStarted_perm (hnodup : (a.openCalls.map (·.index)).Nodup) :
    (((a.openCalls.map (·.index)).insertionSort (· ≤ ·)).filterMap (fun index =>
        ((a.openCalls.find? (fun call => call.index == index)).filter (·.started)).map
          (fun was => (was.order, ContentBlock.toolCall ⟨was.id, was.name, was.arguments⟩)))).Perm
      (a.openCalls.filterMap (fun was =>
        if was.started then some (was.order, .toolCall ⟨was.id, was.name, was.arguments⟩) else none)) := by
  refine ((List.perm_insertionSort _ _).filterMap _).trans (.of_eq ?_)
  rw [List.filterMap_map]
  refine List.filterMap_congr (fun was hwas => ?_)
  have hfind : a.openCalls.find? (fun call => call.index == was.index) = some was := Table.find?_of_nodup hnodup hwas
  simp only [Function.comp_apply, hfind]
  cases hstarted : was.started <;> simp [hstarted]

/-- The end of the stream closes what is open, except for the calls of which nothing came. -/
theorem finalize_spec (h : a.Holds ops) :
    a.finalize.Settled ∧ a.finalize.nextOrder = a.nextOrder ∧
      a.finalize.closed.Perm (a.closed ++ (swept .text ops ++ (swept .reasoning ops ++ swept .tool ops))) := by
  have htext : ∀ b : BlockAssembler, (if b.text.isSome then b.closeText none else b) = b.closeText none := by
    intro b
    cases hwas : b.text with
    | none => rw [closeText_none_of_none hwas, if_neg (by simp)]
    | some w => rw [if_pos (by simp)]
  have hreasoning : ∀ b : BlockAssembler, (if b.reasoning.isSome then b.closeReasoning none else b) = b.closeReasoning none := by
    intro b
    cases hwas : b.reasoning with
    | none => rw [closeReasoning_none_of_none hwas, if_neg (by simp)]
    | some w => rw [if_pos (by simp)]
  have hnodup := nodup_index h.calls
  have hsorted : ((a.openCalls.map (·.index)).insertionSort (· ≤ ·)).Nodup := (List.perm_insertionSort _ _).nodup_iff.mpr hnodup
  unfold finalize
  simp only [htext, hreasoning]
  simp only [closeText_none_eq, closeReasoning_none_eq]
  obtain ⟨hnone, hsilent, hnext, hclosed⟩ := closeStarted_eq hsorted { a with
    text := none
    reasoning := none
    closed := a.closed ++ a.text.toList.map (fun w => (w.order, laneBlock .text w.text)) ++
      a.reasoning.toList.map (fun w => (w.order, laneBlock .reasoning w.text)) }
  refine ⟨⟨hnone, hsilent, rfl⟩, hnext, ?_⟩
  simp only [hclosed]
  rw [swept_lane (by decide) h.text, swept_lane (by decide) h.reasoning, swept_tool h.calls, List.append_assoc, List.append_assoc]
  exact ((closeStarted_perm hnodup).append_left _).append_left _ |>.append_left _

/-- The assembler holds the accounts after the end of the stream. -/
theorem Holds.finalize (h : a.Holds ops) : a.finalize.Holds (ops ++ [.closeAll]) := by
  obtain ⟨hsettled, hnext, hclosed⟩ := finalize_spec h
  refine ⟨?_, ?_, ?_, ?_, ?_⟩
  · rw [hsettled.text, openOf_closeAll]
    rfl
  · rw [hsettled.reasoning, openOf_closeAll]
    rfl
  · rw [hsettled.openCalls, openOf_closeAll]
    rfl
  · rw [hnext, h.next, List.foldl_concat, length_put]
    rfl
  · rw [List.foldl_concat]
    refine hclosed.trans (.trans ?_ (results_closeAll closing_accountBlock _).symm)
    refine h.closed.append ?_
    have hopen := (live_perm ops).filterMap (fun p => (accountBlock { p.1 with status := .swept }).map (fun b => (p.2, b)))
    rw [List.filterMap_append, List.filterMap_append] at hopen
    exact hopen.symm

/-! ## A frame after another -/

/-- The blocks are those of what was said, before the end of the stream and after it, which a second end does not change. -/
structure Conserves (a : BlockAssembler) (ops : List (Op (BlockKind × Int) Delta)) : Prop where
  blocks : a.blocks = streamBlocks ops
  finalized : a.finalize.blocks = streamBlocks (ops ++ [.closeAll])
  idempotent : a.finalize.finalize = a.finalize

theorem Holds.blocks_eq (h : a.Holds ops) : a.blocks = streamBlocks ops := by
  unfold BlockAssembler.blocks streamBlocks
  rw [sorted_results h.closed, run_eq_spans]

theorem Holds.conserves (h : a.Holds ops) : a.Conserves ops :=
  ⟨h.blocks_eq, h.finalize.blocks_eq, (finalize_spec h).1.finalize_eq⟩

/-- One frame keeps the accounts, where it is for the block of its kind that is open. -/
theorem Holds.push (h : a.Holds ops) {chunk : StreamChunk} (hblock : chunk.type = .blockEnd → chunk.block = none)
    (haddresses : a.Addresses chunk) : (a.push chunk).Holds (ops ++ chunk.op.toList) := by
  cases hop : chunk.op with
  | none =>
    obtain ⟨usage, hpush⟩ := push_silent (a := a) hop hblock
    rw [hpush, Option.toList_none, List.append_nil]
    exact ⟨h.text, h.reasoning, h.calls, h.next, h.closed⟩
  | some op =>
    cases op with
    | tell k x =>
      rw [push_tell hop]
      exact h.tell (haddresses k (.inl ⟨x, hop⟩)) x
    | close k =>
      have htype : chunk.type = .blockEnd := by
        cases htype : chunk.type <;> simp [StreamChunk.op, htype] at hop ⊢
      rw [push_close hop (hblock htype)]
      exact h.shut (haddresses k (.inr hop))
    | closeAll =>
      obtain ⟨finish, hpush⟩ := push_finish (a := a) hop
      rw [hpush]
      have hsame : ({ a with finish } : BlockAssembler).Holds ops := ⟨h.text, h.reasoning, h.calls, h.next, h.closed⟩
      exact hsame.finalize

/-! ## A frame for another block -/

theorem length_streamBlocks (ops : List (Op (BlockKind × Int) Delta)) :
    (streamBlocks ops).length = (results accountBlock (ops.foldl put [])).length := by
  rw [streamBlocks, ← run_eq_spans, ← sorted_results (List.Perm.refl _), List.length_map, List.length_insertionSort]

theorem length_streamBlocks_closeAll (ops : List (Op (BlockKind × Int) Delta)) :
    (streamBlocks (ops ++ [.closeAll])).length = (results accountBlock (ops.foldl put [])).length +
      (live (ops.foldl put [])).countP (fun p => (accountBlock { p.1 with status := .swept }).isSome) := by
  rw [length_streamBlocks, List.foldl_concat, (results_closeAll closing_accountBlock _).length_eq, List.length_append,
    List.length_filterMap_eq_countP]
  congr 2
  funext p
  cases accountBlock { p.1 with status := .swept } <;> rfl

/-- A word of text or reasoning makes one more block at the end of the stream if it opens one. -/
theorem length_tell_closeAll {k : BlockKind × Int} (hlane : k.1 ≠ .tool) (ops : List (Op (BlockKind × Int) Delta)) (x : Delta) :
    (streamBlocks (ops ++ [.tell k x] ++ [.closeAll])).length =
      (streamBlocks (ops ++ [.closeAll])).length + if isOpen (ops.foldl put []) k then 0 else 1 := by
  have hblock : ∀ told, (accountBlock ⟨k, told, .swept⟩).isSome = true := by
    intro told
    obtain ⟨kind, index⟩ := k
    cases kind with
    | text => rfl
    | reasoning => rfl
    | tool => exact absurd rfl hlane
  have hheard : ∀ p ∈ live (ops.foldl put []), (accountBlock { p.1.hear (.tell k x) with status := .swept }).isSome =
      (accountBlock { p.1 with status := .swept }).isSome := by
    intro p hp
    by_cases hk : p.1.key = k
    · subst hk
      have hlive := (mem_live.mp hp).2
      simp only [Entry.hear, Entry.isLive, hlive, decide_true, Bool.and_self, if_true]
      rw [hblock, hblock]
    · rw [Entry.hear_tell_of_ne hk]
  rw [length_streamBlocks_closeAll, length_streamBlocks_closeAll, results_tell_op, List.foldl_concat, live_tell, List.countP_append,
    List.countP_map]
  simp only [Function.comp_def]
  rw [List.countP_congr (fun p hp => by rw [hheard p hp]), ← Nat.add_assoc]
  congr 1
  cases hopen : isOpen (ops.foldl put []) k with
  | true => simp [opening, hopen]
  | false => simp [opening, hopen, hblock]

theorem length_close {k : BlockKind × Int} (hclosed : isOpen (ops.foldl put []) k = false) :
    (streamBlocks (ops ++ [.close k])).length = (streamBlocks ops).length := by
  have hnone : (live (ops.foldl put [])).filter (fun p => p.1.key = k) = [] := by
    rw [List.filter_eq_nil_iff]
    intro p hp hk
    have hopen : isOpen (ops.foldl put []) k = true := isOpen_iff_live.mpr (List.mem_map.mpr ⟨p, hp, by simpa using hk⟩)
    rw [hclosed] at hopen
    cases hopen
  have hresults := results_close closing_accountBlock (ops.foldl put []) k
  rw [hnone, List.filterMap_nil, List.append_nil] at hresults
  rw [length_streamBlocks, length_streamBlocks, List.foldl_concat, hresults.length_eq]

/-- The one account of a kind that is open where the assembler has a block of it. -/
theorem Holds.lane (h : a.Holds ops) {kind : BlockKind} {w : OpenBlock} (hw : a.lane kind = some w) :
    kind ≠ .tool ∧ (a.lane kind).toList = (openOf kind ops).map accountOpen := by
  cases kind with
  | text => exact ⟨by decide, h.text⟩
  | reasoning => exact ⟨by decide, h.reasoning⟩
  | tool => cases hw

theorem Holds.isOpen_iff (h : a.Holds ops) {kind : BlockKind} {w : OpenBlock} (hw : a.lane kind = some w) (index : Int) :
    isOpen (ops.foldl put []) (kind, index) = true ↔ index = w.index := by
  obtain ⟨-, hlane⟩ := h.lane hw
  rw [hw] at hlane
  obtain ⟨p, hp, rfl⟩ := List.map_eq_singleton_iff.mp hlane.symm
  have hmem : p ∈ openOf kind ops := by simp [hp]
  have hkind := (live_of_openOf hmem).2
  rw [isOpen_iff_openOf, hp]
  simp [accountOpen, Prod.ext_iff, hkind]

/-- A word for another block than the one of its kind that is open goes to that one. -/
theorem Holds.not_conserves_tell (h : a.Holds ops) {k : BlockKind × Int} {w : OpenBlock} (hw : a.lane k.1 = some w)
    (hne : w.index ≠ k.2) (x : Delta) : ¬(a.tell k x).Conserves (ops ++ [.tell k x]) := by
  obtain ⟨kind, index⟩ := k
  intro hconserves
  have hlane := (h.lane hw).1
  have hredirected : a.tell (kind, index) x = a.tell (kind, w.index) x := by
    cases kind with
    | text =>
      have htext : a.text = some w := hw
      simp [BlockAssembler.tell, tellLane, htext]
    | reasoning =>
      have hreasoning : a.reasoning = some w := hw
      simp [BlockAssembler.tell, tellLane, hreasoning]
    | tool => exact absurd rfl hlane
  have hcurrent : a.Current (kind, w.index) := by
    intro w' hw'
    rw [hw] at hw'
    cases hw'
    rfl
  have hhere := (h.tell hcurrent x).conserves.finalized
  rw [← hredirected, hconserves.finalized] at hhere
  have hlength := congrArg List.length hhere
  have hopen : isOpen (ops.foldl put []) (kind, w.index) = true := (h.isOpen_iff hw _).mpr rfl
  have hnew : isOpen (ops.foldl put []) (kind, index) = false := by
    rw [Bool.eq_false_iff, ne_eq, h.isOpen_iff hw]
    exact fun heq => hne heq.symm
  rw [length_tell_closeAll (k := (kind, index)) hlane, length_tell_closeAll (k := (kind, w.index)) hlane, hopen, hnew] at hlength
  simp at hlength

/-- The end of another block than the one of its kind that is open closes that one. -/
theorem Holds.not_conserves_shut (h : a.Holds ops) {k : BlockKind × Int} {w : OpenBlock} (hw : a.lane k.1 = some w)
    (hne : w.index ≠ k.2) : ¬(a.shut k).Conserves (ops ++ [.close k]) := by
  obtain ⟨kind, index⟩ := k
  intro hconserves
  obtain ⟨hlane, haccounts⟩ := h.lane hw
  have hredirected : a.shut (kind, index) = a.shut (kind, w.index) := by
    cases kind with
    | text => rfl
    | reasoning => rfl
    | tool => exact absurd rfl hlane
  have hcurrent : a.Current (kind, w.index) := by
    intro w' hw'
    rw [hw] at hw'
    cases hw'
    rfl
  have hhere := (h.shut hcurrent).conserves.blocks
  rw [← hredirected, hconserves.blocks] at hhere
  have hnew : isOpen (ops.foldl put []) (kind, index) = false := by
    rw [Bool.eq_false_iff, ne_eq, h.isOpen_iff hw]
    exact fun heq => hne heq.symm
  have hlength := congrArg List.length hhere
  rw [length_close hnew, length_streamBlocks, length_streamBlocks,
    (lane_close hlane haccounts hcurrent).2.length_eq, hw] at hlength
  simp at hlength

/-- Where the blocks are conserved after a frame, it keeps to the block of its kind that is open. -/
theorem Holds.addresses (h : a.Holds ops) {chunk : StreamChunk} (hblock : chunk.type = .blockEnd → chunk.block = none)
    (hconserves : (a.push chunk).Conserves (ops ++ chunk.op.toList)) : a.Addresses chunk := by
  intro k hk w hw
  by_contra hne
  rcases hk with ⟨x, hop⟩ | hop
  · rw [push_tell hop, hop] at hconserves
    exact h.not_conserves_tell hw hne x hconserves
  · have htype : chunk.type = .blockEnd := by
      cases htype : chunk.type <;> simp [StreamChunk.op, htype] at hop ⊢
    rw [push_close hop (hblock htype), hop] at hconserves
    exact h.not_conserves_shut hw hne hconserves

/-! ## A stream -/

theorem streamOps_cons (chunk : StreamChunk) (chunks : List StreamChunk) :
    streamOps (chunk :: chunks) = chunk.op.toList ++ streamOps chunks := by
  cases hop : chunk.op <;> simp [streamOps, hop]

/-- From a state that holds the accounts, the blocks are conserved after every beginning of a stream exactly if its frames keep to the
blocks that are open. -/
theorem Holds.conserves_iff (h : a.Holds ops) {chunks : List StreamChunk}
    (hblocks : ∀ chunk ∈ chunks, chunk.type = .blockEnd → chunk.block = none) :
    (∀ pre, pre <+: chunks → (pre.foldl BlockAssembler.push a).Conserves (ops ++ streamOps pre)) ↔ a.InTurn chunks := by
  induction chunks generalizing a ops with
  | nil =>
    refine ⟨fun _ => trivial, fun _ pre hpre => ?_⟩
    rw [List.prefix_nil.mp hpre]
    simpa [streamOps] using h.conserves
  | cons chunk chunks ih =>
    obtain ⟨hblock, hothers⟩ := List.forall_mem_cons.mp hblocks
    constructor
    · intro hall
      have hfirst := hall [chunk] ⟨chunks, rfl⟩
      rw [streamOps_cons] at hfirst
      have haddresses := h.addresses hblock (by simpa [streamOps] using hfirst)
      refine ⟨haddresses, (ih (h.push hblock haddresses) hothers).mp (fun pre hpre => ?_)⟩
      have hlonger := hall (chunk :: pre) ((List.prefix_cons_inj chunk).mpr hpre)
      rwa [streamOps_cons, ← List.append_assoc] at hlonger
    · rintro ⟨haddresses, hrest⟩ pre hpre
      cases pre with
      | nil => simpa [streamOps] using h.conserves
      | cons first pre =>
        obtain ⟨rfl, htail⟩ := List.cons_prefix_cons.mp hpre
        have hlater := (ih (h.push hblock haddresses) hothers).mpr hrest pre htail
        rwa [List.append_assoc, ← streamOps_cons] at hlater

/-- For every stream whose end frames carry no value: the assembler's blocks are those of the stream after each of its beginnings, with
or without the end of the stream, which a second `finalize` does not change, exactly if no frame of text or of reasoning comes while a
block of its kind with another index is open. -/
theorem blocks_conserved_iff {chunks : List StreamChunk}
    (hblocks : ∀ chunk ∈ chunks, chunk.type = .blockEnd → chunk.block = none) :
    (∀ pre, pre <+: chunks → (pre.foldl push {}).Conserves (streamOps pre)) ↔ InTurn {} chunks := by
  have hiff := Holds.start.conserves_iff hblocks
  simpa using hiff

/-- A delta of text under an index. -/
def textDeltaAt (index : Int) (s : String) : StreamChunk where
  type := .textDelta
  index := some index
  text := some s

/-- Text under one index, with a tool call between its deltas. -/
theorem blocks_conserved_interleaved :
    ([textDeltaAt 0 "a", { type := .toolCallDelta, index := some 1 }, textDeltaAt 0 "b"].foldl push {}).Conserves
      (streamOps [textDeltaAt 0 "a", { type := .toolCallDelta, index := some 1 }, textDeltaAt 0 "b"]) := by
  have hblocks : ∀ chunk ∈ [textDeltaAt 0 "a", { type := .toolCallDelta, index := some 1 }, textDeltaAt 0 "b"],
      chunk.type = .blockEnd → chunk.block = none := by
    simp [textDeltaAt]
  refine (blocks_conserved_iff hblocks).mpr ⟨?_, ?_, ?_, trivial⟩ _ (List.prefix_refl _)
  · rintro k - w hw
    cases hk : k.1 <;> rw [hk] at hw <;> cases hw
  · rintro k (⟨x, hk⟩ | hk) w hw
    · cases hk
      cases hw
    · cases hk
  · rintro k (⟨x, hk⟩ | hk) w hw
    · cases hk
      cases hw
      rfl
    · cases hk

/-- A delta under another index goes to the block of text that is open. -/
theorem blocks_not_conserved :
    ([textDeltaAt 0 "a", textDeltaAt 1 "b"].foldl push {}).finalize.blocks = [.text "ab"] ∧
      streamBlocks (streamOps [textDeltaAt 0 "a", textDeltaAt 1 "b"] ++ [.closeAll]) = [.text "a", .text "b"] :=
  ⟨rfl, rfl⟩

end BlockAssembler

end Pydsh
