import Pydsh.Session.Pairing

/-!
# Cutting the middle out of tool results

`bounded/pruner.py`. A configuration that `resolve_config` accepts carries the proof that what pruning emits fits the threshold.
The walk of `prune_content` keeps the head and the tail of the concatenated text and puts one marker between them;
`prune_session` replaces each over-budget tool result of the surface by its pruned version, one node for one.
-/

namespace Pydsh

/-- `PRUNE_MARKER`. -/
def pruneMarker : String := "\n\n[... tool result middle pruned ...]\n\n"

/-- A configuration of the pruner that can work. -/
structure PrunerConfig where
  thresholdChars : Nat
  headChars : Nat
  tailChars : Nat
  positive : 0 < thresholdChars
  fits : headChars + pruneMarker.length + tailChars ≤ thresholdChars

/-- Why `resolve_config` raises `ValueError`. -/
inductive PrunerConfigError where
  | unknownKeys (keys : List String)
  | notPositive (value : PyValue)
  | negative (name : String) (value : PyValue)
  | exceeds (emitted threshold : Nat)

/-- A budget of the configuration: a non-negative int, by its name. -/
def budgetOf (config : List (String × PyValue)) (name : String) (default : Nat) : Except PrunerConfigError Nat :=
  match (field? config name).getD (.int default) with
  | .int i => if i < 0 then .error (.negative name (.int i)) else .ok i.toNat
  | value => .error (.negative name value)

/-- `resolve_config`. -/
def resolveConfig (config : List (String × PyValue)) : Except PrunerConfigError PrunerConfig :=
  let unknown := (config.map (·.1)).filter (fun k => k ∉ ["threshold_chars", "head_chars", "tail_chars"])
  if unknown ≠ [] then .error (.unknownKeys unknown)
  else
    match (field? config "threshold_chars").getD (.int 8192) with
    | .int threshold =>
      if hpos : 0 < threshold.toNat then do
        let head ← budgetOf config "head_chars" 4096
        let tail ← budgetOf config "tail_chars" 1024
        if hfits : head + pruneMarker.length + tail ≤ threshold.toNat then
          return ⟨threshold.toNat, head, tail, hpos, hfits⟩
        else .error (.exceeds (head + pruneMarker.length + tail) threshold.toNat)
      else .error (.notPositive (.int threshold))
    | value => .error (.notPositive value)

/-- What pruning raises. -/
inductive PruneError where
  /-- `decode_payload` raised. -/
  | payload (e : PayloadError)
  /-- `AttributeError`: `.get` on event data that is not a dict. -/
  | noAttribute
  /-- `TypeError` or `KeyError`: the text of a text block has no length, or is not a string. -/
  | notText
  /-- The removed range matched no text block. -/
  | unmatched
  /-- The pruned content is not smaller, or not within the threshold. -/
  | notShrunk (after total threshold : Nat)
  /-- The append of a replacement raised. -/
  | session (e : SessionError)

/-! ## One content -/

/-- `len(text)`. -/
def textLength : PyValue → Except PruneError Nat
  | .str s => .ok s.length
  | .list xs => .ok xs.length
  | .tuple xs => .ok xs.length
  | .dict kvs => .ok kvs.length
  | _ => .error .notText

/-- `measure_content`: the characters across the text blocks. -/
def measureContent : List PyValue → Except PruneError Nat
  | [] => .ok 0
  | .textBlock text :: blocks => do
    let n ← textLength text
    let total ← measureContent blocks
    return n + total
  | _ :: blocks => measureContent blocks

/-- The loop of `prune_content`, from a number of characters already passed on: the blocks it keeps and whether the marker has
been put. -/
def pruneWalk (removedFrom removedTo : Nat) : List PyValue → Nat → Bool → Except PruneError (List PyValue × Bool)
  | [], _, marked => .ok ([], marked)
  | .textBlock (.str characters) :: blocks, start, marked => do
    let stop := start + characters.length
    let headEnd := min characters.length (removedFrom - start)
    let tailStart := min characters.length (removedTo - start)
    let overlaps := decide (start < removedTo) && decide (stop > removedFrom)
    let marker := if overlaps && !marked then pruneMarker else ""
    let text := String.ofList (characters.toList.take headEnd) ++ marker ++ String.ofList (characters.toList.drop tailStart)
    let (pruned, marked) ← pruneWalk removedFrom removedTo blocks stop (overlaps || marked)
    return (if text = "" then pruned else .textBlock (.str text) :: pruned, marked)
  | .textBlock _ :: _, _, _ => .error .notText
  | block :: blocks, start, marked => do
    let (pruned, marked) ← pruneWalk removedFrom removedTo blocks start marked
    return (block :: pruned, marked)

/-- `prune_content`; `none` when the content fits. -/
def pruneContent (cfg : PrunerConfig) (blocks : List PyValue) : Except PruneError (Option (List PyValue)) := do
  let total ← measureContent blocks
  if total ≤ cfg.thresholdChars then return none
  else
    let (pruned, marked) ← pruneWalk cfg.headChars (total - cfg.tailChars) blocks 0 false
    if !marked then .error .unmatched
    else
      let after ← measureContent pruned
      if after ≥ total ∨ after > cfg.thresholdChars then .error (.notShrunk after total cfg.thresholdChars)
      else return some pruned

/-! ## One tool-result message -/

/-- The characters of one block of a message, inside it if it is a tool result. -/
def blockChars : PyValue → Except PruneError Nat
  | .toolResultBlock _ content _ => measureContent content
  | block => measureContent [block]

/-- `_result_chars`: the characters of a message, counting inside its result blocks. -/
def resultChars : List PyValue → Except PruneError Nat
  | [] => .ok 0
  | block :: blocks => do
    let n ← blockChars block
    let total ← resultChars blocks
    return n + total

/-- `_prune_block`. -/
def pruneBlock (cfg : PrunerConfig) : PyValue → Except PruneError PyValue
  | .toolResultBlock toolCallId content isError => do
    let pruned ← pruneContent cfg content
    return .toolResultBlock toolCallId (pruned.getD content) isError
  | block => .ok block

/-- `_prune_block` on every block of a message. -/
def pruneBlocks (cfg : PrunerConfig) : List PyValue → Except PruneError (List PyValue)
  | [] => .ok []
  | block :: blocks => do
    let pruned ← pruneBlock cfg block
    let rest ← pruneBlocks cfg blocks
    return pruned :: rest

/-- `dataclasses.replace(message, content=content)`. -/
def PyValue.withContent : PyValue → List PyValue → PyValue
  | .message id role _ source, content => .message id role content source
  | .toolResultBlock toolCallId _ isError, content => .toolResultBlock toolCallId content isError
  | value, _ => value

/-! ## A session -/

/-- A tool result of the surface over the budget: its node, the fields of its data, its message. -/
structure PruneCandidate where
  seq : Nat
  fields : List (String × Json)
  message : PyValue

/-- The candidates among some surface nodes. -/
def pruneCandidates (cfg : PrunerConfig) (s : Session) : List Nat → Except PruneError (List PruneCandidate)
  | [] => .ok []
  | seq :: seqs =>
    match s.eventAt seq with
    | none => pruneCandidates cfg s seqs
    | some event =>
      if event.type ≠ .toolResult then pruneCandidates cfg s seqs
      else
        match event.data with
        | .obj fields =>
          match decodePayload ((field? fields "message").getD .null) with
          | .error e => .error (.payload e)
          | .ok message => do
            let chars ← resultChars message.content
            let rest ← pruneCandidates cfg s seqs
            return if chars > cfg.thresholdChars then ⟨seq, fields, message⟩ :: rest else rest
        | _ => .error .noAttribute

/-- The append that replaces a candidate by its pruned version. -/
def pruneCall (clock : Nat → Rat) (c : PruneCandidate) (content : List PyValue) : AppendCall :=
  { eventType := .toolResult
    data := .dict (putField (Json.loadsFields c.fields) "message" (encodePayload (c.message.withContent content)))
    surfaceOp := .replace c.seq c.seq
    sourceEventSeqs := [c.seq]
    time := clock c.seq }

/-- What `prune_session` returns: the nodes it replaced and the characters it saved. -/
structure PruneResult where
  pruned : List Nat
  charsRemoved : Nat

/-- The second loop of `prune_session`: the candidates, replaced one after another. -/
def pruneAll (cfg : PrunerConfig) (clock : Nat → Rat) : List PruneCandidate → Session → Except PruneError PruneResult × Session
  | [], s => (.ok ⟨[], 0⟩, s)
  | c :: cs, s =>
    match resultChars c.message.content, pruneBlocks cfg c.message.content with
    | .error e, _ => (.error e, s)
    | _, .error e => (.error e, s)
    | .ok before, .ok content =>
      match resultChars content with
      | .error e => (.error e, s)
      | .ok after =>
        if after ≥ before then pruneAll cfg clock cs s
        else
          match s.append (pruneCall clock c content) with
          | (.error e, s) => (.error (.session e), s)
          | (.ok _, s) =>
            match pruneAll cfg clock cs s with
            | (.error e, s) => (.error e, s)
            | (.ok r, s) => (.ok ⟨c.seq :: r.pruned, before - after + r.charsRemoved⟩, s)

/-- `prune_session`. -/
def pruneSession (cfg : PrunerConfig) (clock : Nat → Rat) (s : Session) : Except PruneError PruneResult × Session :=
  match pruneCandidates cfg s s.surfaceNodes with
  | .error e => (.error e, s)
  | .ok candidates => pruneAll cfg clock candidates s

/-! ## What pruning does to the log -/

/-- The candidates are nodes they were looked for among, in that order. -/
theorem pruneCandidates_sublist {cfg : PrunerConfig} {s : Session} {seqs : List Nat} {cs : List PruneCandidate}
    (h : pruneCandidates cfg s seqs = .ok cs) : (cs.map (·.seq)).Sublist seqs := by
  induction seqs generalizing cs with
  | nil =>
    cases h
    exact List.Sublist.refl _
  | cons seq seqs ih =>
    unfold pruneCandidates at h
    split at h
    · exact (ih h).cons seq
    · split at h
      · exact (ih h).cons seq
      · split at h
        · split at h
          · cases h
          · rename_i event _ _ _ fields _ _ message _
            cases hchars : resultChars message.content with
            | error e => rw [hchars] at h; cases h
            | ok chars =>
              cases hrest : pruneCandidates cfg s seqs with
              | error e => rw [hchars, hrest] at h; cases h
              | ok rest =>
                rw [hchars, hrest] at h
                have hsub := ih hrest
                by_cases hover : chars > cfg.thresholdChars
                · have : cs = ⟨seq, fields, message⟩ :: rest := by
                    simpa [hover, bind, Except.bind, pure, Except.pure] using h.symm
                  rw [this]
                  exact hsub.cons_cons seq
                · have : cs = rest := by simpa [hover, bind, Except.bind, pure, Except.pure] using h.symm
                  rw [this]
                  exact hsub.cons seq
        · cases h

theorem segment_idxOf_self {nodes : List Nat} {n : Nat} (hn : n ∈ nodes) :
    Splice.segment nodes (nodes.idxOf n) (nodes.idxOf n) = [n] := by
  have hlt := List.idxOf_lt_length_of_mem hn
  rw [Splice.segment, List.take_add_one, List.getElem?_eq_getElem hlt, List.getElem_idxOf, Option.toList_some,
    List.drop_left' (by rw [List.length_take]; omega)]

/-- Pruning grows the session by tool results alone, each in the place of its original, whether it returns or raises. -/
theorem pruneAll_grows (cfg : PrunerConfig) (clock : Nat → Rat) {cs : List PruneCandidate} {s : Session}
    (hnd : (cs.map (·.seq)).Nodup) (hsurface : ∀ c ∈ cs, c.seq ∈ s.surfaceNodes) :
    s.Grows (fun e => e.type = .toolResult) (pruneAll cfg clock cs s).2 := by
  induction cs generalizing s with
  | nil => exact .refl
  | cons c cs ih =>
    obtain ⟨hc, hnd⟩ := List.nodup_cons.mp hnd
    have htail : ∀ c' ∈ cs, c'.seq ∈ s.surfaceNodes := fun c' hc' => hsurface c' (List.mem_cons_of_mem c hc')
    unfold pruneAll
    split
    · exact .refl
    · exact .refl
    · rename_i before content _ _
      split
      · exact .refl
      · split
        · exact ih hnd htail
        · have hon : c.seq ∈ s.surfaceNodes := hsurface c List.mem_cons_self
          have hrun : InOrder s.surfaceNodes c.seq c.seq := ⟨hon, hon, Nat.le_refl _⟩
          rcases append_cases s (pruneCall clock c content) with
            ⟨-, e, happ⟩ | ⟨j, -, hr, -⟩ | ⟨j, first, last, hj, -, hnames, happ⟩ | ⟨j, e, -, ⟨-, -, hno⟩, -⟩
          · rw [happ]
            exact .refl
          · cases hr
          · obtain ⟨-, rfl, rfl⟩ := SurfaceOp.namesRun_replace.mp hnames
            have hrest := ih (s := s.replaceRun (s.surfaceNodes.idxOf c.seq) (s.surfaceNodes.idxOf c.seq)
              ((pruneCall clock c content).event s j)) hnd (by
                intro c' hc'
                refine Splice.mem_splice_of_not_mem_segment (Nat.le_refl _) (htail c' hc') ?_
                rw [segment_idxOf_self hon, List.mem_singleton]
                intro heq
                exact hc (List.mem_map.mpr ⟨c', hc', heq⟩))
            have hone : s.Grows (fun e => e.type = .toolResult) (s.replaceRun (s.surfaceNodes.idxOf c.seq)
              (s.surfaceNodes.idxOf c.seq) ((pruneCall clock c content).event s j)) := .append .refl happ rfl
            rw [happ]
            simp only
            split
            · rename_i heq
              rw [heq] at hrest
              exact hone.trans hrest
            · rename_i heq
              rw [heq] at hrest
              exact hone.trans hrest
          · exact absurd (SurfaceOp.namesRun_replace.mpr ⟨hrun, rfl, rfl⟩) (hno _ _)

/-- `prune_session` grows a session by tool results alone, whether it returns or raises. -/
theorem pruneSession_grows (cfg : PrunerConfig) (clock : Nat → Rat) {s : Session} (hs : s.WellFormed) :
    s.Grows (fun e => e.type = .toolResult) (pruneSession cfg clock s).2 := by
  unfold pruneSession
  split
  · exact .refl
  · rename_i cs hcs
    have hsub := pruneCandidates_sublist hcs
    exact pruneAll_grows cfg clock (hs.nodup.sublist hsub) (fun c hc => hsub.subset (List.mem_map_of_mem hc))

end Pydsh
