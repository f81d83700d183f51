import Pydsh.Bounded.Pruned
import Pydsh.Session.Cuts

/-!
# What pruning leaves of the tool results

`prune_session` looks at the text of a whole message and prunes it block by block. Each result block then fits the threshold, and the
message may not: its blocks can be many, and text that stands outside of them is left alone. `prune_session_iff` says for which
sessions every tool result fits afterwards; the shape of the surface, the calls that are answered and its balance are kept for all of them,
and a second run changes nothing.
-/

namespace Pydsh

/-! ## One message -/

theorem holdsText_blocks (bs : List ContentBlock) : HoldsText (ContentBlock.toPyList bs) := by
  intro text htext
  rw [ContentBlock.toPyList_eq_map] at htext
  obtain ⟨b, -, hb⟩ := List.mem_map.mp htext
  cases b with
  | text t => exact ⟨t, by simpa [ContentBlock.toPy] using hb.symm⟩
  | _ => simp [ContentBlock.toPy] at hb

namespace ContentBlock

/-- The characters of a block, inside it if it is a result. -/
def textLength : ContentBlock → Nat
  | .text t => t.length
  | .toolResult _ content _ => (contentText (toPyList content)).length
  | _ => 0

/-- The characters of a block once it is pruned. -/
def prunedLength (cfg : PrunerConfig) : ContentBlock → Nat
  | .toolResult _ content _ =>
    if (contentText (toPyList content)).length > cfg.thresholdChars then cfg.headChars + pruneMarker.length + cfg.tailChars
    else (contentText (toPyList content)).length
  | b => b.textLength

/-- The blocks have the same use, and the second is what pruning leaves of the first. -/
structure PrunedTo (cfg : PrunerConfig) (b b' : ContentBlock) : Prop where
  use : b.SameUse b'
  pruned : b'.textLength = b.prunedLength cfg
  again : b'.prunedLength cfg = b'.textLength

theorem prunedLength_le (cfg : PrunerConfig) (b : ContentBlock) : b.prunedLength cfg ≤ b.textLength := by
  have := cfg.fits
  cases b with
  | toolResult id content isError =>
    simp only [prunedLength, textLength]
    split <;> omega
  | _ => exact Nat.le_refl _

theorem prunedLength_of_le {cfg : PrunerConfig} {b : ContentBlock} (h : b.textLength ≤ cfg.thresholdChars) :
    b.prunedLength cfg = b.textLength := by
  cases b with
  | toolResult id content isError => exact if_neg (Nat.not_lt_of_le h)
  | _ => rfl

end ContentBlock

theorem blockChars_eq (b : ContentBlock) : blockChars b.toPy = .ok b.textLength := by
  cases b with
  | toolResult id content isError => exact measureContent_eq (holdsText_blocks content)
  | _ => rfl

theorem pruneBlock_spec (cfg : PrunerConfig) (b : ContentBlock) :
    ∃ b' : ContentBlock, pruneBlock cfg b.toPy = .ok b'.toPy ∧ b.PrunedTo cfg b' := by
  cases b with
  | toolResult id content isError =>
    have htexts := holdsText_blocks content
    by_cases hover : cfg.thresholdChars < (contentText (ContentBlock.toPyList content)).length
    · obtain ⟨pruned, hpruned, htext, -, hfits⟩ := pruneContent_fits cfg htexts hover
      obtain ⟨content', hcontent'⟩ := pruneContent_blocks hpruned
      rw [Option.getD_some] at hcontent'
      subst hcontent'
      refine ⟨.toolResult id content' isError, by simp [ContentBlock.toPy, pruneBlock, hpruned, bind, Except.bind, pure, Except.pure],
        ⟨rfl, rfl, rfl⟩, ?_, ?_⟩
      · have := cfg.fits
        simp only [ContentBlock.textLength, ContentBlock.prunedLength, if_pos hover, htext, List.length_append, List.length_take,
          List.length_drop, String.length_toList]
        omega
      · simp only [ContentBlock.prunedLength, ContentBlock.textLength, if_neg (Nat.not_lt_of_le hfits)]
    · have hkept := pruneContent_within cfg htexts (Nat.le_of_not_lt hover)
      have hlength : (ContentBlock.toolResult id content isError).prunedLength cfg =
          (ContentBlock.toolResult id content isError).textLength := by
        simp only [ContentBlock.prunedLength, ContentBlock.textLength, if_neg hover]
      exact ⟨.toolResult id content isError, by simp [ContentBlock.toPy, pruneBlock, hkept, bind, Except.bind, pure, Except.pure],
        ⟨rfl, rfl, rfl⟩, hlength.symm, hlength⟩
  | text t => exact ⟨.text t, rfl, ⟨rfl, rfl, rfl⟩, rfl, rfl⟩
  | reasoning t => exact ⟨.reasoning t, rfl, ⟨rfl, rfl, rfl⟩, rfl, rfl⟩
  | toolCall call => exact ⟨.toolCall call, rfl, ⟨rfl, rfl, rfl⟩, rfl, rfl⟩

namespace Message

/-- `_result_chars` of a message. -/
def textLength (m : Message) : Nat := (m.content.map ContentBlock.textLength).sum

/-- The characters of a message once its blocks are pruned. -/
def prunedLength (cfg : PrunerConfig) (m : Message) : Nat := (m.content.map (ContentBlock.prunedLength cfg)).sum

/-- The message answers the same calls, and is what pruning its blocks leaves. -/
structure PrunedTo (cfg : PrunerConfig) (m m' : Message) : Prop where
  answers : m'.resultIds = m.resultIds
  pruned : m'.textLength = m.prunedLength cfg
  again : m'.prunedLength cfg = m'.textLength

theorem prunedLength_of_le {cfg : PrunerConfig} {m : Message} (h : m.textLength ≤ cfg.thresholdChars) :
    m.prunedLength cfg = m.textLength := by
  suffices hblocks : ∀ bs : List ContentBlock, (bs.map ContentBlock.textLength).sum ≤ cfg.thresholdChars →
      (bs.map (ContentBlock.prunedLength cfg)).sum = (bs.map ContentBlock.textLength).sum from hblocks m.content h
  intro bs hle
  induction bs with
  | nil => rfl
  | cons b bs ih =>
    simp only [List.map_cons, List.sum_cons] at hle ⊢
    rw [ih (by omega), ContentBlock.prunedLength_of_le (by omega)]

theorem prunedLength_le (cfg : PrunerConfig) (m : Message) : m.prunedLength cfg ≤ m.textLength := by
  unfold prunedLength textLength
  induction m.content with
  | nil => exact Nat.le_refl _
  | cons b bs ih =>
    simp only [List.map_cons, List.sum_cons]
    exact Nat.add_le_add (b.prunedLength_le cfg) ih

end Message

theorem resultChars_eq (bs : List ContentBlock) : resultChars (ContentBlock.toPyList bs) = .ok (bs.map ContentBlock.textLength).sum := by
  induction bs with
  | nil => rfl
  | cons b bs ih =>
    rw [ContentBlock.toPyList, resultChars, blockChars_eq, ih]
    rfl

theorem pruneBlocks_spec (cfg : PrunerConfig) (bs : List ContentBlock) : ∃ bs' : List ContentBlock,
    pruneBlocks cfg (ContentBlock.toPyList bs) = .ok (ContentBlock.toPyList bs') ∧ List.Forall₂ (ContentBlock.PrunedTo cfg) bs bs' := by
  induction bs with
  | nil => exact ⟨[], rfl, .nil⟩
  | cons b bs ih =>
    obtain ⟨b', hb, hpruned⟩ := pruneBlock_spec cfg b
    obtain ⟨bs', hbs, hrest⟩ := ih
    refine ⟨b' :: bs', ?_, .cons hpruned hrest⟩
    rw [ContentBlock.toPyList, pruneBlocks, hb, hbs]
    rfl

theorem prunedTo_content {cfg : PrunerConfig} {m : Message} {content : List ContentBlock}
    (h : List.Forall₂ (ContentBlock.PrunedTo cfg) m.content content) : m.PrunedTo cfg { m with content } := by
  obtain ⟨-, -, hresults⟩ := sameUse_content (h.imp (fun _ _ hb => hb.use))
  have hsums : ∀ bs bs' : List ContentBlock, List.Forall₂ (ContentBlock.PrunedTo cfg) bs bs' →
      (bs'.map ContentBlock.textLength).sum = (bs.map (ContentBlock.prunedLength cfg)).sum ∧
        (bs'.map (ContentBlock.prunedLength cfg)).sum = (bs'.map ContentBlock.textLength).sum := by
    intro bs bs' hall
    induction hall with
    | nil => exact ⟨rfl, rfl⟩
    | cons hb _ ih =>
      simp only [List.map_cons, List.sum_cons]
      exact ⟨by rw [hb.pruned, ih.1], by rw [hb.again, ih.2]⟩
  exact ⟨hresults, (hsums _ _ h).1, (hsums _ _ h).2⟩

/-! ## The tool results of a surface -/

/-- A node of the surface, with the message it shows if it is a tool result. -/
abbrev ResultRow : Type := Nat × Option Message

/-- The event is a tool result with this message, or none. -/
def SessionEvent.ShowsResult (e : SessionEvent) : Option Message → Prop
  | some m => e.Carries ⟨.toolResult, m⟩
  | none => e.type ≠ .toolResult

/-- The rows are the surface, with the messages of its tool results. -/
structure Session.ShowsResults (s : Session) (rows : List ResultRow) : Prop where
  nodes : s.surfaceNodes = rows.map (·.1)
  shows : ∀ row ∈ rows, ∃ e, s.eventAt row.1 = some e ∧ e.ShowsResult row.2

/-- The second row is the first, or both show tool results and these answer the same calls. -/
def ResultRow.StandsFor (row' row : ResultRow) : Prop :=
  row' = row ∨ ∃ m m', row.2 = some m ∧ row'.2 = some m' ∧ m'.resultIds = m.resultIds

/-- The row, or the new one if it is at the node that is replaced. -/
def ResultRow.swap (n : Nat) (new row : ResultRow) : ResultRow := if row.1 = n then new else row

theorem ResultRow.swap_of_ne {n : Nat} {row : ResultRow} (h : row.1 ≠ n) (new : ResultRow) : ResultRow.swap n new row = row := if_neg h

namespace Session.ShowsResults

variable {s s' : Session} {rows : List ResultRow}

/-- The messages of an event that shows a tool result are of one length. -/
theorem textLength_eq (h : s.ShowsResults rows) {rows' : List ResultRow} (h' : s.ShowsResults rows') {row row' : ResultRow}
    (hrow : row ∈ rows) (hrow' : row' ∈ rows') (hnode : row.1 = row'.1) {m : Message} (hm : row.2 = some m) :
    ∃ m', row'.2 = some m' ∧ m'.textLength = m.textLength := by
  obtain ⟨e, hat, hshows⟩ := h.shows row hrow
  obtain ⟨e', hat', hshows'⟩ := h'.shows row' hrow'
  obtain rfl := Option.some.inj (hat.symm.trans (hnode ▸ hat'))
  rw [hm] at hshows
  cases hm' : row'.2 with
  | none =>
    rw [hm'] at hshows'
    exact absurd hshows.type hshows'
  | some m' =>
    rw [hm'] at hshows'
    have hdecode : m.toPy = m'.toPy := by
      have hderive := hshows.message.symm.trans hshows'.message
      have hdecoded := decodePayload_message m
      rw [Except.ok.inj hderive, decodePayload_message] at hdecoded
      exact (Except.ok.inj hdecoded).symm
    have hlength := resultChars_eq m.content
    simp only [Message.toPy, PyValue.message.injEq] at hdecode
    rw [hdecode.2.2.1, resultChars_eq] at hlength
    exact ⟨m', rfl, Except.ok.inj hlength⟩

theorem replaceRun (h : s.ShowsResults rows) (hs : s.WellFormed) {n : Nat} (hn : n ∈ s.surfaceNodes) {e : SessionEvent}
    (he : e.seq = s.seq + 1) {m : Message} (hcarries : e.Carries ⟨.toolResult, m⟩) :
    (s.replaceRun (s.surfaceNodes.idxOf n) (s.surfaceNodes.idxOf n) e).ShowsResults
      (rows.map (ResultRow.swap n (s.seq + 1, some m))) := by
  have hnodup := hs.nodup
  have hmem := hn
  rw [h.nodes] at hnodup hmem
  have hsplice := Splice.splice_idxOf_eq_map (fun row : ResultRow => row.1) hnodup hmem (s.seq + 1, some m)
  refine ⟨?_, ?_⟩
  · show _ = (rows.map (fun row => if row.1 = n then (s.seq + 1, some m) else row)).map (·.1)
    rw [← hsplice]
    simp only [Session.replaceRun, h.nodes, Splice.splice, List.map_append, List.map_cons, List.map_take, List.map_drop, he]
  · intro row' hrow'
    obtain ⟨row, hrow, rfl⟩ := List.mem_map.mp hrow'
    unfold ResultRow.swap
    split
    · exact ⟨e, he ▸ eventAt_commit_self s e, hcarries⟩
    · obtain ⟨old, hat, hshows⟩ := h.shows row hrow
      have hle := (hs.surface_le (h.nodes ▸ List.mem_map_of_mem hrow)).2
      exact ⟨old, (eventAt_commit s (by omega)).trans hat, hshows⟩

end Session.ShowsResults

/-! ## The balance -/

theorem walkBalance_alike {s s' : Session} {ns ns' : List Nat}
    (h : List.Forall₂ (fun n n' => (s'.eventAt n').map outstandingDelta = (s.eventAt n).map outstandingDelta) ns ns') (k : Int)
    {flags : List Bool} (hflags : walkBalance s ns k = .ok flags) : walkBalance s' ns' k = .ok flags := by
  induction h generalizing k flags with
  | nil => exact hflags
  | cons hdelta _ ih =>
    obtain ⟨e, d, rest, hat, hd, hle, hrest, rfl⟩ := walkBalance_cons_eq_ok hflags
    rw [hat, Option.map_some, Option.map_eq_some_iff] at hdelta
    obtain ⟨e', hat', hd'⟩ := hdelta
    exact walkBalance_cons hat' (hd'.trans hd) hle (ih _ hrest)

theorem surfaceBalance_alike {s s' : Session}
    (h : List.Forall₂ (fun n n' => (s'.eventAt n').map outstandingDelta = (s.eventAt n).map outstandingDelta) s.surfaceNodes
      s'.surfaceNodes) (flags : List Bool) : surfaceBalance s' = .ok flags ↔ surfaceBalance s = .ok flags := by
  constructor
  · intro hflags
    obtain ⟨walked, hwalk, rfl⟩ := surfaceBalance_eq_ok hflags
    exact surfaceBalance_of_walk (walkBalance_alike (h.flip.imp (fun _ _ hdelta => hdelta.symm)) 0 hwalk)
  · intro hflags
    obtain ⟨walked, hwalk, rfl⟩ := surfaceBalance_eq_ok hflags
    exact surfaceBalance_of_walk (walkBalance_alike h 0 hwalk)

/-! ## The loops -/

/-- The candidates are found: tool results of the surface, and among them each one over the threshold. -/
theorem pruneCandidates_results (cfg : PrunerConfig) {s : Session} {rows : List ResultRow}
    (h : ∀ row ∈ rows, ∃ e, s.eventAt row.1 = some e ∧ e.ShowsResult row.2) :
    ∃ cs, pruneCandidates cfg s (rows.map (·.1)) = .ok cs ∧ (∀ c ∈ cs, ∃ m : Message, (c.seq, some m) ∈ rows ∧ c.message = m.toPy) ∧
      ∀ row ∈ rows, ∀ m, row.2 = some m → cfg.thresholdChars < m.textLength → row.1 ∈ cs.map (·.seq) := by
  induction rows with
  | nil => exact ⟨[], rfl, by simp, by simp⟩
  | cons row rows ih =>
    obtain ⟨cs, hcs, hof, hover⟩ := ih (fun row' hrow' => h row' (List.mem_cons_of_mem row hrow'))
    have hof' : ∀ c ∈ cs, ∃ m : Message, (c.seq, some m) ∈ row :: rows ∧ c.message = m.toPy := by
      intro c hc
      obtain ⟨m, hrow, hm⟩ := hof c hc
      exact ⟨m, List.mem_cons_of_mem row hrow, hm⟩
    obtain ⟨n, shown⟩ := row
    obtain ⟨e, hat, hshows⟩ := h (n, shown) List.mem_cons_self
    rw [List.map_cons, pruneCandidates, hat]
    cases shown with
    | none =>
      refine ⟨cs, by simp only [if_pos (show e.type ≠ .toolResult from hshows), hcs], hof', ?_⟩
      intro row' hrow' m hm
      rcases List.mem_cons.mp hrow' with rfl | hrow'
      · cases hm
      · exact hover row' hrow' m hm
    | some m =>
      have htype : e.type = .toolResult := hshows.type
      have hderive := hshows.message
      simp only [deriveEventMessage, htype] at hderive
      simp only [htype, ne_eq, not_true_eq_false, if_false]
      split at hderive
      · rename_i fields hdata
        simp only [hdata, Except.ok.inj hderive, decodePayload_message]
        simp only [Message.toPy, PyValue.content, resultChars_eq, hcs, bind, Except.bind]
        by_cases hlong : (m.content.map ContentBlock.textLength).sum > cfg.thresholdChars
        · refine ⟨_, by rw [if_pos hlong]; rfl, ?_, ?_⟩
          · intro c hc
            rcases List.mem_cons.mp hc with rfl | hc
            · exact ⟨m, List.mem_cons_self, rfl⟩
            · exact hof' c hc
          · intro row' hrow' m' hm' hlong'
            rcases List.mem_cons.mp hrow' with rfl | hrow'
            · exact List.mem_cons_self
            · exact List.mem_cons_of_mem _ (hover row' hrow' m' hm' hlong')
        · refine ⟨cs, by rw [if_neg hlong]; rfl, hof', ?_⟩
          intro row' hrow' m' hm' hlong'
          rcases List.mem_cons.mp hrow' with rfl | hrow'
          · cases hm'
            exact absurd hlong' hlong
          · exact hover row' hrow' m' hm' hlong'
      · cases hderive

theorem PruneCandidate.pruned (cfg : PrunerConfig) {c : PruneCandidate} {m : Message} (h : c.message = m.toPy) :
    ∃ content : List ContentBlock, pruneBlocks cfg c.message.content = .ok (ContentBlock.toPyList content) ∧
      m.PrunedTo cfg { m with content } ∧ resultChars c.message.content = .ok m.textLength ∧
      resultChars (ContentBlock.toPyList content) = .ok (m.prunedLength cfg) := by
  obtain ⟨content, hcontent, hpruned⟩ := pruneBlocks_spec cfg m.content
  have hto := prunedTo_content hpruned
  rw [h, Message.toPy, PyValue.content]
  refine ⟨content, hcontent, hto, resultChars_eq m.content, ?_⟩
  rw [resultChars_eq, ← hto.pruned]
  rfl

theorem pruneAll_settled (cfg : PrunerConfig) (clock : Nat → Rat) {cs : List PruneCandidate} (s : Session)
    (h : ∀ c ∈ cs, ∃ m : Message, c.message = m.toPy ∧ m.prunedLength cfg = m.textLength) :
    pruneAll cfg clock cs s = (.ok ⟨[], 0⟩, s) := by
  induction cs with
  | nil => rfl
  | cons c cs ih =>
    obtain ⟨m, hm, hsettled⟩ := h c List.mem_cons_self
    obtain ⟨content, hcontent, -, hbefore, hafter⟩ := PruneCandidate.pruned cfg hm
    rw [pruneAll, hbefore, hcontent]
    simp only [hafter, hsettled, ge_iff_le, Nat.le_refl, if_true]
    exact ih (fun c' hc' => h c' (List.mem_cons_of_mem c hc'))

/-- The rows show tool results, and the second is what pruning leaves of the first. -/
def ResultRow.PrunedTo (cfg : PrunerConfig) (row row' : ResultRow) : Prop :=
  ∃ m m', row.2 = some m ∧ row'.2 = some m' ∧ m.PrunedTo cfg m'

/-- The second loop returns; each candidate is kept or replaced, and is then what pruning leaves of it. -/
def PruneAllSettles (cfg : PrunerConfig) (clock : Nat → Rat) (cs : List PruneCandidate) (s : Session) (rows : List ResultRow) : Prop :=
  ∃ r s' f, pruneAll cfg clock cs s = (.ok r, s') ∧ s'.ShowsResults (rows.map f) ∧ (∀ n ≤ s.seq, s'.eventAt n = s.eventAt n) ∧
    (∀ row ∈ rows, row.1 ∉ cs.map (·.seq) → f row = row) ∧ ∀ row ∈ rows, row.1 ∈ cs.map (·.seq) → row.PrunedTo cfg (f row)

theorem Session.ShowsResults.row_eq {s : Session} {rows : List ResultRow} (h : s.ShowsResults rows) (hs : s.WellFormed)
    {row row' : ResultRow} (hrow : row ∈ rows) (hrow' : row' ∈ rows) (hnode : row.1 = row'.1) : row = row' := by
  have hnodup : (rows.map (fun row : ResultRow => row.1)).Nodup := h.nodes ▸ hs.nodup
  exact List.inj_on_of_nodup_map hnodup hrow hrow' hnode

theorem pruneAll_kept {cfg : PrunerConfig} {clock : Nat → Rat} {c : PruneCandidate} {cs : List PruneCandidate} {s : Session}
    {rows : List ResultRow} (hs : s.WellFormed) (h : s.ShowsResults rows) (hc : c.seq ∉ cs.map (·.seq)) {m : Message}
    (hrow : (c.seq, some m) ∈ rows) (hm : c.message = m.toPy) (hkeeps : m.prunedLength cfg ≥ m.textLength)
    (hrest : PruneAllSettles cfg clock cs s rows) : PruneAllSettles cfg clock (c :: cs) s rows := by
  obtain ⟨content, hcontent, -, hbefore, hafter⟩ := PruneCandidate.pruned cfg hm
  obtain ⟨r, s', f, hall, hshows, hkept, hothers, hresults⟩ := hrest
  unfold PruneAllSettles
  rw [pruneAll, hbefore, hcontent]
  simp only [hafter]
  rw [if_pos hkeeps]
  refine ⟨r, s', f, hall, hshows, hkept, ?_, ?_⟩
  · exact fun row hmem hnot => hothers row hmem (fun hin => hnot (List.mem_cons_of_mem _ hin))
  · intro row hmem hin
    rcases List.mem_cons.mp hin with hnode | hin
    · have heq := Nat.le_antisymm (m.prunedLength_le cfg) hkeeps
      obtain rfl := h.row_eq hs hmem hrow hnode
      rw [hothers _ hmem hc]
      exact ⟨m, m, rfl, rfl, rfl, heq.symm, heq⟩
    · exact hresults row hmem hin

/-- Where pruning saves something, the replacement takes the place of the row. -/
theorem pruneAll_replaced {cfg : PrunerConfig} {clock : Nat → Rat} {c : PruneCandidate} {cs : List PruneCandidate} {s : Session}
    {rows : List ResultRow} (hs : s.WellFormed) (h : s.ShowsResults rows) (hc : c.seq ∉ cs.map (·.seq))
    (hcs : ∀ c' ∈ cs, ∃ m : Message, (c'.seq, some m) ∈ rows ∧ c'.message = m.toPy) {m : Message} (hrow : (c.seq, some m) ∈ rows)
    (hm : c.message = m.toPy) (hsaves : ¬m.prunedLength cfg ≥ m.textLength)
    (hrest : ∀ content e, e.seq = s.seq + 1 → e.Carries ⟨.toolResult, { m with content }⟩ →
      (s.replaceRun (s.surfaceNodes.idxOf c.seq) (s.surfaceNodes.idxOf c.seq) e).WellFormed →
      PruneAllSettles cfg clock cs (s.replaceRun (s.surfaceNodes.idxOf c.seq) (s.surfaceNodes.idxOf c.seq) e)
        (rows.map (ResultRow.swap c.seq (s.seq + 1, some { m with content })))) : PruneAllSettles cfg clock (c :: cs) s rows := by
  obtain ⟨content, hcontent, hpruned, hbefore, hafter⟩ := PruneCandidate.pruned cfg hm
  have hon : c.seq ∈ s.surfaceNodes := h.nodes ▸ List.mem_map_of_mem hrow
  obtain ⟨e, happ, hseq, hcarries⟩ := append_pruneCall_carries clock hon hm content
  have hwf := hs.append (pruneCall clock c (ContentBlock.toPyList content))
  rw [happ] at hwf
  obtain ⟨r, s', f, hall, hshows, hkept, hothers, hresults⟩ := hrest content e hseq hcarries hwf
  have hplace : ∀ row : ResultRow, row.1 ∈ cs.map (·.seq) → row.1 ≠ c.seq := by
    intro row hin hnode
    rw [hnode] at hin
    exact hc hin
  have hfresh : s.seq + 1 ∉ cs.map (·.seq) := by
    intro hin
    obtain ⟨c', hc', hnode⟩ := List.mem_map.mp hin
    obtain ⟨m', hrow', -⟩ := hcs c' hc'
    have hmem : c'.seq ∈ s.surfaceNodes := h.nodes ▸ List.mem_map_of_mem hrow'
    rw [hnode] at hmem
    exact hs.next_not_mem hmem
  have hmap := fun row (hmem : row ∈ rows) => List.mem_map_of_mem (f := ResultRow.swap c.seq (s.seq + 1, some { m with content })) hmem
  unfold PruneAllSettles
  rw [pruneAll, hbefore, hcontent]
  simp only [hafter]
  rw [if_neg hsaves, happ]
  simp only [hall]
  refine ⟨_, s', _, rfl, by rwa [List.map_map] at hshows, ?_, ?_, ?_⟩
  · intro n hn
    rw [hkept n (Nat.le_succ_of_le hn)]
    exact eventAt_commit s (by omega)
  · intro row hmem hnot
    rw [List.map_cons, List.mem_cons, not_or] at hnot
    have hsame := ResultRow.swap_of_ne hnot.1 (s.seq + 1, some { m with content })
    have hin := hmap row hmem
    rw [hsame] at hin
    rw [Function.comp_apply, hsame]
    exact hothers row hin hnot.2
  · intro row hmem hin
    rcases List.mem_cons.mp hin with hnode | hin
    · obtain rfl := h.row_eq hs hmem hrow hnode
      have hsame : ResultRow.swap c.seq (s.seq + 1, some { m with content }) (c.seq, some m) =
          (s.seq + 1, some { m with content }) := if_pos rfl
      have hin := hmap _ hmem
      rw [hsame] at hin
      rw [Function.comp_apply, hsame, hothers _ hin hfresh]
      exact ⟨m, _, rfl, rfl, hpruned⟩
    · have hsame := ResultRow.swap_of_ne (hplace row hin) (s.seq + 1, some { m with content })
      have hin' := hmap row hmem
      rw [hsame] at hin'
      rw [Function.comp_apply, hsame]
      exact hresults row hin' hin

theorem pruneAll_results (cfg : PrunerConfig) (clock : Nat → Rat) {cs : List PruneCandidate} {s : Session} {rows : List ResultRow}
    (hs : s.WellFormed) (h : s.ShowsResults rows) (hnd : (cs.map (·.seq)).Nodup)
    (hcs : ∀ c ∈ cs, ∃ m : Message, (c.seq, some m) ∈ rows ∧ c.message = m.toPy) : PruneAllSettles cfg clock cs s rows := by
  induction cs generalizing s rows with
  | nil => exact ⟨_, s, id, rfl, by rwa [List.map_id], fun _ _ => rfl, fun _ _ _ => rfl, fun _ _ hrow => absurd hrow List.not_mem_nil⟩
  | cons c cs ih =>
    obtain ⟨hc, hnd⟩ := List.nodup_cons.mp hnd
    obtain ⟨m, hrow, hm⟩ := hcs c List.mem_cons_self
    have hrest : ∀ c' ∈ cs, ∃ m : Message, (c'.seq, some m) ∈ rows ∧ c'.message = m.toPy :=
      fun c' hc' => hcs c' (List.mem_cons_of_mem c hc')
    by_cases hkeeps : m.prunedLength cfg ≥ m.textLength
    · exact pruneAll_kept hs h hc hrow hm hkeeps (ih hs h hnd hrest)
    · refine pruneAll_replaced hs h hc hrest hrow hm hkeeps ?_
      intro content e hseq hcarries hwf
      have hon : c.seq ∈ s.surfaceNodes := h.nodes ▸ List.mem_map_of_mem hrow
      refine ih hwf (h.replaceRun hs hon hseq hcarries) hnd ?_
      intro c' hc'
      obtain ⟨m', hrow', hm'⟩ := hrest c' hc'
      have hne : c'.seq ≠ c.seq := fun hnode => hc (List.mem_map.mpr ⟨c', hc', hnode⟩)
      exact ⟨m', List.mem_map.mpr ⟨_, hrow', ResultRow.swap_of_ne hne _⟩, hm'⟩

/-! ## A session -/

/-- What a run of the pruner leaves of a surface: node for node the row of before or a tool result that answers the same calls, with the
balance as it was, and nothing that a second run changes. -/
structure Session.PrunedAs (cfg : PrunerConfig) (s s' : Session) (rows rows' : List ResultRow) : Prop where
  shows : s'.ShowsResults rows'
  stands : List.Forall₂ (fun row row' => ResultRow.StandsFor row' row) rows rows'
  balance : ∀ flags, surfaceBalance s' = .ok flags ↔ surfaceBalance s = .ok flags
  again : ∀ clock, pruneSession cfg clock s' = (.ok ⟨[], 0⟩, s')

/-- The tool results among the rows hold at most so many characters. -/
def ResultsWithin (bound : Nat) (rows : List ResultRow) : Prop := ∀ row ∈ rows, ∀ m, row.2 = some m → m.textLength ≤ bound

theorem outstandingDelta_result {e : SessionEvent} {m : Message} (h : e.ShowsResult (some m)) : outstandingDelta e = .ok (-1) := by
  have htype : e.type = .toolResult := h.type
  simp only [outstandingDelta, htype]

/-- `prune_session` returns, and every tool result is then what pruning leaves of it. -/
theorem pruneSession_results (cfg : PrunerConfig) (clock : Nat → Rat) {s : Session} (hs : s.WellFormed) {rows : List ResultRow}
    (h : s.ShowsResults rows) :
    ∃ r s' f, pruneSession cfg clock s = (.ok r, s') ∧ s.PrunedAs cfg s' rows (rows.map f) ∧
      ∀ row ∈ rows, ∀ m, row.2 = some m → row.PrunedTo cfg (f row) := by
  obtain ⟨cs, hcs, hof, hover⟩ := pruneCandidates_results cfg h.shows
  rw [← h.nodes] at hcs
  have hnd : (cs.map (·.seq)).Nodup := hs.nodup.sublist (pruneCandidates_sublist hcs)
  obtain ⟨r, s', f, hall, hshows, hkept, hothers, hresults⟩ := pruneAll_results cfg clock hs h hnd hof
  have hpruned : ∀ row ∈ rows, ∀ m, row.2 = some m → row.PrunedTo cfg (f row) := by
    intro row hrow m hm
    by_cases hin : row.1 ∈ cs.map (·.seq)
    · exact hresults row hrow hin
    · -- what is no candidate is within the threshold
      have hwithin : m.textLength ≤ cfg.thresholdChars := Nat.le_of_not_lt (fun hlong => hin (hover row hrow m hm hlong))
      have heq := Message.prunedLength_of_le hwithin
      rw [hothers row hrow hin]
      exact ⟨m, m, hm, hm, rfl, heq.symm, heq⟩
  have hrows : ∀ row ∈ rows, f row = row ∨ row.PrunedTo cfg (f row) := by
    intro row hrow
    by_cases hin : row.1 ∈ cs.map (·.seq)
    · exact .inr (hresults row hrow hin)
    · exact .inl (hothers row hrow hin)
  refine ⟨r, s', f, by rw [pruneSession, hcs]; exact hall, ⟨hshows, ?_, ?_, ?_⟩, hpruned⟩
  · rw [List.forall₂_map_right_iff, List.forall₂_same]
    intro row hrow
    obtain hsame | ⟨m, m', hm, hm', hto⟩ := hrows row hrow
    · exact .inl hsame
    · exact .inr ⟨m, m', hm, hm', hto.answers⟩
  · refine surfaceBalance_alike ?_
    rw [h.nodes, hshows.nodes, List.map_map, List.forall₂_map_left_iff, List.forall₂_map_right_iff, List.forall₂_same]
    intro row hrow
    rw [Function.comp_apply]
    obtain hsame | ⟨m, m', hm, hm', -⟩ := hrows row hrow
    · rw [hsame, hkept row.1 (hs.surface_le (h.nodes ▸ List.mem_map_of_mem hrow)).2]
    · obtain ⟨e, hat, he⟩ := h.shows row hrow
      obtain ⟨e', hat', he'⟩ := hshows.shows (f row) (List.mem_map_of_mem hrow)
      rw [hm] at he
      rw [hm'] at he'
      rw [hat, hat', Option.map_some, Option.map_some, outstandingDelta_result he, outstandingDelta_result he']
  · -- the candidates of a second run are settled
    intro clock'
    obtain ⟨cs', hcs', hof', -⟩ := pruneCandidates_results cfg hshows.shows
    rw [← hshows.nodes] at hcs'
    rw [pruneSession, hcs']
    refine pruneAll_settled cfg clock' s' ?_
    intro c hc
    obtain ⟨m₁, hmem, hm₁⟩ := hof' c hc
    obtain ⟨row, hrow, hf⟩ := List.mem_map.mp hmem
    have hsome : ∃ m, row.2 = some m := by
      obtain hsame | ⟨m, -, hm, -, -⟩ := hrows row hrow
      · exact ⟨m₁, by rw [← hsame, hf]⟩
      · exact ⟨m, hm⟩
    obtain ⟨m, hm⟩ := hsome
    obtain ⟨_, m', -, hm', hto⟩ := hpruned row hrow m hm
    rw [hf] at hm'
    cases hm'
    exact ⟨m₁, hm₁, hto.again⟩

/-- Tool results that are all within the threshold after a run are so because pruning leaves no more of them. -/
theorem prunedLength_le_of_run {cfg : PrunerConfig} {clock : Nat → Rat} {s s' : Session} (hs : s.WellFormed) {rows rows' : List ResultRow}
    (h : s.ShowsResults rows) {r : PruneResult} (hrun : pruneSession cfg clock s = (.ok r, s')) (hshows : s'.ShowsResults rows')
    (hwithin : ResultsWithin cfg.thresholdChars rows') : ∀ row ∈ rows, ∀ m, row.2 = some m → m.prunedLength cfg ≤ cfg.thresholdChars := by
  intro row hrow m hm
  obtain ⟨r₁, s₁, f, hrun₁, has, hpruned⟩ := pruneSession_results cfg clock hs h
  rw [hrun, Prod.mk.injEq] at hrun₁
  obtain ⟨-, rfl⟩ := hrun₁
  obtain ⟨_, m', hm₀, hm', hto⟩ := hpruned row hrow m hm
  obtain rfl := Option.some.inj (hm.symm.trans hm₀)
  -- both lists of rows show the same surface
  have hnode : (f row).1 ∈ rows'.map (·.1) := by
    rw [← hshows.nodes, has.shows.nodes]
    exact List.mem_map_of_mem (List.mem_map_of_mem hrow)
  obtain ⟨row', hrow', hnode'⟩ := List.mem_map.mp hnode
  obtain ⟨m₁, hm₁, hlength⟩ := has.shows.textLength_eq hshows (List.mem_map_of_mem hrow) hrow' hnode'.symm hm'
  rw [← hto.pruned, ← hlength]
  exact hwithin row' hrow' m₁ hm₁

/-- `prune_session` keeps the shape of a surface, the calls that it answers and its balance, and leaves nothing to a second run. Its tool
results are then all within the threshold if and only if what pruning leaves of their blocks is. -/
theorem pruneSession_iff (cfg : PrunerConfig) (clock : Nat → Rat) {s : Session} (hs : s.WellFormed) {rows : List ResultRow}
    (h : s.ShowsResults rows) :
    (∃ r s' rows', pruneSession cfg clock s = (.ok r, s') ∧ s.PrunedAs cfg s' rows rows' ∧ ResultsWithin cfg.thresholdChars rows') ↔
      ∀ row ∈ rows, ∀ m, row.2 = some m → m.prunedLength cfg ≤ cfg.thresholdChars := by
  obtain ⟨r, s', f, hrun, has, hpruned⟩ := pruneSession_results cfg clock hs h
  constructor
  · rintro ⟨r₁, s₁, rows₁, hrun₁, has₁, hwithin⟩
    exact prunedLength_le_of_run hs h hrun₁ has₁.shows hwithin
  · intro hfits
    refine ⟨r, s', _, hrun, has, ?_⟩
    intro row' hrow' m' hm'
    obtain ⟨row, hrow, rfl⟩ := List.mem_map.mp hrow'
    have hsome : ∃ m, row.2 = some m := by
      cases hm : row.2 with
      | some m => exact ⟨m, rfl⟩
      | none =>
        exfalso
        obtain hsame | ⟨m, _, hm₁, -⟩ := List.forall₂_same.mp (List.forall₂_map_right_iff.mp has.stands) row hrow
        · rw [hsame, hm] at hm'
          cases hm'
        · rw [hm] at hm₁
          cases hm₁
    obtain ⟨m, hm⟩ := hsome
    obtain ⟨_, m₁, hm₀, hm₁, hto⟩ := hpruned row hrow m hm
    obtain rfl := Option.some.inj (hm.symm.trans hm₀)
    obtain rfl := Option.some.inj (hm'.symm.trans hm₁)
    rw [hto.pruned]
    exact hfits row hrow m hm

namespace Answered

open CutOut

/-- A message that answers calls with texts of one length. -/
def answers (ids : List String) (length : Nat) : Message :=
  createUserMessage "m3" (ids.map (fun id => .toolResult id [.text (String.ofList (List.replicate length 'a'))] false))

/-- The result of a tool that the session asks for. -/
def result (m : Message) : AppendCall := { eventType := .toolResult, data := (Json.obj [("message", m.toJson)]).loads }

/-- A session that asks for a tool, with the answer. -/
def session (m : Message) : Session := (((Session.new "chat-1" { id := "chat-1" }).append ask).2.append (result m)).2

theorem session_wellFormed (m : Message) : (session m).WellFormed := ((Session.WellFormed.new _ _).append ask).append (result m)

theorem session_shows (m : Message) : (session m).ShowsResults [(1, none), (2, some m)] := by
  have hadm : (result m).Admits (Json.obj [("message", m.toJson)]) := ⟨fun _ => rfl, rfl, validateLosslessJson_loads _⟩
  have happ : session m = ((((Session.new "chat-1" { id := "chat-1" }).append ask).2.append (result m)).2) := rfl
  rw [append_of_not_replace _ hadm rfl] at happ
  refine ⟨by rw [happ]; rfl, ?_⟩
  intro row hrow
  rw [happ]
  rcases List.mem_cons.mp hrow with rfl | hrow
  · exact ⟨_, rfl, EventType.noConfusion⟩
  · obtain rfl := List.mem_singleton.mp hrow
    exact ⟨_, rfl, rfl, rfl⟩

end Answered

open Answered in
/-- The case of one result block over the threshold. -/
theorem pruneSession_iff_single : ∃ r s' rows', pruneSession smallBudgets (fun _ => 0) (session (answers ["c1"] 60)) = (.ok r, s') ∧
    (session (answers ["c1"] 60)).PrunedAs smallBudgets s' [(1, none), (2, some (answers ["c1"] 60))] rows' ∧
    ResultsWithin smallBudgets.thresholdChars rows' := by
  refine (pruneSession_iff smallBudgets (fun _ => 0) (session_wellFormed _) (session_shows _)).mpr ?_
  intro row hrow m hm
  rcases List.mem_cons.mp hrow with rfl | hrow
  · cases hm
  · obtain rfl := List.mem_singleton.mp hrow
    cases hm
    decide

open Answered in
/-- Two result blocks of 30 characters each are left as they are, and are together over a threshold of 45. -/
theorem not_prunedAs_two : ∃ s rows, s.WellFormed ∧ s.ShowsResults rows ∧
    ¬∃ r s' rows', pruneSession smallBudgets (fun _ => 0) s = (.ok r, s') ∧ s.PrunedAs smallBudgets s' rows rows' ∧
      ResultsWithin smallBudgets.thresholdChars rows' := by
  refine ⟨session (answers ["c1", "c2"] 30), _, session_wellFormed _, session_shows _, ?_⟩
  rintro ⟨r, s', rows', hrun, has, hwithin⟩
  have hfits := prunedLength_le_of_run (session_wellFormed _) (session_shows _) hrun has.shows hwithin (2, _)
    (List.mem_cons_of_mem _ List.mem_cons_self) _ rfl
  revert hfits
  decide

end Pydsh
