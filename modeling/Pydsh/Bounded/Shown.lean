import Pydsh.Bounded.Pruner
import Pydsh.Lib.Result
import Pydsh.Llm.Serialize
import Pydsh.Session.Shown

/-!
# What pruning leaves of the surface

Pruning cuts text inside the result blocks of a message: the message that takes its place makes the same calls, answers the same ones
and has the same text of its own. So of the rows that the surface shows each is kept or replaced by one that does the same
(`pruneSession_shows`).
-/

namespace Pydsh

open Following

/-! ## One message -/

theorem pruneWalk_text {removedFrom removedTo : Nat} {t : String} {blocks : List PyValue} {start : Nat} {marked marked' : Bool}
    {vs : List PyValue} (h : pruneWalk removedFrom removedTo (.textBlock (.str t) :: blocks) start marked = .ok (vs, marked')) :
    ∃ text rest marked₁, pruneWalk removedFrom removedTo blocks (start + t.length) marked₁ = .ok (rest, marked') ∧
      vs = if text = "" then rest else .textBlock (.str text) :: rest := by
  rw [pruneWalk] at h
  generalize (decide (start < removedTo) && decide (start + t.length > removedFrom)) = overlaps at h
  generalize String.ofList (t.toList.take (min t.length (removedFrom - start))) ++
    (if (overlaps && !marked) = true then pruneMarker else "") ++
    String.ofList (t.toList.drop (min t.length (removedTo - start))) = text at h
  obtain ⟨walked, hrest, hreturn⟩ := Except.bind_eq_ok_iff.mp h
  obtain ⟨hvs, rfl⟩ := Prod.mk.inj (Except.ok.inj hreturn)
  exact ⟨text, walked.1, _, hrest, hvs.symm⟩

theorem pruneWalk_other {removedFrom removedTo : Nat} {block : PyValue} (hblock : ∀ text, block ≠ .textBlock text)
    {blocks : List PyValue} {start : Nat} {marked marked' : Bool} {vs : List PyValue}
    (h : pruneWalk removedFrom removedTo (block :: blocks) start marked = .ok (vs, marked')) :
    ∃ rest, pruneWalk removedFrom removedTo blocks start marked = .ok (rest, marked') ∧ vs = block :: rest := by
  rw [pruneWalk] at h
  · obtain ⟨walked, hrest, hreturn⟩ := Except.bind_eq_ok_iff.mp h
    obtain ⟨hvs, rfl⟩ := Prod.mk.inj (Except.ok.inj hreturn)
    exact ⟨walked.1, hrest, hvs.symm⟩
  · exact fun characters heq => hblock _ heq
  · exact fun text heq => hblock text heq

theorem pruneWalk_blocks {removedFrom removedTo : Nat} {bs : List ContentBlock} {start : Nat} {marked marked' : Bool}
    {vs : List PyValue} (h : pruneWalk removedFrom removedTo (ContentBlock.toPyList bs) start marked = .ok (vs, marked')) :
    ∃ bs', vs = ContentBlock.toPyList bs' := by
  induction bs generalizing start marked marked' vs with
  | nil =>
    cases h
    exact ⟨[], rfl⟩
  | cons b bs ih =>
    rw [ContentBlock.toPyList] at h
    by_cases htext : ∃ t, b = .text t
    · obtain ⟨t, rfl⟩ := htext
      obtain ⟨text, rest, marked₁, hrest, rfl⟩ := pruneWalk_text h
      obtain ⟨bs', rfl⟩ := ih hrest
      split
      · exact ⟨bs', rfl⟩
      · exact ⟨.text text :: bs', rfl⟩
    · have hblock : ∀ text, b.toPy ≠ .textBlock text := by
        intro text heq
        cases b with
        | text t => exact htext ⟨t, rfl⟩
        | _ => simp [ContentBlock.toPy] at heq
      obtain ⟨rest, hrest, rfl⟩ := pruneWalk_other hblock h
      obtain ⟨bs', rfl⟩ := ih hrest
      exact ⟨b :: bs', rfl⟩

theorem pruneContent_blocks {cfg : PrunerConfig} {bs : List ContentBlock} {pruned : Option (List PyValue)}
    (h : pruneContent cfg (ContentBlock.toPyList bs) = .ok pruned) :
    ∃ bs', pruned.getD (ContentBlock.toPyList bs) = ContentBlock.toPyList bs' := by
  unfold pruneContent at h
  simp only [bind, Except.bind] at h
  split at h
  · cases h
  · split at h
    · cases h
      exact ⟨bs, rfl⟩
    · split at h
      · cases h
      · rename_i walked hwalk
        obtain ⟨bs', hbs'⟩ := pruneWalk_blocks hwalk
        split at h
        · cases h
        · split at h
          · cases h
          · split at h
            · cases h
            · cases h
              exact ⟨bs', hbs'⟩

/-- The two blocks are the same call, the same text or results of the same call. -/
structure ContentBlock.SameUse (b b' : ContentBlock) : Prop where
  call : b'.call? = b.call?
  text : b'.text? = b.text?
  result : b'.result?.map (·.1) = b.result?.map (·.1)

theorem pruneBlock_block {cfg : PrunerConfig} {b : ContentBlock} {v : PyValue} (h : pruneBlock cfg b.toPy = .ok v) :
    ∃ b' : ContentBlock, v = b'.toPy ∧ b.SameUse b' := by
  cases b with
  | toolResult id content isError =>
    simp only [ContentBlock.toPy, pruneBlock, bind, Except.bind] at h
    split at h
    · cases h
    · rename_i pruned hpruned
      obtain ⟨content', hcontent'⟩ := pruneContent_blocks hpruned
      cases h
      exact ⟨.toolResult id content' isError, by rw [hcontent', ContentBlock.toPy], rfl, rfl, rfl⟩
  | _ =>
    cases h
    exact ⟨_, rfl, rfl, rfl, rfl⟩

theorem pruneBlocks_blocks {cfg : PrunerConfig} {bs : List ContentBlock} {vs : List PyValue}
    (h : pruneBlocks cfg (ContentBlock.toPyList bs) = .ok vs) :
    ∃ bs', vs = ContentBlock.toPyList bs' ∧ List.Forall₂ ContentBlock.SameUse bs bs' := by
  induction bs generalizing vs with
  | nil =>
    cases h
    exact ⟨[], rfl, .nil⟩
  | cons b bs ih =>
    simp only [ContentBlock.toPyList, pruneBlocks, bind, Except.bind] at h
    split at h
    · cases h
    · rename_i v hv
      obtain ⟨b', rfl, hb'⟩ := pruneBlock_block hv
      split at h
      · cases h
      · rename_i rest hrest
        obtain ⟨bs', rfl, hbs'⟩ := ih hrest
        cases h
        exact ⟨b' :: bs', rfl, .cons hb' hbs'⟩

/-- Blocks of the same use have the same calls, the same text and results of the same calls. -/
theorem sameUse_content {bs bs' : List ContentBlock} (h : List.Forall₂ ContentBlock.SameUse bs bs') :
    bs'.filterMap ContentBlock.call? = bs.filterMap ContentBlock.call? ∧ asText bs' = asText bs ∧
      (bs'.filterMap ContentBlock.result?).map (·.1) = (bs.filterMap ContentBlock.result?).map (·.1) := by
  have htexts : bs'.filterMap ContentBlock.text? = bs.filterMap ContentBlock.text? ∧
      bs'.filterMap ContentBlock.call? = bs.filterMap ContentBlock.call? ∧
      (bs'.filterMap ContentBlock.result?).map (·.1) = (bs.filterMap ContentBlock.result?).map (·.1) := by
    induction h with
    | nil => exact ⟨rfl, rfl, rfl⟩
    | cons hb _ ih =>
      obtain ⟨htexts, hcalls, hresults⟩ := ih
      simp only [List.filterMap_cons, hb.text, hb.call]
      refine ⟨by rw [htexts], by rw [hcalls], ?_⟩
      have hresult := hb.result
      revert hresult
      split <;> split <;> simp_all
  exact ⟨htexts.2.1, by rw [asText, htexts.1, asText], htexts.2.2⟩

/-- A message with content of the same use does the same to the results before it. -/
theorem messageRule_alike {m : Message} {content : List ContentBlock} (h : List.Forall₂ ContentBlock.SameUse m.content content) :
    messageRule.Alike m { m with content } := by
  obtain ⟨hcalls, htext, hresults⟩ := sameUse_content h
  have hids : ({ m with content } : Message).resultIds = m.resultIds := hresults
  refine ⟨?_, ?_, ?_⟩
  · show ({ m with content } : Message).following = m.following
    unfold Message.following
    rw [hids]
    simp only [htext]
  · show ({ m with content } : Message).callIds = m.callIds
    unfold Message.callIds
    simp only [hcalls]
  · show ({ m with content } : Message).sentResults = m.sentResults
    unfold Message.sentResults
    rw [hids]

/-! ## The rows of a surface -/

theorem loadsFields_eq_map (fields : List (String × Json)) :
    Json.loadsFields fields = fields.map (fun kv => (PyKey.str kv.1, kv.2.loads)) := by
  induction fields with
  | nil => rfl
  | cons field fields ih => rw [Json.loadsFields, ih, List.map_cons]

theorem beq_str (k key : String) : ((PyKey.str k == .str key) : Bool) = (k == key) := by
  rw [Bool.eq_iff_iff, beq_iff_eq, beq_iff_eq, PyKey.str.injEq]

/-- `{**fields, key: value}` on a document is a document that has the value under the key. -/
theorem putField_loads (fields : List (String × Json)) (key : String) (value : Json) :
    ∃ fields', putField (Json.loadsFields fields) key value.loads = Json.loadsFields fields' ∧ field? fields' key = some value := by
  simp only [putField, loadsFields_eq_map, List.any_map, List.map_map, Function.comp_def, beq_str]
  by_cases hany : fields.any (fun kv => kv.1 == key) = true
  · rw [if_pos hany]
    refine ⟨fields.map (fun kv => if kv.1 == key then (kv.1, value) else kv), ?_, ?_⟩
    · rw [List.map_map]
      refine List.map_congr_left (fun kv _ => ?_)
      simp only [Function.comp_apply]
      split <;> rfl
    · induction fields with
      | nil => cases hany
      | cons field fields ih =>
        obtain ⟨k, v⟩ := field
        by_cases hkey : k = key
        · simp [hkey]
        · have hrest : fields.any (fun kv => kv.1 == key) = true := by simpa [hkey] using hany
          rw [List.map_cons, if_neg (by simpa using hkey), field?_cons, if_neg (by simpa using hkey)]
          exact ih hrest
  · rw [if_neg hany]
    refine ⟨fields ++ [(key, value)], by rw [List.map_append, List.map_singleton], ?_⟩
    induction fields with
    | nil => simp
    | cons field fields ih =>
      obtain ⟨k, v⟩ := field
      simp only [List.any_cons, Bool.or_eq_true, not_or] at hany
      rw [List.cons_append, field?_cons, if_neg hany.1]
      exact ih hany.2

/-- The candidate is a tool result of the session, with the message decoded from it. -/
def PruneCandidate.Of (c : PruneCandidate) (s : Session) : Prop :=
  ∃ e, s.eventAt c.seq = some e ∧ e.type = .toolResult ∧ e.data = .obj c.fields ∧
    decodePayload ((field? c.fields "message").getD .null) = .ok c.message

theorem pruneCandidates_of {cfg : PrunerConfig} {s : Session} {seqs : List Nat} {cs : List PruneCandidate}
    (h : pruneCandidates cfg s seqs = .ok cs) : ∀ c ∈ cs, c.Of s := by
  induction seqs generalizing cs with
  | nil =>
    cases h
    exact fun c hc => absurd hc List.not_mem_nil
  | cons seq seqs ih =>
    unfold pruneCandidates at h
    split at h
    · exact ih h
    · rename_i e hat
      split at h
      · exact ih h
      · rename_i htype
        split at h
        · rename_i fields hdata
          split at h
          · cases h
          · rename_i message hmessage
            obtain ⟨chars, -, h⟩ := Except.bind_eq_ok_iff.mp h
            obtain ⟨rest, hrest, h⟩ := Except.bind_eq_ok_iff.mp h
            have hcs := Except.ok.inj h
            intro c hc
            rw [← hcs] at hc
            split at hc
            · rcases List.mem_cons.mp hc with rfl | hc
              · exact ⟨e, hat, by simpa using htype, hdata, hmessage⟩
              · exact ih hrest c hc
            · exact ih hrest c hc
        · cases h

/-- The row is kept, or it shows a tool result and a later one that does the same stands for it. -/
def PrunedRow (bound : Nat) (row row' : SurfaceRow) : Prop :=
  row' = row ∨
    (row.2.type = .toolResult ∧ row'.2.type = .toolResult ∧ bound < row'.1 ∧ messageRule.Alike row.message row'.message)

theorem PrunedRow.trans {n m : Nat} {row row₁ row₂ : SurfaceRow} (h : PrunedRow n row row₁) (h' : PrunedRow m row₁ row₂) (hle : n ≤ m) :
    PrunedRow n row row₂ := by
  rcases h with rfl | ⟨htype, htype₁, hbound, halike⟩
  · rcases h' with rfl | ⟨htype, htype', hbound, halike⟩
    · exact Or.inl rfl
    · exact Or.inr ⟨htype, htype', by omega, halike⟩
  · rcases h' with rfl | ⟨-, htype', hbound', halike'⟩
    · exact Or.inr ⟨htype, htype₁, hbound, halike⟩
    · exact Or.inr ⟨htype, htype', by omega, halike.trans halike'⟩

theorem PrunedRow.refl (n : Nat) (rows : List SurfaceRow) : List.Forall₂ (PrunedRow n) rows rows :=
  List.forall₂_same.mpr (fun _ _ => Or.inl rfl)

theorem PrunedRow.trans_rows {n m : Nat} (hle : n ≤ m) {rows rows₁ rows₂ : List SurfaceRow}
    (h : List.Forall₂ (PrunedRow n) rows rows₁) (h' : List.Forall₂ (PrunedRow m) rows₁ rows₂) :
    List.Forall₂ (PrunedRow n) rows rows₂ := by
  induction h generalizing rows₂ with
  | nil =>
    cases h'
    exact .nil
  | cons hrow _ ih =>
    cases h' with
    | cons hrow' hrest => exact .cons (hrow.trans hrow' hle) (ih hrest)

theorem PrunedRow.mem {n : Nat} {rows rows' : List SurfaceRow} (h : List.Forall₂ (PrunedRow n) rows rows') :
    ∀ row' ∈ rows', row' ∈ rows ∨ row'.2.type = .toolResult ∧ n < row'.1 := by
  induction h with
  | nil => exact fun _ hrow' => absurd hrow' List.not_mem_nil
  | @cons row row' rows rows' hrow _ ih =>
    intro other hother
    rcases List.mem_cons.mp hother with rfl | hother
    · rcases hrow with rfl | ⟨-, htype, hbound, -⟩
      · exact Or.inl List.mem_cons_self
      · exact Or.inr ⟨htype, hbound⟩
    · exact (ih other hother).imp (List.mem_cons_of_mem row) id

/-- The replacement of a candidate that holds a message takes its place, and carries the message that was pruned. -/
theorem append_pruneCall_carries (clock : Nat → Rat) {s : Session} {c : PruneCandidate} (hon : c.seq ∈ s.surfaceNodes) {m : Message}
    (hmessage : c.message = m.toPy) (content : List ContentBlock) :
    ∃ e, s.append (pruneCall clock c (ContentBlock.toPyList content)) =
        (.ok e, s.replaceRun (s.surfaceNodes.idxOf c.seq) (s.surfaceNodes.idxOf c.seq) e) ∧ e.seq = s.seq + 1 ∧
      e.Carries ⟨.toolResult, { m with content }⟩ := by
  obtain ⟨fields, hfields, hfield⟩ := putField_loads c.fields "message" ({ m with content } : Message).toJson
  have hcall : (pruneCall clock c (ContentBlock.toPyList content)).data = (Json.obj fields).loads := by
    have hwith : c.message.withContent (ContentBlock.toPyList content) = ({ m with content } : Message).toPy := by
      rw [hmessage]
      rfl
    simp only [pruneCall, hwith, encodePayload_message, hfields, Json.loads]
  have hrun : InOrder s.surfaceNodes c.seq c.seq := ⟨hon, hon, Nat.le_refl _⟩
  have htype : ((pruneCall clock c (ContentBlock.toPyList content)).event s (.obj fields)).type = .toolResult := rfl
  refine ⟨_, append_replace s hcall rfl rfl hrun, rfl, rfl, ?_⟩
  simp only [deriveEventMessage, htype, AppendCall.event_data, hfield, Option.getD_some]

theorem PruneCandidate.Of.message_eq {c : PruneCandidate} {s : Session} (hof : c.Of s) {e : SessionEvent} {entry : Entry}
    (hat : s.eventAt c.seq = some e) (hcarries : e.Carries entry) : entry.type = .toolResult ∧ c.message = entry.message.toPy := by
  obtain ⟨e', hat', htype, hdata, hdecode⟩ := hof
  obtain rfl := Option.some.inj (hat.symm.trans hat')
  have hderive := hcarries.message
  simp only [deriveEventMessage, htype, hdata, Except.ok.injEq] at hderive
  rw [hderive, decodePayload_message] at hdecode
  exact ⟨hcarries.type.symm.trans htype, (Except.ok.inj hdecode).symm⟩

/-- The replacement of a candidate takes the place of its row. -/
theorem append_pruneCall {cfg : PrunerConfig} (clock : Nat → Rat) {s : Session} {rows : List SurfaceRow} (hs : s.Tidy)
    (h : s.Shows rows) {c : PruneCandidate} (hof : c.Of s) (hon : c.seq ∈ s.surfaceNodes) {content : List PyValue}
    (hcontent : pruneBlocks cfg c.message.content = .ok content) :
    ∃ e rows', s.append (pruneCall clock c content) =
        (.ok e, s.replaceRun (s.surfaceNodes.idxOf c.seq) (s.surfaceNodes.idxOf c.seq) e) ∧ e.seq = s.seq + 1 ∧
      (s.replaceRun (s.surfaceNodes.idxOf c.seq) (s.surfaceNodes.idxOf c.seq) e).Shows rows' ∧
      List.Forall₂ (PrunedRow s.seq) rows rows' := by
  -- the row of the candidate shows the message that was decoded from it
  have hlt := List.idxOf_lt_length_of_mem hon
  have hlen : s.surfaceNodes.idxOf c.seq < rows.length := by
    rw [h.nodes, List.length_map] at hlt
    rwa [h.nodes]
  obtain ⟨row, hrow⟩ : ∃ row, rows[s.surfaceNodes.idxOf c.seq]? = some row := ⟨_, List.getElem?_eq_getElem hlen⟩
  have hnode : row.1 = c.seq := by
    have hget : s.surfaceNodes[s.surfaceNodes.idxOf c.seq]? = some row.1 := by
      conv_lhs => rw [h.nodes, List.getElem?_map, ← h.nodes, hrow, Option.map_some]
    rw [List.getElem?_eq_getElem hlt, List.getElem_idxOf] at hget
    exact (Option.some.inj hget).symm
  obtain ⟨e, hat, hcarries⟩ := h.carries row (List.mem_of_getElem? hrow)
  rw [hnode] at hat
  obtain ⟨htype, hmessage⟩ := hof.message_eq hat hcarries
  rw [hmessage, Message.toPy, PyValue.content] at hcontent
  obtain ⟨blocks, rfl, hsame⟩ := pruneBlocks_blocks hcontent
  -- and what replaces it shows the pruned one
  obtain ⟨e', happ, hseq, hnew⟩ := append_pruneCall_carries clock hon hmessage blocks
  have hpruned : PrunedRow s.seq row (e'.seq, ⟨.toolResult, { row.message with content := blocks }⟩) :=
    Or.inr ⟨htype, rfl, by rw [hseq]; exact Nat.lt_succ_self _, messageRule_alike hsame⟩
  have hkept : ∀ other, PrunedRow s.seq other other := fun _ => Or.inl rfl
  exact ⟨e', _, happ, hseq, h.replaceRun hs hseq hnew _ _, Splice.forall₂_splice hkept hrow hpruned⟩

/-- Pruning the candidates replaces rows by such that do the same. -/
theorem pruneAll_shows (cfg : PrunerConfig) (clock : Nat → Rat) {cs : List PruneCandidate} {s : Session} {rows : List SurfaceRow}
    (hs : s.WellFormed) (h : s.Shows rows) (hnd : (cs.map (·.seq)).Nodup) (hsurface : ∀ c ∈ cs, c.seq ∈ s.surfaceNodes)
    (hof : ∀ c ∈ cs, c.Of s) :
    ∃ rows', (pruneAll cfg clock cs s).2.Shows rows' ∧ List.Forall₂ (PrunedRow s.seq) rows rows' := by
  induction cs generalizing s rows with
  | nil => exact ⟨rows, h, PrunedRow.refl _ rows⟩
  | cons c cs ih =>
    obtain ⟨hc, hnd⟩ := List.nodup_cons.mp hnd
    have hrest : ∀ c' ∈ cs, c'.seq ∈ s.surfaceNodes ∧ c'.Of s ∧ c'.seq ≠ c.seq := by
      intro c' hc'
      refine ⟨hsurface c' (List.mem_cons_of_mem c hc'), hof c' (List.mem_cons_of_mem c hc'), ?_⟩
      intro heq
      exact hc (List.mem_map.mpr ⟨c', hc', heq⟩)
    unfold pruneAll
    split
    · exact ⟨rows, h, PrunedRow.refl _ rows⟩
    · exact ⟨rows, h, PrunedRow.refl _ rows⟩
    · rename_i before content _ hcontent
      split
      · exact ⟨rows, h, PrunedRow.refl _ rows⟩
      · split
        · exact ih hs h hnd (fun c' hc' => (hrest c' hc').1) (fun c' hc' => (hrest c' hc').2.1)
        · have hon := hsurface c List.mem_cons_self
          obtain ⟨e, rows₁, happ, hseq, hshows, hpruned⟩ :=
            append_pruneCall clock hs.tidy h (hof c List.mem_cons_self) hon hcontent
          have hwf := hs.append (pruneCall clock c content)
          rw [happ] at hwf
          have hstand : ∀ c' ∈ cs, c'.seq ∈
              (s.replaceRun (s.surfaceNodes.idxOf c.seq) (s.surfaceNodes.idxOf c.seq) e).surfaceNodes := by
            intro c' hc'
            obtain ⟨hon', -, hne⟩ := hrest c' hc'
            refine Splice.mem_splice_of_not_mem_segment (Nat.le_refl _) hon' ?_
            rw [segment_idxOf_self hon, List.mem_singleton]
            exact hne
          have hread : ∀ c' ∈ cs, c'.Of (s.replaceRun (s.surfaceNodes.idxOf c.seq) (s.surfaceNodes.idxOf c.seq) e) := by
            intro c' hc'
            obtain ⟨hon', ⟨e', hat, hrecord⟩, -⟩ := hrest c' hc'
            have hle := (hs.surface_le hon').2
            exact ⟨e', (eventAt_commit s (by omega)).trans hat, hrecord⟩
          obtain ⟨rows₂, hshows₂, hpruned₂⟩ := ih hwf hshows hnd hstand hread
          refine ⟨rows₂, ?_, PrunedRow.trans_rows (Nat.le_succ _) hpruned hpruned₂⟩
          rw [happ]
          simp only
          split
          · rename_i heq
            rwa [heq] at hshows₂
          · rename_i heq
            rwa [heq] at hshows₂

/-- `prune_session` replaces rows of the surface by such that do the same, whether it returns or raises. -/
theorem pruneSession_shows (cfg : PrunerConfig) (clock : Nat → Rat) {s : Session} {rows : List SurfaceRow} (hs : s.WellFormed)
    (h : s.Shows rows) :
    ∃ rows', (pruneSession cfg clock s).2.Shows rows' ∧ List.Forall₂ (PrunedRow s.seq) rows rows' := by
  unfold pruneSession
  split
  · exact ⟨rows, h, PrunedRow.refl _ rows⟩
  · rename_i cs hcs
    have hsub := pruneCandidates_sublist hcs
    exact pruneAll_shows cfg clock hs h (hs.nodup.sublist hsub) (fun c hc => hsub.subset (List.mem_map_of_mem hc))
      (pruneCandidates_of hcs)

end Pydsh
