import Pydsh.Agent.Shared
import Pydsh.Agent.ToolResults
import Pydsh.Compaction.Shadow
import Pydsh.Session.Cuts
import Pydsh.Session.Vocabulary

/-!
# Nothing comes between a call and its results

What the steps of the agent and of those beside it keep of the surface, where they put nothing between calls and their results: each
message with results comes right behind the message that made the calls, behind the end of a run that waits for its summary comes no
tool result, and while tools run their reply is not the end of such a run (`Orderly`, `Asked`). A step without that condition is a
timer's, while a tool runs (`tick_between`).
-/

namespace Pydsh

open Following

/-! ## What comes behind a node -/

/-- No tool result comes right behind the node. -/
def Behind (node : Nat) (rows : List SurfaceRow) : Prop :=
  rows.IsChain (fun row next => row.1 = node → next.2.type ≠ .toolResult)

namespace Behind

variable {node : Nat} {rows added : List SurfaceRow}

theorem of_ne (h : ∀ row ∈ rows, row.1 ≠ node) : Behind node rows := by
  induction rows with
  | nil => exact .nil
  | cons row rows ih =>
    refine List.isChain_cons.mpr ⟨fun next _ heq => absurd heq (h row List.mem_cons_self), ?_⟩
    exact ih (fun other hother => h other (List.mem_cons_of_mem row hother))

theorem append (h : Behind node rows) (hadded : ∀ row ∈ added, row.1 ≠ node)
    (hjoin : ∀ row next, rows.getLast? = some row → added.head? = some next → row.1 = node → next.2.type ≠ .toolResult) :
    Behind node (rows ++ added) :=
  List.isChain_append.mpr ⟨h, of_ne hadded, fun row hrow next hnext => hjoin row next hrow hnext⟩

theorem splice (h : Behind node rows) {new : SurfaceRow} (hnode : new.1 ≠ node) (htype : new.2.type ≠ .toolResult) (first last : Nat) :
    Behind node (Splice.splice rows first last new) := by
  refine List.isChain_append.mpr ⟨h.take _, List.isChain_cons.mpr ⟨fun next _ heq => absurd heq hnode, h.drop _⟩, ?_⟩
  intro row _ next hnext _
  cases hnext
  exact htype

theorem pruned {n : Nat} (hle : node ≤ n) {rows rows' : List SurfaceRow} (hpruned : List.Forall₂ (PrunedRow n) rows rows')
    (h : Behind node rows) : Behind node rows' := by
  induction hpruned with
  | nil => exact h
  | @cons row row' rows rows' hrow hrows ih =>
    obtain ⟨hjoin, hrest⟩ := List.isChain_cons.mp h
    refine List.isChain_cons.mpr ⟨?_, ih hrest⟩
    intro next' hnext' heq
    have hsame : row' = row := by
      rcases hrow with hsame | ⟨-, -, hbound, -⟩
      · exact hsame
      · omega
    subst hsame
    cases hrows with
    | nil => cases hnext'
    | @cons next _ _ _ hnext _ =>
      cases hnext'
      have htype := hjoin next rfl heq
      rcases hnext with rfl | ⟨hold, -, -, -⟩
      · exact htype
      · exact absurd hold htype

end Behind

namespace Session.Shows

variable {s : Session} {rows : List SurfaceRow}

theorem row_at (h : s.Shows rows) {i n : Nat} (hn : s.surfaceNodes[i]? = some n) : ∃ row, rows[i]? = some row ∧ row.1 = n := by
  rw [h.nodes, List.getElem?_map] at hn
  exact Option.map_eq_some_iff.mp hn

/-- Behind a node where the surface can be cut comes no result, and the node makes no call. -/
theorem balancedAfter (h : s.Shows rows) (hs : s.WellFormed) {node : Nat} (hcut : balancedAfter s node = .ok true) :
    Behind node rows ∧ ∀ row ∈ rows, row.1 = node → row.2.delta ≤ 0 := by
  obtain ⟨flags, hflags, hon, hflag⟩ := balancedAfter_eq_ok hcut
  obtain ⟨walked, hwalk, rfl⟩ := surfaceBalance_eq_ok hflags
  obtain ⟨hwalks, -, hrest⟩ := walkBalance_cut hwalk hflag
  have hindex : ∀ i, s.surfaceNodes[i]? = some node → i = s.surfaceNodes.idxOf node := by
    intro i hi
    obtain ⟨hlt, hget⟩ := List.getElem?_eq_some_iff.mp hi
    rw [← hget, hs.nodup.idxOf_getElem]
  have hdelta : ∀ row ∈ rows, ∀ e d, s.eventAt row.1 = some e → outstandingDelta e = .ok d → d = row.2.delta := by
    intro row hrow e d hat hd
    obtain ⟨e', hat', hcarry⟩ := h.carries row hrow
    rw [hat'] at hat
    cases hat
    rw [hcarry.outstandingDelta] at hd
    exact (Except.ok.inj hd).symm
  refine ⟨?_, ?_⟩
  · refine List.isChain_iff_getElem.mpr (fun i hi hnode htype => ?_)
    have hat : s.surfaceNodes[i]? = some node := by
      rw [h.nodes, List.getElem?_map, List.getElem?_eq_getElem (by omega), Option.map_some, hnode]
    have hnext : s.surfaceNodes[i + 1]? = some rows[i + 1].1 := by
      rw [h.nodes, List.getElem?_map, List.getElem?_eq_getElem hi, Option.map_some]
    rw [← hindex i hat] at hrest
    obtain ⟨hlt, hget⟩ := List.getElem?_eq_some_iff.mp hnext
    rw [List.drop_eq_getElem_cons hlt, hget] at hrest
    obtain ⟨e, d, rest, he, hd, hle, -, -⟩ := walkBalance_cons_eq_ok hrest
    have hresult := hdelta _ (List.getElem_mem hi) e d he hd
    simp only [Entry.delta, htype] at hresult
    omega
  · intro row hrow hnode
    have hlt := List.idxOf_lt_length_of_mem hon
    rw [List.take_succ_eq_append_getElem hlt, List.getElem_idxOf] at hwalks
    obtain ⟨k, hbefore, e, d, he, hd, hle, hzero⟩ := hwalks.of_append
    have hnonneg := hbefore.nonneg (Int.le_refl 0)
    have hsame := hdelta row hrow e d (hnode ▸ he) hd
    have hzero : k + d = 0 := hzero
    omega

theorem requestMessages (h : s.Shows rows) (l : Loop) :
    l.requestMessages s = .ok ((rows.map SurfaceRow.message).map Message.toPy) := by
  have hdecoded := Loop.decodeList_messages [] (rows.map SurfaceRow.message)
  rw [List.nil_append, List.map_map] at hdecoded
  have hdecode : decodeList (rows.map (fun row => row.2.message.toJson)) = .ok ((rows.map SurfaceRow.message).map Message.toPy) :=
    hdecoded
  simp only [Loop.requestMessages, h.deriveMessages, hdecode]

end Session.Shows

/-! ## What the surface keeps -/

/-- The surface of a session with compactions under way: its messages come right behind those whose calls they answer, and behind the
run of a compaction comes no result. -/
structure Orderly (st : CompactionState) (rows : List SurfaceRow) : Prop where
  wellFormed : st.session.WellFormed
  shows : st.session.Shows rows
  walks : messageRule.Walks [] (rows.map SurfaceRow.message)
  replies : ∀ row ∈ rows, row.2.type = .assistantMessage → row.message.sentResults = []
  flights : ∀ p ∈ st.flights, p.last ≤ st.session.seq ∧ Behind p.last rows

/-- The rows are those of before, or newer. -/
def Newer (seq : Nat) (rows rows' : List SurfaceRow) : Prop := ∀ row ∈ rows', row ∈ rows ∨ seq < row.1

namespace Orderly

variable {st : CompactionState} {rows : List SurfaceRow} {session : Session}

theorem tells (h : Orderly st rows) (hsession : session.WellFormed) {entries : List Entry} (htells : st.session.Tells session entries)
    (hwalks : messageRule.Walks (messageRule.opened [] (rows.map SurfaceRow.message)) (entries.map (·.message)))
    (hreplies : ∀ entry ∈ entries, entry.type = .assistantMessage → entry.message.sentResults = [])
    (hjoin : ∀ p ∈ st.flights, ∀ row entry, rows.getLast? = some row → entries.head? = some entry → row.1 = p.last →
      entry.type ≠ .toolResult) :
    ∃ added : List SurfaceRow, added.map (·.2) = entries ∧ (∀ row ∈ added, st.session.seq < row.1) ∧
      Orderly { st with session } (rows ++ added) := by
  obtain ⟨added, hentries, hnew, hshows⟩ := h.shows.tells h.wellFormed.tidy htells
  have hmessages : added.map SurfaceRow.message = entries.map (·.message) := by
    rw [← hentries, List.map_map]
    rfl
  have hseq : st.session.seq ≤ session.seq := by
    obtain ⟨log, hadds, -⟩ := htells
    exact hadds.seq
  refine ⟨added, hentries, hnew, hsession, hshows, ?_, ?_, ?_⟩
  · rw [List.map_append, hmessages]
    exact Rule.walks_append.mpr ⟨h.walks, hwalks⟩
  · intro row hrow
    rcases List.mem_append.mp hrow with hrow | hrow
    · exact h.replies row hrow
    · exact hreplies row.2 (hentries ▸ List.mem_map_of_mem hrow)
  · intro p hp
    obtain ⟨hle, hbehind⟩ := h.flights p hp
    refine ⟨Nat.le_trans hle hseq, hbehind.append (fun row hrow => ?_) (fun row next hlast hhead => ?_)⟩
    · have := hnew row hrow
      omega
    · refine hjoin p hp row next.2 hlast ?_
      rw [← hentries, List.head?_map, hhead, Option.map_some]

/-- An event that is on the log only, or one whose replacement raised. -/
theorem commit (h : Orderly st rows) {e : SessionEvent} (he : e.seq = st.session.seq + 1) :
    Orderly { st with session := st.session.commit e } rows :=
  ⟨h.wellFormed.commit he, h.shows.commit h.wellFormed.tidy he, h.walks, h.replies, fun p hp =>
    ⟨Nat.le_succ_of_le (h.flights p hp).1, (h.flights p hp).2⟩⟩

theorem flightsSublist (h : Orderly st rows) {flights : List Pending} (hsub : ∀ p ∈ flights, p ∈ st.flights) :
    Orderly { st with flights } rows :=
  ⟨h.wellFormed, h.shows, h.walks, h.replies, fun p hp => h.flights p (hsub p hp)⟩

theorem prune (h : Orderly st rows) (cfg : PrunerConfig) (clock : Nat → Rat) :
    ∃ rows', Newer st.session.seq rows rows' ∧ Orderly { st with session := (pruneSession cfg clock st.session).2 } rows' := by
  obtain ⟨rows', hshows, hpruned⟩ := pruneSession_shows cfg clock h.wellFormed h.shows
  have hgrows := pruneSession_grows cfg clock h.wellFormed
  have hwf := hgrows.wellFormed h.wellFormed
  have hseq := h.wellFormed.seq_le hwf hgrows
  have hkept := PrunedRow.mem hpruned
  refine ⟨rows', fun row' hrow' => (hkept row' hrow').imp id (·.2), hwf, hshows, ?_, ?_, ?_⟩
  · refine h.walks.alike (List.forall₂_map_left_iff.mpr (List.forall₂_map_right_iff.mpr (hpruned.imp ?_)))
    rintro row row' (rfl | ⟨-, -, -, halike⟩)
    · exact Rule.Alike.refl _
    · exact halike
  · intro row' hrow' htype
    rcases hkept row' hrow' with hrow | ⟨hresult, -⟩
    · exact h.replies row' hrow htype
    · rw [hresult] at htype
      cases htype
  · intro p hp
    obtain ⟨hle, hbehind⟩ := h.flights p hp
    exact ⟨Nat.le_trans hle hseq, hbehind.pruned hle hpruned⟩

/-- A compaction begins: behind its run comes no result, and none of the run's end calls a tool. -/
theorem started (h : Orderly st rows) {env : CompactionEnv} {start stop first last : Nat}
    (hcheck : checkRegion st.session start stop = .ok (first, last)) (messages : List PyValue) :
    Orderly { session := Pydsh.started env first last st.session,
              flights := pendingOf env st.session (shadowedNodes st.session start stop) first last messages :: st.flights } rows ∧
      ∀ row ∈ rows, row.1 = last → row.2.delta ≤ 0 := by
  obtain ⟨-, -, -, -, hafter⟩ := checkRegion_eq_ok_iff.mp hcheck
  obtain ⟨hbehind, hdelta⟩ := h.shows.balancedAfter h.wellFormed hafter
  have hle : last ≤ st.session.seq := (h.wellFormed.surface_le (checkRegion_inOrder h.wellFormed hcheck).2.1).2
  have hcommit := h.commit (e := (startCall env first last).event st.session (startData env first last)) rfl
  refine ⟨⟨hcommit.wellFormed, hcommit.shows, h.walks, h.replies, ?_⟩, hdelta⟩
  intro p hp
  rcases List.mem_cons.mp hp with rfl | hp
  · exact ⟨Nat.le_succ_of_le hle, hbehind⟩
  · exact hcommit.flights p hp

/-- Right behind a node that no result comes behind, and no copy of one, comes a message that needs nothing. -/
theorem free_behind (h : Orderly st rows) {node : Nat} (hbehind : Behind node rows) (hon : node ∈ st.session.surfaceNodes)
    {next : SurfaceRow} (hnext : rows[st.session.surfaceNodes.idxOf node + 1]? = some next)
    (hcopy : ∀ next e m, st.session.surfaceNodes[st.session.surfaceNodes.idxOf node + 1]? = some next →
      st.session.eventAt next = some e → e.Carries ⟨.userMessage, m⟩ → m.sentResults = []) :
    next.message.sentResults = [] := by
  obtain ⟨e, hat, hcarries⟩ := h.shows.carries next (List.mem_of_getElem? hnext)
  have hlt := List.idxOf_lt_length_of_mem hon
  have hnode : st.session.surfaceNodes[st.session.surfaceNodes.idxOf node]? = some node := by
    rw [List.getElem?_eq_getElem hlt, List.getElem_idxOf]
  obtain ⟨row, hrow, hnode⟩ := h.shows.row_at hnode
  have htype : next.2.type ≠ .toolResult := by
    obtain ⟨hi, hget⟩ := List.getElem?_eq_some_iff.mp hrow
    obtain ⟨hi', hget'⟩ := List.getElem?_eq_some_iff.mp hnext
    have hchain := List.isChain_iff_getElem.mp hbehind _ hi'
    rw [hget, hget'] at hchain
    exact hchain hnode
  have hmessage := hcarries.message
  cases hnexttype : next.2.type with
  | userMessage =>
    have hat' : st.session.surfaceNodes[st.session.surfaceNodes.idxOf node + 1]? = some next.1 := by
      conv_lhs => rw [h.shows.nodes, List.getElem?_map, ← h.shows.nodes, hnext, Option.map_some]
    exact hcopy next.1 e next.message hat' hat ⟨hcarries.type.trans hnexttype, hmessage⟩
  | assistantMessage => exact h.replies next (List.mem_of_getElem? hnext) hnexttype
  | toolResult => exact absurd hnexttype htype
  | _ =>
    -- no other event carries a message
    rw [← hcarries.type] at hnexttype
    simp [deriveEventMessage, hnexttype, Message.toJson] at hmessage

/-- The checkpoint of a compaction takes the place of its run, behind which no results of tools come. -/
theorem checkpointed (h : Orderly st rows) {p : Pending} (hp : p ∈ st.flights)
    (hrun : InOrder st.session.surfaceNodes p.first p.last)
    (hcopy : ∀ next e m, st.session.surfaceNodes[st.session.surfaceNodes.idxOf p.last + 1]? = some next →
      st.session.eventAt next = some e → e.Carries ⟨.userMessage, m⟩ → m.sentResults = []) (summary : String) :
    ∃ rows', Newer st.session.seq rows rows' ∧ Orderly { st with session := Pydsh.checkpointed p summary st.session } rows' := by
  have hsummarised := h.commit (e := (summaryCall p summary).event st.session (summaryData p summary)) rfl
  have hcarries : (checkpointEvent p summary st.session).Carries ⟨.userMessage, checkpointMessage p summary⟩ := ⟨rfl, rfl⟩
  have hshows := hsummarised.shows.replaceRun hsummarised.wellFormed.tidy (e := checkpointEvent p summary st.session) rfl hcarries
    (st.session.surfaceNodes.idxOf p.first) (st.session.surfaceNodes.idxOf p.last)
  have hwf : (Pydsh.checkpointed p summary st.session).WellFormed := by
    have happend := hsummarised.wellFormed.append (checkpointCall p summary (st.session.seq + 1))
    have hcheckpoint := append_checkpointCall hrun summary
    unfold summarised at hcheckpoint
    rwa [hcheckpoint] at happend
  have hbehind : ∀ m, (rows.map SurfaceRow.message)[st.session.surfaceNodes.idxOf p.last + 1]? = some m →
      messageRule.needs m = [] := by
    intro m hm
    rw [List.getElem?_map, Option.map_eq_some_iff] at hm
    obtain ⟨next, hnext, rfl⟩ := hm
    exact h.free_behind (h.flights p hp).2 hrun.2.1 hnext hcopy
  refine ⟨_, ?_, hwf, hshows, ?_, ?_, ?_⟩
  · intro row hrow
    rcases Splice.mem_of_mem_splice hrow with rfl | hrow
    · refine Or.inr ?_
      simp only [checkpointEvent, summarised, AppendCall.event_seq, Session.commit_seq]
      omega
    · exact Or.inl hrow
  · have hmap : ∀ first last (new : SurfaceRow), (Splice.splice rows first last new).map SurfaceRow.message =
        Splice.splice (rows.map SurfaceRow.message) first last new.message := by
      intro first last new
      simp only [Splice.splice, List.map_append, List.map_cons, List.map_take, List.map_drop]
    rw [hmap]
    exact h.walks.splice rfl hbehind
  · intro row hrow htype
    rcases Splice.mem_of_mem_splice hrow with rfl | hrow
    · cases htype
    · exact h.replies row hrow htype
  · intro q hq
    obtain ⟨hle, hqbehind⟩ := h.flights q hq
    refine ⟨Nat.le_succ_of_le (Nat.le_succ_of_le hle), hqbehind.splice ?_ ?_ _ _⟩
    · simp only [checkpointEvent, summarised, AppendCall.event_seq, Session.commit_seq]
      omega
    · exact EventType.noConfusion

end Orderly

/-- While tools run, their reply is on the surface or gone from it, and it is not the end of a run that a compaction takes out. -/
structure Asked (l : Loop) (w : StepWorld) (reply : Nat) (st : CompactionState) (rows : List SurfaceRow) : Prop where
  called : w.calls ≠ []
  written : reply ≤ st.session.seq
  row : ∀ row ∈ rows, row.1 = reply → row.2 = ⟨.assistantMessage, l.replyMessage w w.assembler⟩
  apart : ∀ p ∈ st.flights, p.last ≠ reply

theorem Asked.keep {l : Loop} {w : StepWorld} {reply : Nat} {st st' : CompactionState} {rows rows' : List SurfaceRow}
    (h : Asked l w reply st rows) (hseq : st.session.seq ≤ st'.session.seq) (hrows : Newer st.session.seq rows rows')
    (hflights : ∀ p ∈ st'.flights, p ∈ st.flights ∨ p.last ≠ reply) : Asked l w reply st' rows' := by
  have hwritten := h.written
  refine ⟨h.called, Nat.le_trans hwritten hseq, ?_, ?_⟩
  · intro row hrow hnode
    rcases hrows row hrow with hrow | hnew
    · exact h.row row hrow hnode
    · omega
  · intro p hp
    rcases hflights p hp with hp | hne
    · exact h.apart p hp
    · exact hne

/-! ## Sessions that grow by what tells nothing -/

/-- The session grows, with nothing more on its surface. -/
structure Session.Silent (s s' : Session) : Prop where
  tells : s.Tells s' []
  wellFormed : s.WellFormed → s'.WellFormed

theorem Session.Silent.trans {s s₁ s₂ : Session} (h₁ : s.Silent s₁) (h₂ : s₁.Silent s₂) : s.Silent s₂ :=
  ⟨h₁.tells.trans h₂.tells, fun hs => h₂.wellFormed (h₁.wellFormed hs)⟩

theorem Session.Silent.append (s : Session) {c : AppendCall} (hlog : c.eventType.isSurface = false) : s.Silent (s.append c).2 :=
  ⟨.append_other s hlog, fun hs => hs.append c⟩

namespace Loop

variable (l : Loop)

theorem alone_quiet : l.alone.Quiet :=
  ⟨fun _ _ hc => absurd hc List.not_mem_nil, fun _ _ hc => absurd hc List.not_mem_nil⟩

theorem write_wellFormed (type : EventType) (data : PyValue) : Effect.Keeps Session.WellFormed (l.alone.write type data) := by
  intro s hs
  rw [l.alone.write_snd]
  exact hs.append _

theorem enter_wellFormed (messages : List Message) : Effect.Keeps Session.WellFormed (l.alone.enter messages) := by
  induction messages with
  | nil => exact .pure ()
  | cons message messages ih => exact .bind (l.write_wellFormed _ _) (fun _ => ih)

theorem writeResults_wellFormed (turn step : Nat) (w : StepWorld) (calls : List ToolCallBlock) :
    Effect.Keeps Session.WellFormed (l.alone.writeResults turn step w calls) := by
  induction calls with
  | nil => exact .pure []
  | cons call calls ih =>
    refine .bind (l.write_wellFormed _ _) (fun _ => .bind (l.write_wellFormed _ _) (fun _ => .bind ih (fun _ => .pure _)))

theorem closeTurn_wellFormed (turn : Nat) (ended : Except Raised PyValue) :
    Effect.Keeps Session.WellFormed (l.alone.closeTurn turn ended) := by
  have hend : ∀ reason, Effect.Keeps Session.WellFormed (l.alone.endTurn turn reason) := fun reason => l.write_wellFormed _ _
  match ended with
  | .ok reason => exact hend reason
  | .error (.cancelled reason) => exact hend _
  | .error (.failed error) => exact .bind (hend _) (fun _ => .raise _)
  | .error .base => exact .bind (hend _) (fun _ => .raise _)

theorem write_silent (s : Session) {type : EventType} (hlog : type.isSurface = false) (data : PyValue) :
    s.Silent (l.alone.write type data s).2 := by
  rw [l.alone.write_snd]
  exact .append _ hlog

theorem closeTurn_silent (turn : Nat) (ended : Except Raised PyValue) (s : Session) : s.Silent (l.alone.closeTurn turn ended s).2 :=
  ⟨l.alone_quiet.closeTurn_tells turn s ended, l.closeTurn_wellFormed turn ended s⟩

theorem setRequest_silent (s : Session) : s.Silent (l.setRequest s) :=
  ⟨l.setRequest_tells s, fun hs => ⟨hs.dense, hs.nodup, hs.surface⟩⟩

end Loop

/-! ## A tick -/

/-- A delivery says something in a message of the user, without results of tools. -/
theorem deliverAll_tells (clock : FloatClock) (stamp : Int) (messageId : String → String) (time : Rat) (records : List ScheduleRecord)
    (s : Session) :
    ∃ entries, s.Tells (deliverAll clock stamp messageId time records s).2 entries ∧
      (s.WellFormed → (deliverAll clock stamp messageId time records s).2.WellFormed) ∧
      ∀ entry ∈ entries, entry.type = .userMessage ∧ entry.message.sentResults = [] := by
  induction records generalizing s with
  | nil => exact ⟨[], .refl s, id, fun _ hentry => absurd hentry List.not_mem_nil⟩
  | cons record rest ih =>
    unfold deliverAll
    split
    · exact ih s
    · let delivery := deliveryOf clock stamp (messageId record.id) record
      obtain ⟨e, s₁, happend, htells⟩ := Session.Tells.append_surface s (c := userCall delivery.message time)
        (encodePayload_message delivery.message) rfl rfl (m := delivery.message)
        (fun e htype hdata => by simp [deriveEventMessage, htype, hdata, userCall])
      have hwf := fun hs : s.WellFormed => hs.append (userCall delivery.message time)
      have hfree : ∀ entry ∈ [(⟨.userMessage, delivery.message⟩ : Entry)],
          entry.type = .userMessage ∧ entry.message.sentResults = [] := by
        intro entry hentry
        rw [List.mem_singleton.mp hentry]
        exact ⟨rfl, rfl⟩
      obtain ⟨e', s₂, happend', htells'⟩ := Session.Tells.append_logOnly s₁
        (c := scheduleCall (firedChange record.id stamp (nextAt record.rule stamp)) time) rfl rfl rfl rfl
      have hwf' := fun hs : s₁.WellFormed => hs.append (scheduleCall (firedChange record.id stamp (nextAt record.rule stamp)) time)
      obtain ⟨entries, hrest, hrestwf, hrestfree⟩ := ih s₂
      rw [happend] at hwf
      rw [happend'] at hwf'
      refine ⟨[⟨.userMessage, delivery.message⟩] ++ entries, ?_, ?_, ?_⟩
      · simp only [delivery] at happend
        simp only [happend, happend']
        have htold := htells.trans (htells'.trans hrest)
        split <;> (rename_i heq; rw [heq] at htold; exact htold)
      · intro hs
        have hdone := hrestwf (hwf' (hwf hs))
        simp only [delivery] at happend
        simp only [happend, happend']
        split <;> (rename_i heq; rw [heq] at hdone; exact hdone)
      · intro entry hentry
        rcases List.mem_append.mp hentry with hentry | hentry
        · exact hfree entry hentry
        · exact hrestfree entry hentry

theorem tick_tells (clock : FloatClock) (s : Session) (stamp : Int) (messageId : String → String) (time : Rat) :
    ∃ entries, s.Tells (tick clock s stamp messageId time).2 entries ∧
      (s.WellFormed → (tick clock s stamp messageId time).2.WellFormed) ∧
      ∀ entry ∈ entries, entry.type = .userMessage ∧ entry.message.sentResults = [] := by
  unfold tick
  split
  · exact ⟨[], .refl s, id, fun _ hentry => absurd hentry List.not_mem_nil⟩
  · exact deliverAll_tells clock stamp messageId time _ s

/-! ## Every step -/

namespace SharedRun

/-- Tools run. -/
def isRunning (phase : SharedPhase) : Bool :=
  match phase with
  | .running _ _ _ _ => true
  | _ => false

/-- What the steps keep. -/
def Inv (l : Loop) (s : SharedRun) : Prop :=
  ∃ rows, Orderly s.compactions rows ∧
    ∀ turn step w reply, s.phase = .running turn step w reply → Asked l w reply s.compactions rows

variable {l : Loop} {s s' : SharedRun}

theorem Inv.rest {rows : List SurfaceRow} (h : Orderly s.compactions rows) (hphase : isRunning s.phase = false) : s.Inv l := by
  refine ⟨rows, h, fun turn step w reply hrunning => ?_⟩
  rw [hrunning] at hphase
  cases hphase

/-- A surface that is in order stays so where nothing is told. -/
theorem Orderly.silent {st : CompactionState} {rows : List SurfaceRow} (h : Orderly st rows) {session : Session}
    (hsilent : st.session.Silent session) : Orderly { st with session } rows := by
  obtain ⟨added, hentries, -, horderly⟩ := h.tells (hsilent.wellFormed h.wellFormed) hsilent.tells trivial
    (fun _ hentry => absurd hentry List.not_mem_nil) (fun _ _ _ _ _ hhead => by cases hhead)
  rw [List.map_eq_nil_iff.mp hentries, List.append_nil] at horderly
  exact horderly

theorem Inv.silent (h : s.Inv l) {session : Session} (hsilent : s.session.Silent session) (phase : SharedPhase)
    (hphase : isRunning phase = false) : ({ s.withSession session with phase } : SharedRun).Inv l := by
  obtain ⟨rows, horderly, -⟩ := h
  exact .rest (s := { s.withSession session with phase }) (Orderly.silent horderly hsilent) hphase

theorem closeStep_silent (l : Loop) (s : SharedRun) (turn step : Nat) (ended : Except Raised PyValue) :
    s.session.Silent (s.closeStep l turn step ended).session :=
  (l.write_silent s.session rfl _).trans (l.closeTurn_silent turn ended _)

theorem Inv.closeStep (h : s.Inv l) (turn step : Nat) (ended : Except Raised PyValue) : (s.closeStep l turn step ended).Inv l :=
  h.silent (closeStep_silent l s turn step ended) .idle rfl

theorem Inv.close (h : s.Inv l) (turn : Nat) (ended : Except Raised PyValue) : (s.close l turn ended).Inv l :=
  h.silent (l.closeTurn_silent turn ended s.session) .idle rfl

/-- The messages that enter a step do not come between calls and results. -/
theorem Inv.enter (h : s.Inv l) {messages : List Message}
    (hunsplit : ∀ shown : List Message, l.requestMessages s.session = .ok (shown.map Message.toPy) →
      messageRule.Walks (messageRule.opened [] shown) messages) (turn step : Nat) :
    ({ (s.withSession (l.alone.enter messages s.session).2).write l .stepStart (stepData turn step) with
      phase := .entered turn step } : SharedRun).Inv l := by
  obtain ⟨rows, horderly, -⟩ := h
  have htells := (l.alone_quiet.enter_says s.session messages).told
  have hmessages : (entered messages).map (·.message) = messages := by simp [entered, Function.comp_def]
  have htype : ∀ entry ∈ entered messages, entry.type = .userMessage := by
    intro entry hentry
    obtain ⟨m, -, rfl⟩ := List.mem_map.mp hentry
    rfl
  obtain ⟨added, -, -, hentered⟩ := horderly.tells (l.enter_wellFormed messages s.session horderly.wellFormed) htells
    (by rw [hmessages]; exact hunsplit _ (horderly.shows.requestMessages l))
    (fun entry hentry hreply => by rw [htype entry hentry] at hreply; cases hreply)
    (fun p _ row entry _ hhead _ hresult => by rw [htype entry (List.mem_of_mem_head? hhead)] at hresult; cases hresult)
  exact .rest (Orderly.silent hentered (l.write_silent _ rfl _)) rfl

theorem Inv.takeReply (h : s.Inv l) (turn step : Nat) (w : StepWorld) : (s.takeReply l turn step w).Inv l := by
  unfold SharedRun.takeReply
  split
  · exact h.closeStep turn step _
  · obtain ⟨rows, horderly, -⟩ := h
    have hwf := l.write_wellFormed .assistantMessage (l.replyData turn step w w.assembler) s.session horderly.wellFormed
    have hgate : l.alone.gate (l.replyData turn step w w.assembler) = w.recorded l.alone := l.alone.gate_reply turn step w
    cases hrecorded : w.recorded l.alone with
    | error e =>
      have hknown : EventType.assistantMessage.isKnown = true := rfl
      obtain ⟨session, hwrite, htells⟩ := l.alone_quiet.write_refused s.session hknown (hgate.trans hrecorded)
      rw [hwrite] at hwf ⊢
      have hrefused := Orderly.silent horderly ⟨htells, fun _ => hwf⟩
      exact Inv.silent (.rest (s := { s.withSession session with phase := .idle }) hrefused rfl)
        (closeStep_silent l (s.withSession session) turn step _) .idle rfl
    | ok u =>
      obtain ⟨session, hwrite, htells⟩ := l.alone_quiet.writeReply_says turn step s.session hrecorded
      have hwrite' : l.alone.write .assistantMessage (l.replyData turn step w w.assembler) s.session = (.ok (), session) := hwrite
      rw [hwrite'] at hwf ⊢
      have hneeds : messageRule.needs (l.alone.replyMessage w w.assembler) = [] := rfl
      obtain ⟨added, hentries, hnew, hsaid⟩ := horderly.tells hwf htells
        (Rule.walks_of_free (fun m hm => by rw [List.mem_singleton.mp hm]; exact hneeds))
        (fun entry hentry _ => by rw [List.mem_singleton.mp hentry]; exact hneeds)
        (fun p _ row entry _ hhead _ hresult => by cases hhead; cases hresult)
      have hends : ∀ ended, ((s.withSession session).closeStep l turn step ended).Inv l := fun ended =>
        Inv.silent (.rest (s := { s.withSession session with phase := .idle }) hsaid rfl)
          (closeStep_silent l (s.withSession session) turn step ended) .idle rfl
      simp only
      split
      · exact hends _
      · split
        · exact hends _
        · rename_i hcalled
          refine ⟨rows ++ added, hsaid, ?_⟩
          intro turn' step' w' reply' hphase
          cases hphase
          -- the reply is the newest row
          obtain ⟨row, rfl⟩ : ∃ row, added = [row] := by
            have hlength := congrArg List.length hentries
            rw [List.length_map] at hlength
            exact List.length_eq_one_iff.mp hlength
          have hentry : row.2 = ⟨.assistantMessage, l.replyMessage w w.assembler⟩ := List.singleton_inj.mp hentries
          have hrow := hnew row List.mem_cons_self
          have hle : row.1 ≤ session.seq := hsaid.shows.node_le hwf.tidy (List.mem_append_right _ List.mem_cons_self)
          refine ⟨by simpa using hcalled, Nat.le_refl _, ?_, ?_⟩
          · intro other hother hnode
            rcases List.mem_append.mp hother with hother | hother
            · have hold := horderly.shows.node_le horderly.wellFormed.tidy hother
              have hnode : other.1 = session.seq := hnode
              have hrow : s.session.seq < row.1 := hrow
              have hold : other.1 ≤ s.session.seq := hold
              omega
            · rw [List.mem_singleton.mp hother]
              exact hentry
          · intro p hp heq
            have hold : p.last ≤ s.session.seq := (horderly.flights p hp).1
            have heq : p.last = session.seq := heq
            have hrow : s.session.seq < row.1 := hrow
            omega

/-- The results of a reply that is still the last of the surface come right behind it. -/
theorem Inv.toolsReturn (h : s.Inv l) {turn step : Nat} {w : StepWorld} {reply : Nat} (hphase : s.phase = .running turn step w reply)
    (hlast : s.session.surfaceNodes.getLast? = some reply) :
    ({ (s.withSession (l.alone.writeResults turn step w w.calls s.session).2).write l .stepEnd (stepData turn step) with
      phase := .deciding turn (step + 1) (w.calls.map w.resultOf) } : SharedRun).Inv l := by
  obtain ⟨rows, horderly, hrunning⟩ := h
  have hasked := hrunning turn step w reply hphase
  have hsays : Says (l.alone.writeResults turn step w w.calls) s.session (.ok (w.calls.map w.resultOf))
      (w.calls.map (fun call => ⟨.toolResult, w.resultOf call⟩)) := l.alone_quiet.writeResults_says s.session w.calls
  have htells := hsays.told
  -- the last row is the reply, whose calls are offered
  obtain ⟨init, row, rfl, hreply⟩ : ∃ init row, rows = init ++ [row] ∧ row.1 = reply := by
    have hnodes : s.session.surfaceNodes = rows.map (·.1) := horderly.shows.nodes
    rw [hnodes, List.getLast?_map] at hlast
    obtain ⟨row, hrow, hnode⟩ := Option.map_eq_some_iff.mp hlast
    obtain ⟨init, hinit⟩ := List.getLast?_eq_some_iff.mp hrow
    exact ⟨init, row, hinit, hnode⟩
  have hentry := hasked.row row (by simp) hreply
  have hoffered : messageRule.opened [] ((init ++ [row]).map SurfaceRow.message) = w.calls.map (·.id) := by
    rw [List.map_append, List.map_singleton, Rule.opened_concat, SurfaceRow.message, hentry]
    exact l.reply_callIds w
  have hfollows : ∀ m ∈ (w.calls.map (fun call => (⟨.toolResult, w.resultOf call⟩ : Entry))).map (·.message),
      messageRule.kind m = .follows ∧ ∀ k ∈ messageRule.needs m, k ∈ w.calls.map (·.id) := by
    intro m hm
    rw [List.map_map] at hm
    obtain ⟨call, hcall, rfl⟩ := List.mem_map.mp hm
    refine ⟨rfl, fun k hk => ?_⟩
    have hid : k = call.id := List.mem_singleton.mp hk
    exact List.mem_map.mpr ⟨call, hcall, hid.symm⟩
  obtain ⟨added, -, -, hanswered⟩ := horderly.tells (l.writeResults_wellFormed turn step w w.calls s.session horderly.wellFormed) htells
    (by rw [hoffered]; exact Rule.walks_of_follows hfollows)
    (fun entry hentry htype => by obtain ⟨call, -, rfl⟩ := List.mem_map.mp hentry; cases htype)
    (fun p hp last entry hlast _ hnode => by
      rw [List.getLast?_concat, Option.some.injEq] at hlast
      subst hlast
      exact absurd (hnode.symm.trans hreply) (hasked.apart p hp))
  exact .rest (Orderly.silent hanswered (l.write_silent _ rfl _)) rfl

theorem Inv.tick (h : s.Inv l) (clock : FloatClock) (stamp : Int) (messageId : String → String) (time : Rat) :
    (s.withSession (Pydsh.tick clock s.session stamp messageId time).2).Inv l := by
  obtain ⟨rows, horderly, hrunning⟩ := h
  obtain ⟨entries, htells, hwf, hfree⟩ := tick_tells clock s.session stamp messageId time
  obtain ⟨added, -, hnew, hticked⟩ := horderly.tells (hwf horderly.wellFormed) htells
    (Rule.walks_of_free (fun m hm => by obtain ⟨entry, hentry, rfl⟩ := List.mem_map.mp hm; exact (hfree entry hentry).2))
    (fun entry hentry _ => (hfree entry hentry).2)
    (fun p _ row entry _ hhead _ hresult => by rw [(hfree entry (List.mem_of_mem_head? hhead)).1] at hresult; cases hresult)
  refine ⟨rows ++ added, hticked, fun turn step w reply hphase => ?_⟩
  have hseq : s.session.seq ≤ (Pydsh.tick clock s.session stamp messageId time).2.seq := by
    obtain ⟨log, hadds, -⟩ := htells
    exact hadds.seq
  refine (hrunning turn step w reply hphase).keep hseq (fun row hrow => ?_) (fun p hp => Or.inl hp)
  exact (List.mem_append.mp hrow).imp id (hnew row)

theorem Inv.begin (h : s.Inv l) (env : CompactionEnv) (start stop : Nat) {st : CompactionState}
    (hstep : s.compactions.step (.begin env start stop) = some st) : ({ s with compactions := st } : SharedRun).Inv l := by
  obtain ⟨rows, horderly, hrunning⟩ := h
  simp only [CompactionState.step] at hstep
  split at hstep
  · rcases beginRegion_cases horderly.wellFormed env start stop with
      ⟨e, -, hbegin⟩ | ⟨first, last, e, -, -, hbegin⟩ | ⟨first, last, messages, hcheck, -, hbegin⟩
    · rw [hbegin] at hstep
      obtain rfl := Option.some.inj hstep
      exact ⟨rows, horderly, hrunning⟩
    · rw [hbegin] at hstep
      obtain rfl := Option.some.inj hstep
      have hstarted := horderly.commit (e := (startCall env first last).event s.session (startData env first last)) rfl
      refine ⟨rows, hstarted.commit (e := (endCall env (some e)).event _ (endData env (some e))) rfl, ?_⟩
      intro turn step w reply hphase
      exact (hrunning turn step w reply hphase).keep (Nat.le_succ_of_le (Nat.le_succ _)) (fun row hrow => Or.inl hrow)
        (fun p hp => Or.inl hp)
    · rw [hbegin] at hstep
      obtain rfl := Option.some.inj hstep
      obtain ⟨hstarted, hdelta⟩ := horderly.started hcheck messages
      refine ⟨rows, hstarted, fun turn step w reply hphase => ?_⟩
      have hasked := hrunning turn step w reply hphase
      refine hasked.keep (Nat.le_succ _) (fun row hrow => Or.inl hrow) (fun p hp => ?_)
      rcases List.mem_cons.mp hp with rfl | hp
      · -- the reply calls tools, so the surface cannot be cut behind it
        refine Or.inr (fun heq => ?_)
        have heq : last = reply := heq
        have hon : last ∈ s.session.surfaceNodes := (checkRegion_inOrder horderly.wellFormed hcheck).2.1
        have hnodes : s.session.surfaceNodes = rows.map (·.1) := horderly.shows.nodes
        rw [hnodes] at hon
        obtain ⟨row, hrow, hnode⟩ := List.mem_map.mp hon
        have hle := hdelta row hrow hnode
        rw [hasked.row row hrow (hnode.trans heq)] at hle
        have hcalls : (w.assembler.blocks.filterMap ContentBlock.call?).length ≤ 0 := by
          have hcount : ((w.assembler.blocks.filterMap ContentBlock.call?).length : Int) ≤ 0 := hle
          omega
        exact hasked.called (List.length_eq_zero_iff.mp (Nat.le_zero.mp hcalls))
      · exact Or.inl hp
  · cases hstep

/-- A compaction has its reply: it fails, its checkpoint takes the place of the run, or that is gone. -/
theorem Inv.resume (h : s.Inv l) {id : String} {reply : ModelReply} (hunsplit : s.Unsplit l (.beside (.resume id reply)))
    {st : CompactionState} (hstep : s.compactions.step (.resume id reply) = some st) :
    ({ s with compactions := st } : SharedRun).Inv l := by
  obtain ⟨rows, horderly, hrunning⟩ := h
  obtain ⟨p, hp, rfl⟩ := Option.map_eq_some_iff.mp hstep
  have hmem : p ∈ s.compactions.flights := List.mem_of_find?_eq_some hp
  have hwithout : ∀ q ∈ s.compactions.without id, q ∈ s.compactions.flights := fun q hq => (List.mem_filter.mp hq).1
  rcases finishRegion_cases p reply s.session with
    ⟨e, -, hfinish⟩ | ⟨summary, hsummary, hrun, hfinish⟩ | ⟨summary, e, -, -, hfinish⟩
  · rw [hfinish]
    have hended := horderly.commit (e := (endCall p.env (some e)).event s.session (endData p.env (some e))) rfl
    refine ⟨rows, hended.flightsSublist hwithout, fun turn step w node hphase => ?_⟩
    exact (hrunning turn step w node hphase).keep (Nat.le_succ _) (fun row hrow => Or.inl hrow) (fun q hq => Or.inl (hwithout q hq))
  · rw [hfinish]
    have hcopy : ∀ next e m, s.session.surfaceNodes[s.session.surfaceNodes.idxOf p.last + 1]? = some next →
        s.session.eventAt next = some e → e.Carries ⟨.userMessage, m⟩ → m.sentResults = [] := by
      intro next e m hnext hat hcarries
      by_contra hsent
      exact hunsplit p summary hp hsummary hrun ⟨next, e, m, hnext, hat, hcarries, hsent⟩
    obtain ⟨rows', hnewer, hcheckpointed⟩ := horderly.checkpointed hmem hrun hcopy summary
    have hended := hcheckpointed.commit (e := (endCall p.env none).event _ (endData p.env none)) rfl
    refine ⟨rows', hended.flightsSublist hwithout, fun turn step w node hphase => ?_⟩
    refine (hrunning turn step w node hphase).keep ?_ hnewer (fun q hq => Or.inl (hwithout q hq))
    exact Nat.le_succ_of_le (Nat.le_succ_of_le (Nat.le_succ _))
  · rw [hfinish]
    have hsummarised := horderly.commit (e := (summaryCall p summary).event s.session (summaryData p summary)) rfl
    have hraised := hsummarised.commit (e := checkpointEvent p summary s.session) rfl
    refine ⟨rows, hraised.flightsSublist hwithout, fun turn step w node hphase => ?_⟩
    refine (hrunning turn step w node hphase).keep ?_ (fun row hrow => Or.inl hrow) (fun q hq => Or.inl (hwithout q hq))
    exact Nat.le_succ_of_le (Nat.le_succ _)

theorem Inv.beside (h : s.Inv l) {a : CompactionAction} (hunsplit : s.Unsplit l (.beside a)) (hmessage : a.isMessage = false)
    {st : CompactionState} (hstep : s.compactions.step a = some st) : ({ s with compactions := st } : SharedRun).Inv l := by
  cases a with
  | append c =>
    simp only [CompactionState.step] at hstep
    split at hstep
    · obtain rfl := Option.some.inj hstep
      obtain ⟨rows, horderly, hrunning⟩ := h
      have hsilent : s.session.Silent (s.session.append c).2 := .append _ hmessage
      have hseq : s.session.seq ≤ (s.session.append c).2.seq := by
        obtain ⟨log, hadds, -⟩ := hsilent.tells
        exact hadds.seq
      refine ⟨rows, Orderly.silent horderly hsilent, fun turn step w reply hphase => ?_⟩
      exact (hrunning turn step w reply hphase).keep hseq (fun row hrow => Or.inl hrow) (fun p hp => Or.inl hp)
    · cases hstep
  | prune cfg clock =>
    obtain rfl := Option.some.inj hstep
    obtain ⟨rows, horderly, hrunning⟩ := h
    obtain ⟨rows', hnewer, hpruned⟩ := horderly.prune cfg clock
    refine ⟨rows', hpruned, fun turn step w reply hphase => ?_⟩
    have hseq : s.session.seq ≤ (pruneSession cfg clock s.session).2.seq :=
      horderly.wellFormed.seq_le hpruned.wellFormed (pruneSession_grows cfg clock horderly.wellFormed)
    exact (hrunning turn step w reply hphase).keep hseq hnewer (fun p hp => Or.inl hp)
  | «begin» env start stop => exact h.begin env start stop hstep
  | resume id reply => exact h.resume hunsplit hstep
  | cancel id =>
    obtain ⟨p, -, rfl⟩ := Option.map_eq_some_iff.mp hstep
    obtain ⟨rows, horderly, hrunning⟩ := h
    have hwithout : ∀ q ∈ s.compactions.without id, q ∈ s.compactions.flights := fun q hq => (List.mem_filter.mp hq).1
    refine ⟨rows, horderly.flightsSublist hwithout, fun turn step w reply hphase => ?_⟩
    exact (hrunning turn step w reply hphase).keep (Nat.le_refl _) (fun row hrow => Or.inl hrow) (fun q hq => Or.inl (hwithout q hq))

/-- Every step that puts nothing between calls and their results keeps the invariant. -/
theorem Inv.step (h : s.Inv l) {clock : FloatClock} {a : SharedAction} (hunsplit : s.Unsplit l a) (hstep : s.step l clock a = some s') :
    s'.Inv l := by
  cases a with
  | startTurn turn claimed =>
    simp only [SharedRun.step] at hstep
    split at hstep <;> cases hstep
    exact h.silent (l.write_silent s.session rfl _) (.deciding turn 1 claimed) rfl
  | preStep decision =>
    simp only [SharedRun.step] at hstep
    split at hstep
    · rename_i turn step pending hphase
      split at hstep
      · split at hstep
        · obtain rfl := Option.some.inj hstep
          exact h.close turn _
        · rename_i messages hentering
          obtain rfl := Option.some.inj hstep
          exact h.enter (fun shown hshown => hunsplit turn step pending messages shown hphase hentering hshown) turn step
      · cases hstep
    · cases hstep
  | request =>
    simp only [SharedRun.step] at hstep
    split at hstep
    · split at hstep
      · obtain rfl := Option.some.inj hstep
        exact h.closeStep _ _ _
      · obtain rfl := Option.some.inj hstep
        exact h.silent (l.setRequest_silent s.session) (.streaming _ _) rfl
    · cases hstep
  | reply w =>
    simp only [SharedRun.step] at hstep
    split at hstep <;> cases hstep
    exact h.takeReply _ _ w
  | toolsReturn =>
    simp only [SharedRun.step] at hstep
    split at hstep
    · rename_i turn step w reply hphase
      obtain rfl := Option.some.inj hstep
      exact h.toolsReturn hphase (hunsplit turn step w reply hphase)
    · cases hstep
  | endTurn ended =>
    simp only [SharedRun.step] at hstep
    split at hstep
    · cases hstep
    · obtain rfl := Option.some.inj hstep
      exact h.close _ ended
    · obtain rfl := Option.some.inj hstep
      exact h.closeStep _ _ ended
    · obtain rfl := Option.some.inj hstep
      exact h.closeStep _ _ ended
    · obtain rfl := Option.some.inj hstep
      exact h.closeStep _ _ ended
  | tick stamp messageId time =>
    obtain rfl := Option.some.inj hstep
    exact h.tick clock stamp messageId time
  | beside a =>
    simp only [SharedRun.step] at hstep
    split at hstep
    · cases hstep
    · rename_i hmessage
      obtain ⟨st, hst, rfl⟩ := Option.map_eq_some_iff.mp hstep
      exact h.beside hunsplit (by simpa using hmessage) hst

theorem Inv.sound (h : s.Inv l) : s.Sound l := by
  intro turn step _
  obtain ⟨rows, horderly, -⟩ := h
  refine ⟨rows.map SurfaceRow.message, horderly.shows.requestMessages l, ?_⟩
  exact ⟨Rule.walks_nil_iff.mp horderly.walks, Rule.walks_nil_iff.mp (serialize_follows horderly.walks)⟩

end SharedRun

/-- In every run of the agent's turns with ticks, compactions, prunes and the events of others in between, where no step puts a message
between calls and their results, the messages of every request have the results right behind the calls, and so has the wire. -/
theorem results_follow {l : Loop} {clock : FloatClock} {id : String} {header : SessionHeader} {s : SharedRun}
    (h : Machine.Reach (SharedRun.step l clock) (SharedRun.Unsplit l) (.start id header) s) : s.Sound l := by
  have hstart : (SharedRun.start id header).Inv l := by
    have horderly : Orderly (SharedRun.start id header).compactions [] := by
      refine ⟨.new id header, .new id header, trivial, ?_, ?_⟩
      · exact fun _ hrow => absurd hrow List.not_mem_nil
      · exact fun _ hp => absurd hp List.not_mem_nil
    exact .rest horderly rfl
  exact (h.invariant hstart (fun _ _ _ hinv hok hstep => hinv.step hok hstep)).sound

namespace OneTool

/-- A step that asks for a tool, and the next one after it. -/
def undisturbed : List SharedAction :=
  [.startTurn 1 go, .preStep .noOpinion, .request, .reply (asks "tool-calls"), .toolsReturn, .preStep .noOpinion]

/-- The change that creates a reminder for the instant 0. -/
def reminder : Json :=
  .obj [("version", .int scheduleChangeVersion), ("operation", .str "create"),
    ("record", .obj [("id", .str "r1"), ("kind", .str "at"), ("prompt", .str "stretch"), ("scheduled_at", .int 0), ("every_seconds", .null)])]

/-- A turn whose tool runs while the reminder falls due. -/
def reminded : List SharedAction :=
  [.beside (.append (scheduleCall reminder 0)), .startTurn 1 go, .preStep .noOpinion, .request, .reply (asks "tool-calls"),
    .tick 5 (fun id => id) 0, .toolsReturn, .preStep .noOpinion]

/-- Where the session stands after some actions. -/
def sharedAfter (as : List SharedAction) : SharedRun :=
  (Machine.exec (SharedRun.step loop exactClock) (.start "s" {}) as).getD (.start "s" {})

/-- What is said in the undisturbed turn: the question, the reply, the result, and the result once more. -/
def undisturbedSaid : List Message :=
  [createUserMessage "m1" [.text "go"], loop.replyMessage (asks "tool-calls") (asks "tool-calls").assembler,
    (asks "tool-calls").resultOf ⟨"c1", "echo", "\x7b\x7d"⟩, (asks "tool-calls").resultOf ⟨"c1", "echo", "\x7b\x7d"⟩]

/-- What is said in the other: the reminder comes between the reply and the result. -/
def remindedSaid : List Message :=
  [createUserMessage "m1" [.text "go"], loop.replyMessage (asks "tool-calls") (asks "tool-calls").assembler,
    createUserMessage "r1" [.text "stretch"] { kind := "plugin", plugin := "schedule", form := "reminder" },
    (asks "tool-calls").resultOf ⟨"c1", "echo", "\x7b\x7d"⟩, (asks "tool-calls").resultOf ⟨"c1", "echo", "\x7b\x7d"⟩]

theorem shown_eq {shown said : List Message} {r : Except Raised (List PyValue)} (h : r = .ok (shown.map Message.toPy))
    (hsaid : r = .ok (said.map Message.toPy)) : shown = said := by
  rw [hsaid, Except.ok.injEq] at h
  exact (List.map_injective_iff.mpr (fun _ _ => Vocab.message_injective) h).symm

/-- The session derives the messages. -/
def derives (s : Session) (said : List Message) : Bool :=
  match s.deriveMessages with
  | .error _ => false
  | .ok payloads => (Json.arr payloads).loads.eqJson (.arr (said.map Message.toJson))

theorem requestMessages_of_derives {s : Session} {said : List Message} (h : derives s said = true) :
    loop.requestMessages s = .ok (said.map Message.toPy) := by
  unfold derives at h
  split at h
  · cases h
  · rename_i payloads hderive
    have hloads := congrArg PyValue.dumps ((PyValue.eqJson_iff _ _).mp h)
    rw [Json.dumps_loads, Json.dumps_loads, Option.some.injEq, Json.arr.injEq] at hloads
    have hdecode := Loop.decodeList_messages [] said
    rw [List.nil_append, ← hloads] at hdecode
    simp only [Loop.requestMessages, hderive, hdecode]
    rfl

/-- The step that a request is built for. -/
def enteredStep? (s : SharedRun) : Option (Nat × Nat) :=
  match s.phase with
  | .entered turn step => some (turn, step)
  | _ => none

theorem phase_of_enteredStep? {s : SharedRun} {turn step : Nat} (h : enteredStep? s = some (turn, step)) :
    s.phase = .entered turn step := by
  unfold enteredStep? at h
  split at h
  · rename_i hphase
    cases h
    exact hphase
  · cases h

end OneTool

open OneTool in
theorem results_follow_undisturbed :
    (sharedAfter undisturbed).session.surfaceNodes = [2, 4, 6, 8] ∧ (sharedAfter undisturbed).Sound loop := by
  have hentering : Machine.Reach (SharedRun.step loop exactClock) (SharedRun.Unsplit loop) (.start "s" {})
      (sharedAfter (undisturbed.take 2)) := by
    refine .next (.preStep .noOpinion) (.next (.startTurn 1 go) .start trivial rfl) ?_ rfl
    intro turn step pending messages shown hphase hentering _
    cases hphase
    cases hentering
    exact Rule.walks_of_free (fun m hm => by rw [List.mem_singleton.mp hm]; rfl)
  have hreplied : Machine.Reach (SharedRun.step loop exactClock) (SharedRun.Unsplit loop) (.start "s" {})
      (sharedAfter (undisturbed.take 4)) :=
    .next (.reply (asks "tool-calls")) (.next .request hentering trivial rfl) trivial rfl
  have hreturned : Machine.Reach (SharedRun.step loop exactClock) (SharedRun.Unsplit loop) (.start "s" {})
      (sharedAfter (undisturbed.take 5)) := by
    refine .next .toolsReturn hreplied ?_ rfl
    intro turn step w reply hphase
    cases hphase
    rfl
  have hentered : Machine.Reach (SharedRun.step loop exactClock) (SharedRun.Unsplit loop) (.start "s" {}) (sharedAfter undisturbed) := by
    refine .next (.preStep .noOpinion) hreturned ?_ rfl
    intro turn step pending messages shown hphase hentering hshown
    cases hphase
    cases hentering
    have hsaid : shown = undisturbedSaid.take 3 := shown_eq hshown rfl
    rw [hsaid]
    decide +kernel
  exact ⟨by decide +kernel, results_follow hentered⟩

open OneTool in
/-- A reminder falls due while a tool runs: its message comes between the call and the result, on the surface and on the wire. -/
theorem tick_between : Machine.Reach (SharedRun.step loop exactClock) Machine.anyStep (.start "s" {}) (sharedAfter reminded) ∧
    loop.requestMessages (sharedAfter reminded).session = .ok (remindedSaid.map Message.toPy) ∧
    ¬ wireRule.Follows (serializeMessages remindedSaid) ∧ ¬ (sharedAfter reminded).Sound loop := by
  have hruns : (Machine.exec (SharedRun.step loop exactClock) (.start "s" {}) reminded).isSome = true := by decide +kernel
  obtain ⟨s, hs⟩ := Option.isSome_iff_exists.mp hruns
  have hafter : sharedAfter reminded = s := by rw [sharedAfter, hs, Option.getD_some]
  have hsaid : loop.requestMessages (sharedAfter reminded).session = .ok (remindedSaid.map Message.toPy) :=
    requestMessages_of_derives (by decide +kernel)
  refine ⟨hafter ▸ .exec .start hs, hsaid, ?_, ?_⟩
  · rw [← Rule.walks_nil_iff]
    decide +kernel
  · intro hsound
    obtain ⟨messages, hmessages, hplace⟩ := hsound 1 2 (phase_of_enteredStep? (by decide +kernel))
    have hresults := hplace.results
    rw [shown_eq hmessages hsaid, ← Rule.walks_nil_iff] at hresults
    exact absurd hresults (by decide +kernel)

end Pydsh
