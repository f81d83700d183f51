import Pydsh.Projection.Cells

/-!
# Exactly-once folds

What a read reports is the fold of each unit over exactly the log, in every run in which no action comes in between a committed
event and the units that have yet to take it. The invariant `Driver.Inv` says for every unit and session that the cell is the
fold of the log when nothing is owed to it, and the fold of all but the last event when that event is still on its way. A
listener in front of the driver that reads (`early_read_applies_twice`) makes a cell that holds the event which the driver then
applies again.
-/

namespace Pydsh

variable {S V E : Type}

/-! ## What is owed -/

/-- The event that a broadcast still has to take to a unit. -/
def Frame.owedTo (sid rid : Nat) : Frame → Option SessionEvent
  | .early sid' event _ _ => if sid' = sid then some event else none
  | .drive sid' event rids => if sid' = sid ∧ rid ∈ rids then some event else none
  | _ => none

/-- The events of a session that are still on their way to a unit. -/
def Driver.owed (st : Driver S V E) (sid rid : Nat) : List SessionEvent := st.stack.filterMap (Frame.owedTo sid rid)

/-- A registration that is in the table, or that is yet to be made. -/
def Projections.Counts (p : Projections S V E) (rid : Nat) : Prop := rid ∈ p.live ∨ p.fresh ≤ rid

/-- The condition on the steps.
1. When an append puts an event into the log, no earlier event of the session is still on its way to a unit. If it then raises,
   without a broadcast, no unit has a value for the session.
2. When a snapshot is taken, no event of the session is still on its way to a registered unit.
3. When a checkpoint is taken, a registered unit that an event is on its way to has a cell for the session.
4. When a changed state is published and its view or validator raises, no registered unit is left to be driven. -/
def Driver.Undisturbed (st : Driver S V E) : DriverAction S V E → Prop
  | .append sid call => ((st.sessions sid).append call).2.events ≠ (st.sessions sid).events →
      (∀ rid, st.projections.Counts rid → st.owed sid rid = []) ∧
      (call.ReplacesNoRun (st.sessions sid) → ∀ rid, st.projections.Counts rid →
        ∀ cell, st.projections.cell? rid sid = some cell → cell.fault.isSome)
  | .snapshot sid => ∀ rid ∈ st.projections.live, st.owed sid rid = []
  | .checkpoint sid => ∀ rid ∈ st.projections.live, st.owed sid rid ≠ [] → (st.projections.cell? rid sid).isSome
  | .next => ∀ sid event rid rids stack, st.stack = .drive sid event (rid :: rids) :: stack → ∀ projections state,
      st.projections.driveUnit sid (st.sessions sid) event rid = (projections, some state) → st.observers ≠ 0 →
        projections.published rid state = none → ∀ r ∈ rids, r ∉ st.projections.live
  | _ => True

/-! ## What is to hold -/

/-- What was read is the fold of each unit over exactly the log, up to the seq reported. -/
def Report.Exact (st : Driver S V E) : Report S V E → Prop
  | .snapshot sid result => ∀ snapshot, result = .ok snapshot →
      unitValues st.projections.definitions (upTo (st.sessions sid).events snapshot.asOfSeq) = some snapshot.values
  | .checkpoint sid result => ∀ rows, result = .ok rows →
      List.Forall₂ (Projections.RowExact (st.sessions sid).events) st.projections.definitions rows

/-- What the last action read is exact. -/
def Driver.Safe (st : Driver S V E) : Prop := ∀ report, st.report = some report → report.Exact st

/-! ## The invariant -/

/-- The seqs of a session's log, from the first on, none above the session's. -/
structure Session.Numbered (s : Session) : Prop extends s.Increasing where
  first : ∀ e ∈ s.events, firstSeq ≤ e.seq

/-- The cell of a unit for a session, by what is owed to it: the fold of the log, or of all but the event on its way. -/
def Projections.Settled (p : Projections S V E) (rid sid : Nat) (events : List SessionEvent) : List SessionEvent → Prop
  | [] => p.CellExact rid sid events
  | [event] => ∃ before, events = before ++ [event] ∧ p.CellExact rid sid before
  | _ => False

theorem Projections.Settled.mono {p p' : Projections S V E} {rid sid : Nat} {events owed : List SessionEvent}
    (h : p.Settled rid sid events owed) (hexact : ∀ log, p.CellExact rid sid log → p'.CellExact rid sid log) :
    p'.Settled rid sid events owed := by
  cases owed with
  | nil => exact hexact _ h
  | cons event rest =>
    cases rest with
    | nil =>
      obtain ⟨before, hlog, h⟩ := h
      exact ⟨before, hlog, hexact _ h⟩
    | cons _ _ => exact h.elim

theorem Projections.Settled.of_cell {p p' : Projections S V E} {rid sid : Nat} {events owed : List SessionEvent}
    (h : p.Settled rid sid events owed) (hdef : p'.definition? rid = p.definition? rid)
    (hcell : p'.cell? rid sid = p.cell? rid sid) : p'.Settled rid sid events owed := by
  refine h.mono ?_
  intro log hlog d cell hd hc
  rw [hdef] at hd
  rw [hcell] at hc
  exact hlog d cell hd hc

/-- The registrations a broadcast has left are distinct, and were made before. -/
def Frame.Proper (fresh : Nat) : Frame → Prop
  | .drive _ _ rids => rids.Nodup ∧ ∀ rid ∈ rids, rid < fresh
  | _ => True

/-- What holds in every state of an undisturbed run. -/
structure Driver.Inv (st : Driver S V E) : Prop where
  numbered : ∀ sid, (st.sessions sid).Numbered
  nodup : st.projections.live.Nodup
  made : ∀ rid ∈ st.projections.live, rid < st.projections.fresh
  unmade : ∀ rid, st.projections.fresh ≤ rid → st.projections.definition? rid = none
  proper : ∀ f ∈ st.stack, f.Proper st.projections.fresh
  settled : ∀ rid, st.projections.Counts rid → ∀ sid,
    st.projections.Settled rid sid (st.sessions sid).events (st.owed sid rid)

namespace Driver

variable {st : Driver S V E}

theorem Inv.start {sessions : Nat → Session} (h : ∀ sid, (sessions sid).Numbered) :
    (Driver.start sessions : Driver S V E).Inv := by
  refine ⟨h, List.nodup_nil, ?_, fun _ _ => rfl, ?_, ?_⟩
  · intro rid hrid
    cases hrid
  · intro f hf
    cases hf
  · intro rid _ sid d cell hd
    cases hd

theorem Inv.report (h : st.Inv) (report : Option (Report S V E)) : { st with report }.Inv :=
  ⟨h.numbered, h.nodup, h.made, h.unmade, h.proper, h.settled⟩

/-- A step of a broadcast that takes an event to no unit: the frames that take the place of the top one owe what it owed, save to
registrations that are yet to be made. -/
theorem Inv.top (h : st.Inv) (fs : List Frame) {f : Frame} {stack : List Frame} (hstack : st.stack = f :: stack)
    (hproper : ∀ g ∈ fs, g.Proper st.projections.fresh)
    (howed : ∀ rid, st.projections.Counts rid → ∀ sid,
      fs.filterMap (Frame.owedTo sid rid) = (f.owedTo sid rid).toList ∨
        st.projections.fresh ≤ rid ∧ fs.filterMap (Frame.owedTo sid rid) = []) :
    { st with stack := fs ++ stack }.Inv := by
  refine ⟨h.numbered, h.nodup, h.made, h.unmade, ?_, ?_⟩
  · intro g hg
    rcases List.mem_append.mp hg with hg | hg
    · exact hproper g hg
    · refine h.proper g ?_
      rw [hstack]
      exact List.mem_cons_of_mem f hg
  · intro rid hcounts sid
    change st.projections.Settled rid sid (st.sessions sid).events ((fs ++ stack).filterMap (Frame.owedTo sid rid))
    have hsettled := h.settled rid hcounts sid
    have hbefore : st.owed sid rid = (f.owedTo sid rid).toList ++ stack.filterMap (Frame.owedTo sid rid) := by
      rw [Driver.owed, hstack, List.filterMap_cons]
      cases f.owedTo sid rid <;> rfl
    rw [hbefore] at hsettled
    rw [List.filterMap_append]
    rcases howed rid hcounts sid with hsame | ⟨hfresh, hnil⟩
    · rw [hsame]
      exact hsettled
    · rw [hnil, List.nil_append]
      cases htop : f.owedTo sid rid with
      | none =>
        rw [htop] at hsettled
        exact hsettled
      | some event =>
        rw [htop] at hsettled
        cases hrest : stack.filterMap (Frame.owedTo sid rid) with
        | nil =>
          intro d cell hd
          rw [h.unmade rid hfresh] at hd
          cases hd
        | cons _ _ =>
          rw [hrest] at hsettled
          exact hsettled.elim

theorem Inv.unchanged (h : st.Inv) (sid : Nat) {s : Session} (hs : s = st.sessions sid) :
    { st with sessions := Function.update st.sessions sid s }.Inv := by
  have hsame : Function.update st.sessions sid s = st.sessions := by rw [hs, Function.update_eq_self]
  rw [hsame]
  exact h

theorem numbered_next {s s' : Session} {event : SessionEvent} (h : s.Numbered) (hev : s'.events = s.events ++ [event])
    (hevent : event.seq = s.seq + 1) (hseq : s'.seq = s.seq + 1) : s'.Numbered := by
  refine ⟨h.toIncreasing.addEvent hev hevent hseq, ?_⟩
  intro e he
  rw [hev] at he
  rcases List.mem_append.mp he with he | he
  · exact h.first e he
  · rw [List.mem_singleton.mp he, hevent]
    simp only [firstSeq]
    omega

/-- One more event in the log of a session to which nothing was owed, and what is owed then. -/
theorem Inv.committed (h : st.Inv) {sid : Nat} {s : Session} {event : SessionEvent} {stack : List Frame}
    (hev : s.events = (st.sessions sid).events ++ [event]) (hevent : event.seq = (st.sessions sid).seq + 1)
    (hseq : s.seq = (st.sessions sid).seq + 1) (hproper : ∀ f ∈ stack, f.Proper st.projections.fresh)
    (hother : ∀ rid sid', sid' ≠ sid → stack.filterMap (Frame.owedTo sid' rid) = st.owed sid' rid)
    (hsettled : ∀ rid, st.projections.Counts rid →
      st.projections.Settled rid sid s.events (stack.filterMap (Frame.owedTo sid rid))) :
    { st with
      sessions := Function.update st.sessions sid s
      stack }.Inv := by
  refine ⟨?_, h.nodup, h.made, h.unmade, hproper, ?_⟩
  · intro sid'
    by_cases hsid : sid' = sid
    · subst hsid
      simp only [Function.update_self]
      exact numbered_next (h.numbered sid') hev hevent hseq
    · simp only [Function.update_of_ne hsid]
      exact h.numbered sid'
  · intro rid hcounts sid'
    change st.projections.Settled rid sid' (Function.update st.sessions sid s sid').events
      (stack.filterMap (Frame.owedTo sid' rid))
    by_cases hsid : sid' = sid
    · subst hsid
      rw [Function.update_self]
      exact hsettled rid hcounts
    · rw [Function.update_of_ne hsid, hother rid sid' hsid]
      exact h.settled rid hcounts sid'

theorem Inv.append (h : st.Inv) {sid : Nat} {call : AppendCall} (hok : st.Undisturbed (.append sid call)) :
    (st.append sid call).Inv := by
  unfold Driver.append
  rcases append_log (st.sessions sid) call with hsame | ⟨event, hev, hevent, hseq, -, -⟩
  · cases happ : (st.sessions sid).append call with
    | mk result s =>
      rw [happ] at hsame
      cases result with
      | error e => exact h.unchanged sid hsame
      | ok e =>
        -- a call that returns puts its event into the log
        obtain ⟨hev, -, -⟩ := append_ok_events happ
        have hs : s = st.sessions sid := hsame
        rw [hs] at hev
        exact absurd hev (by simp)
  · obtain ⟨hnone, hraise⟩ := hok (by rw [hev]; simp)
    cases happ : (st.sessions sid).append call with
    | mk result s =>
      rw [happ] at hev hseq
      have hskip : ∀ (fs : List Frame) (rid sid' : Nat), sid' ≠ sid →
          (Frame.early sid event st.early st.late :: fs).filterMap (Frame.owedTo sid' rid) =
            fs.filterMap (Frame.owedTo sid' rid) := by
        intro fs rid sid' hsid
        exact List.filterMap_cons_none (if_neg (fun heq => hsid heq.symm))
      cases result with
      | error e =>
        have hno : call.ReplacesNoRun (st.sessions sid) := by
          rcases append_cases (st.sessions sid) call with ⟨-, e', happ'⟩ | ⟨j, -, -, happ'⟩ | ⟨j, first, last, -, -, -, happ'⟩ |
            ⟨j, e', -, hno, -⟩
          · rw [happ] at happ'
            cases happ'
            exact absurd hev (by simp)
          · rw [happ] at happ'
            cases happ'
          · rw [happ] at happ'
            cases happ'
          · exact hno
        refine h.committed hev hevent hseq h.proper (fun _ _ _ => rfl) ?_
        intro rid hcounts
        change st.projections.Settled rid sid s.events (st.owed sid rid)
        rw [hnone rid hcounts]
        intro d cell _ hcell hfault
        have hsome := hraise hno rid hcounts cell hcell
        rw [hfault] at hsome
        cases hsome
      | ok event' =>
        have heq : event' = event := by
          obtain ⟨hev', -, -⟩ := append_ok_events happ
          rw [hev] at hev'
          simpa using hev'.symm
        subst heq
        refine h.committed hev hevent hseq ?_ (fun rid sid' hsid => hskip st.stack rid sid' hsid) ?_
        · intro f hf
          rcases List.mem_cons.mp hf with rfl | hf
          · trivial
          · exact h.proper f hf
        · intro rid hcounts
          have howed : (Frame.early sid event' st.early st.late :: st.stack).filterMap (Frame.owedTo sid rid) =
              event' :: st.owed sid rid := List.filterMap_cons_some (if_pos rfl)
          rw [howed, hnone rid hcounts]
          refine ⟨(st.sessions sid).events, hev, ?_⟩
          have hsettled := h.settled rid hcounts sid
          rw [hnone rid hcounts] at hsettled
          exact hsettled

/-- A read, which folded some units over the log on first touch. What was owed to them is nothing, or they were not touched. -/
theorem Inv.read (h : st.Inv) {sid : Nat} {projections : Projections S V E}
    (hfills : Projections.Fills sid (st.sessions sid).events st.projections.live st.projections projections)
    (hkept : ∀ rid ∈ st.projections.live, st.owed sid rid ≠ [] → (st.projections.cell? rid sid).isSome) :
    { st with projections }.Inv := by
  refine ⟨h.numbered, ?_, ?_, ?_, ?_, ?_⟩
  · simp only [hfills.live]
    exact h.nodup
  · intro rid hrid
    simp only [hfills.live] at hrid
    simp only [hfills.fresh]
    exact h.made rid hrid
  · intro rid hrid
    simp only [hfills.fresh] at hrid
    simp only [hfills.definition]
    exact h.unmade rid hrid
  · simp only [hfills.fresh]
    exact h.proper
  · intro rid hcounts sid'
    simp only [Projections.Counts, hfills.live, hfills.fresh] at hcounts
    have hsettled := h.settled rid hcounts sid'
    change projections.Settled rid sid' (st.sessions sid').events (st.owed sid' rid)
    by_cases hnil : sid' = sid ∧ st.owed sid' rid = []
    · obtain ⟨rfl, hnil⟩ := hnil
      rw [hnil] at hsettled ⊢
      exact hfills.exact hsettled
    · have hcell : projections.cell? rid sid' = st.projections.cell? rid sid' := by
        by_cases hsid : sid' = sid
        · subst hsid
          refine hfills.kept ?_
          rcases hcounts with hlive | hfresh
          · exact Or.inl (hkept rid hlive (fun heq => hnil ⟨rfl, heq⟩))
          · refine Or.inr (fun hlive => ?_)
            have := h.made rid hlive
            omega
        · exact hfills.other rid sid' hsid
      exact hsettled.of_cell (congrFun hfills.definition rid) hcell

/-- The registrant count of a unit changes, and perhaps it leaves the table. -/
theorem Inv.refs (h : st.Inv) {rid : Nat} {reg : Registration S V E} (hreg : st.projections.heap rid = some reg) (refs : Nat)
    {live : List Nat} (hlive : live.Sublist st.projections.live) :
    { st with projections := { st.projections with
        heap := Function.update st.projections.heap rid (some { reg with refs })
        live } }.Inv := by
  have hdef : ({ st.projections with
      heap := Function.update st.projections.heap rid (some { reg with refs })
      live } : Projections S V E).definition? = st.projections.definition? := by
    funext r
    unfold Projections.definition?
    by_cases hr : r = rid
    · subst hr
      simp [hreg]
    · simp [Function.update_of_ne hr]
  have hcell : ∀ r sid, ({ st.projections with
      heap := Function.update st.projections.heap rid (some { reg with refs })
      live } : Projections S V E).cell? r sid = st.projections.cell? r sid := by
    intro r sid
    unfold Projections.cell?
    by_cases hr : r = rid
    · subst hr
      simp [hreg]
    · simp [Function.update_of_ne hr]
  refine ⟨h.numbered, h.nodup.sublist hlive, fun r hr => h.made r (hlive.subset hr), ?_, h.proper, ?_⟩
  · intro r hr
    rw [hdef]
    exact h.unmade r hr
  · intro r hcounts sid
    have hcounts' : st.projections.Counts r := hcounts.imp_left (fun hr => hlive.subset hr)
    exact (h.settled r hcounts' sid).of_cell (congrFun hdef r) (hcell r sid)

theorem registered?_heap {p : Projections S V E} {key : String} {rid : Nat} {reg : Registration S V E}
    (h : p.registered? key = some (rid, reg)) : p.heap rid = some reg := by
  obtain ⟨r, -, hr⟩ := List.exists_of_findSome?_eq_some h
  obtain ⟨reg', hreg', hkey⟩ := Option.bind_eq_some_iff.mp hr
  split at hkey
  · cases hkey
    exact hreg'
  · cases hkey

theorem Inv.register (h : st.Inv) {definition : ProjectionDefinition S V E} {projections : Projections S V E}
    (hreg : st.projections.register definition = .ok projections) : { st with projections }.Inv := by
  unfold Projections.register at hreg
  split at hreg
  · cases hreg
  · split at hreg
    · cases hreg
      have hnew : st.projections.fresh ∉ st.projections.live := by
        intro hmem
        exact Nat.lt_irrefl _ (h.made _ hmem)
      refine ⟨h.numbered, ?_, ?_, ?_, ?_, ?_⟩
      · exact List.nodup_append.mpr ⟨h.nodup, List.nodup_singleton _, by
          intro a ha b hb hab
          rw [List.mem_singleton.mp hb] at hab
          exact hnew (hab ▸ ha)⟩
      · intro rid hrid
        rcases List.mem_append.mp hrid with hrid | hrid
        · exact Nat.lt_succ_of_lt (h.made rid hrid)
        · rw [List.mem_singleton.mp hrid]
          exact Nat.lt_succ_self _
      · intro rid hrid
        have hne : rid ≠ st.projections.fresh := Nat.ne_of_gt hrid
        simp only [Projections.definition?, Function.update_of_ne hne]
        exact h.unmade rid (Nat.le_of_succ_le hrid)
      · intro f hf
        cases f with
        | drive sid event rids =>
          obtain ⟨hrids, hlt⟩ := h.proper _ hf
          exact ⟨hrids, fun rid hrid => Nat.lt_succ_of_lt (hlt rid hrid)⟩
        | _ => trivial
      · intro rid hcounts sid
        by_cases hrid : rid = st.projections.fresh
        · -- a new registration has no cells
          subst hrid
          refine (h.settled _ (Or.inr (Nat.le_refl _)) sid).mono ?_
          intro log _ d cell _ hc
          simp [Projections.cell?] at hc
        · have hcounts' : st.projections.Counts rid := by
            rcases hcounts with hlive | hfresh
            · rcases List.mem_append.mp hlive with hlive | hlive
              · exact Or.inl hlive
              · exact absurd (List.mem_singleton.mp hlive) hrid
            · exact Or.inr (Nat.le_of_succ_le hfresh)
          refine (h.settled rid hcounts' sid).of_cell ?_ ?_
          · simp only [Projections.definition?, Function.update_of_ne hrid]
          · simp only [Projections.cell?, Function.update_of_ne hrid]
    · rename_i rid reg hregistered
      split at hreg
      · cases hreg
      · cases hreg
        exact h.refs (registered?_heap hregistered) (reg.refs + 1) (List.Sublist.refl _)

theorem Inv.dispose (h : st.Inv) (key : String) : { st with projections := st.projections.dispose key }.Inv := by
  unfold Projections.dispose
  split
  · exact h
  · rename_i rid reg hregistered
    refine h.refs (registered?_heap hregistered) (reg.refs - 1) ?_
    split
    · exact List.erase_sublist
    · exact List.Sublist.refl _

/-- A turn of the driver, and the stack it leaves: its unit is owed the event no more, and all others what they were owed. -/
theorem Inv.driven (h : st.Inv) {sid rid : Nat} {event : SessionEvent} {rids : List Nat} {stack stack' : List Frame}
    (hstack : st.stack = .drive sid event (rid :: rids) :: stack) (hproper : ∀ f ∈ stack', f.Proper st.projections.fresh)
    (hself : stack'.filterMap (Frame.owedTo sid rid) = stack.filterMap (Frame.owedTo sid rid))
    (hother : ∀ r s, ¬(r = rid ∧ s = sid) → st.projections.Counts r →
      stack'.filterMap (Frame.owedTo s r) = st.owed s r) :
    { st with
      projections := (st.projections.driveUnit sid (st.sessions sid) event rid).1
      stack := stack' }.Inv := by
  have htouch := Projections.driveUnit_touches st.projections sid (st.sessions sid) event rid
  refine ⟨h.numbered, ?_, ?_, ?_, ?_, ?_⟩
  · simp only [htouch.live]
    exact h.nodup
  · intro r hr
    simp only [htouch.live] at hr
    simp only [htouch.fresh]
    exact h.made r hr
  · intro r hr
    simp only [htouch.fresh] at hr
    simp only [htouch.definition]
    exact h.unmade r hr
  · simp only [htouch.fresh]
    exact hproper
  · intro r hcounts s
    simp only [Projections.Counts, htouch.live, htouch.fresh] at hcounts
    change (st.projections.driveUnit sid (st.sessions sid) event rid).1.Settled r s (st.sessions s).events
      (stack'.filterMap (Frame.owedTo s r))
    have hsettled := h.settled r hcounts s
    by_cases hthis : r = rid ∧ s = sid
    · obtain ⟨rfl, rfl⟩ := hthis
      have howed : st.owed s r = event :: stack.filterMap (Frame.owedTo s r) := by
        rw [Driver.owed, hstack]
        exact List.filterMap_cons_some (if_pos ⟨rfl, List.mem_cons_self⟩)
      rw [howed] at hsettled
      rw [hself]
      cases hrest : stack.filterMap (Frame.owedTo s r) with
      | nil =>
        rw [hrest] at hsettled
        obtain ⟨before, hlog, hcell⟩ := hsettled
        exact Projections.driveUnit_exact st.projections s r hlog (h.numbered s).increasing hcell
      | cons _ _ =>
        rw [hrest] at hsettled
        exact hsettled.elim
    · rw [hother r s hthis hcounts]
      exact hsettled.of_cell (congrFun htouch.definition r) (htouch.other r s hthis)

/-- A turn of the loop of `_drive`. -/
theorem Inv.drive (h : st.Inv) {sid rid : Nat} {event : SessionEvent} {rids : List Nat} {stack : List Frame}
    (hstack : st.stack = .drive sid event (rid :: rids) :: stack) (hok : st.Undisturbed .next) :
    (st.drive sid event rid rids stack).Inv := by
  have htop : Frame.drive sid event (rid :: rids) ∈ st.stack := by
    rw [hstack]
    exact List.mem_cons_self
  obtain ⟨hnodup, hmade⟩ := h.proper _ htop
  obtain ⟨hnot, hnodup⟩ := List.nodup_cons.mp hnodup
  have hbelow : ∀ f ∈ stack, f.Proper st.projections.fresh := by
    intro f hf
    refine h.proper f ?_
    rw [hstack]
    exact List.mem_cons_of_mem _ hf
  have hproper : ∀ f ∈ Frame.drive sid event rids :: stack, f.Proper st.projections.fresh := by
    intro f hf
    rcases List.mem_cons.mp hf with rfl | hf
    · exact ⟨hnodup, fun r hr => hmade r (List.mem_cons_of_mem rid hr)⟩
    · exact hbelow f hf
  have hself : (Frame.drive sid event rids :: stack).filterMap (Frame.owedTo sid rid) =
      stack.filterMap (Frame.owedTo sid rid) :=
    List.filterMap_cons_none (if_neg (fun hin => hnot hin.2))
  have hother : ∀ r s, ¬(r = rid ∧ s = sid) → st.projections.Counts r →
      (Frame.drive sid event rids :: stack).filterMap (Frame.owedTo s r) = st.owed s r := by
    intro r s hne _
    have hsame : Frame.owedTo s r (.drive sid event rids) = Frame.owedTo s r (.drive sid event (rid :: rids)) := by
      have hiff : sid = s ∧ r ∈ rids ↔ sid = s ∧ r ∈ rid :: rids := by
        constructor
        · intro hin
          exact ⟨hin.1, List.mem_cons_of_mem rid hin.2⟩
        · intro hin
          rcases List.mem_cons.mp hin.2 with heq | hmem
          · exact absurd ⟨heq, hin.1.symm⟩ hne
          · exact ⟨hin.1, hmem⟩
      simp only [Frame.owedTo, hiff]
    rw [Driver.owed, hstack, List.filterMap_cons, List.filterMap_cons, hsame]
  unfold Driver.drive
  cases hdrive : st.projections.driveUnit sid (st.sessions sid) event rid with
  | mk projections changed =>
    have hp : (st.projections.driveUnit sid (st.sessions sid) event rid).1 = projections := by rw [hdrive]
    cases changed with
    | none =>
      rw [← hp]
      exact h.driven hstack hproper hself hother
    | some state =>
      dsimp only
      split
      · rw [← hp]
        exact h.driven hstack hproper hself hother
      · rename_i hobservers
        cases hpublished : projections.published rid state with
        | some value =>
          rw [← hp]
          refine h.driven hstack ?_ hself hother
          intro f hf
          rcases List.mem_cons.mp hf with rfl | hf
          · trivial
          · exact hproper f hf
        | none =>
          -- the units that are left are not driven, but none of them is in the table
          have hleft := hok sid event rid rids stack hstack projections state hdrive hobservers hpublished
          rw [← hp]
          refine h.driven hstack hbelow rfl ?_
          intro r s hne hcounts
          have hskip : Frame.owedTo s r (.drive sid event (rid :: rids)) = none := by
            refine if_neg (fun hin => ?_)
            rcases List.mem_cons.mp hin.2 with heq | hmem
            · exact hne ⟨heq, hin.1.symm⟩
            · rcases hcounts with hlive | hfresh
              · exact hleft r hmem hlive
              · have := hmade r (List.mem_cons_of_mem rid hmem)
                omega
          rw [Driver.owed, hstack, List.filterMap_cons_none hskip]

theorem Inv.next (h : st.Inv) {st' : Driver S V E} (hstep : st.next = some st') (hok : st.Undisturbed .next) : st'.Inv := by
  unfold Driver.next at hstep
  split at hstep
  · cases hstep
  · rename_i stack hstack
    obtain rfl := Option.some.inj hstep
    exact h.top [] hstack (by simp) (fun _ _ _ => Or.inl rfl)
  · rename_i stack hstack
    obtain rfl := Option.some.inj hstep
    exact h.top [] hstack (by simp) (fun _ _ _ => Or.inl rfl)
  · rename_i left stack hstack
    obtain rfl := Option.some.inj hstep
    exact h.top [.code, .listeners left] hstack (by simp [Frame.Proper]) (fun _ _ _ => Or.inl rfl)
  · rename_i sid event left late stack hstack
    obtain rfl := Option.some.inj hstep
    refine h.top [.code, .early sid event left late] hstack (by simp [Frame.Proper]) ?_
    intro rid _ sid'
    by_cases hsid : sid = sid' <;> simp [List.filterMap_cons, Frame.owedTo, hsid]
  · rename_i sid event late stack hstack
    obtain rfl := Option.some.inj hstep
    refine h.top [.drive sid event st.projections.live, .listeners late] hstack ?_ ?_
    · simpa [Frame.Proper] using ⟨h.nodup, h.made⟩
    · intro rid hcounts sid'
      rcases hcounts with hlive | hfresh
      · by_cases hsid : sid = sid' <;> simp [Frame.owedTo, hsid, hlive]
      · have hnot : rid ∉ st.projections.live := by
          intro hlive
          have := h.made rid hlive
          omega
        refine Or.inr ⟨hfresh, ?_⟩
        simp [Frame.owedTo, hnot]
  · rename_i stack hstack
    obtain rfl := Option.some.inj hstep
    refine h.top [] hstack (by simp) ?_
    intro rid _ sid
    simp [Frame.owedTo]
  · rename_i sid event rid rids stack hstack
    obtain rfl := Option.some.inj hstep
    exact h.drive hstack hok

theorem next_report {st' : Driver S V E} (hstep : st.next = some st') : st'.report = st.report := by
  unfold Driver.next at hstep
  split at hstep
  all_goals cases hstep
  all_goals try rfl
  unfold Driver.drive
  split
  · rfl
  · split
    · rfl
    · split <;> rfl

theorem append_report (st : Driver S V E) (sid : Nat) (call : AppendCall) : (st.append sid call).report = st.report := by
  unfold Driver.append
  split <;> rfl

theorem safe_of_report (h : st.report = none) : st.Safe := by
  intro report hreport
  rw [h] at hreport
  cases hreport

/-- The log of a session, up to its seq and up to its last event. -/
theorem upTo_self {s : Session} (h : s.Numbered) : upTo s.events s.seq = s.events ∧
    upTo s.events (lastSeq emptyWatermark s.events) = s.events := by
  refine ⟨upTo_eq_self ?_, upTo_eq_self ?_⟩
  · intro e he
    have := h.bounded e he
    omega
  · intro e he
    have := le_lastSeq h.increasing emptyWatermark e he
    omega

theorem Inv.snapshot (h : st.Inv) {sid : Nat} (hok : st.Undisturbed (.snapshot sid)) :
    (st.call (.snapshot sid)).Inv ∧ (st.call (.snapshot sid)).Safe := by
  have hcells : ∀ rid ∈ st.projections.live, st.projections.CellExact rid sid (st.sessions sid).events := by
    intro rid hrid
    have hsettled := h.settled rid (Or.inl hrid) sid
    rw [hok rid hrid] at hsettled
    exact hsettled
  obtain ⟨hfills, hvalues⟩ := Projections.snapshot_exact hcells
  have hinv := h.read hfills (fun rid hrid hne => absurd (hok rid hrid) hne)
  refine ⟨hinv.report _, ?_⟩
  intro report hreport
  cases hreport
  intro snapshot hsnapshot
  obtain ⟨hseq, hvalue⟩ := hvalues snapshot hsnapshot
  change unitValues ((st.projections.snapshot sid (st.sessions sid)).2.live.filterMap
    (st.projections.snapshot sid (st.sessions sid)).2.definition?) (upTo (st.sessions sid).events snapshot.asOfSeq) = _
  rw [hseq, (upTo_self (h.numbered sid)).1, hfills.live, hfills.definition]
  exact hvalue

theorem Inv.checkpoint (h : st.Inv) {sid : Nat} (hok : st.Undisturbed (.checkpoint sid)) :
    (st.call (.checkpoint sid)).Inv ∧ (st.call (.checkpoint sid)).Safe := by
  have hcells : ∀ rid ∈ st.projections.live, st.projections.Writable rid sid (st.sessions sid).events := by
    intro rid hrid
    have hsettled := h.settled rid (Or.inl hrid) sid
    cases howed : st.owed sid rid with
    | nil =>
      rw [howed] at hsettled
      exact Or.inl hsettled
    | cons event rest =>
      have hsome := hok rid hrid (by rw [howed]; exact List.cons_ne_nil _ _)
      rw [howed] at hsettled
      cases rest with
      | cons _ _ => exact hsettled.elim
      | nil =>
        obtain ⟨before, hlog, hcell⟩ := hsettled
        refine Or.inr ⟨hsome, before, hcell, ?_⟩
        have hinc := (h.numbered sid).increasing
        rw [hlog] at hinc
        have hnumbered : Numbered (before ++ [event]) := ⟨hinc, hlog ▸ (h.numbered sid).first⟩
        rw [hlog, upTo_eq_upTo hnumbered (List.prefix_append _ _) (Int.le_refl _)]
        refine upTo_eq_self ?_
        intro e he
        have := le_lastSeq (List.pairwise_append.mp hinc).1 emptyWatermark e he
        omega
  obtain ⟨hfills, hrows⟩ := Projections.checkpointRows_exact (upTo_self (h.numbered sid)).2 hcells
  have hinv := h.read hfills hok
  refine ⟨hinv.report _, ?_⟩
  intro report hreport
  cases hreport
  intro rows hresult
  change List.Forall₂ _ ((st.projections.checkpoint sid (st.sessions sid)).2.live.filterMap
    (st.projections.checkpoint sid (st.sessions sid)).2.definition?) rows
  have hlive : (st.projections.checkpoint sid (st.sessions sid)).2.live = st.projections.live := hfills.live
  have hdef : (st.projections.checkpoint sid (st.sessions sid)).2.definition? = st.projections.definition? :=
    hfills.definition
  rw [hlive, hdef]
  exact hrows rows hresult

/-- Every undisturbed step keeps the invariant, and what it reads is exact. -/
theorem Inv.step (h : st.Inv) {action : DriverAction S V E} (hok : st.Undisturbed action) {st' : Driver S V E}
    (hstep : st.step action = some st') : st'.Inv ∧ st'.Safe := by
  have hclear : { st with report := none }.Inv := h.report none
  cases action with
  | next => exact ⟨hclear.next hstep hok, safe_of_report (next_report hstep)⟩
  | append sid call =>
    obtain ⟨-, heq⟩ := Option.ite_none_right_eq_some.mp hstep
    cases heq
    exact ⟨hclear.append hok, safe_of_report (append_report _ sid call)⟩
  | snapshot sid =>
    obtain ⟨-, heq⟩ := Option.ite_none_right_eq_some.mp hstep
    cases heq
    exact hclear.snapshot hok
  | checkpoint sid =>
    obtain ⟨-, heq⟩ := Option.ite_none_right_eq_some.mp hstep
    cases heq
    exact hclear.checkpoint hok
  | register definition =>
    obtain ⟨-, heq⟩ := Option.ite_none_right_eq_some.mp hstep
    cases heq
    unfold Driver.call
    dsimp only
    cases hreg : st.projections.register definition with
    | error e => exact ⟨hclear, safe_of_report rfl⟩
    | ok projections => exact ⟨hclear.register hreg, safe_of_report rfl⟩
  | dispose key =>
    obtain ⟨-, heq⟩ := Option.ite_none_right_eq_some.mp hstep
    cases heq
    exact ⟨hclear.dispose key, safe_of_report rfl⟩
  | listen early late =>
    obtain ⟨-, heq⟩ := Option.ite_none_right_eq_some.mp hstep
    cases heq
    exact ⟨⟨h.numbered, h.nodup, h.made, h.unmade, h.proper, h.settled⟩, safe_of_report rfl⟩
  | observe observers =>
    obtain ⟨-, heq⟩ := Option.ite_none_right_eq_some.mp hstep
    cases heq
    exact ⟨⟨h.numbered, h.nodup, h.made, h.unmade, h.proper, h.settled⟩, safe_of_report rfl⟩

end Driver

/-- In every run in which nothing comes in between a committed event and the units that have yet to take it, what a snapshot or a
checkpoint reports is the fold of each unit over exactly the events of the log up to the seq reported, each once and in order. -/
theorem exactly_once {sessions : Nat → Session} (hsessions : ∀ sid, (sessions sid).Numbered) {st : Driver S V E}
    (h : Machine.Reach Driver.step Driver.Undisturbed (Driver.start sessions) st) : st.Safe := by
  have hall : st.Inv ∧ st.Safe := by
    refine h.invariant (P := fun st => st.Inv ∧ st.Safe) ⟨Driver.Inv.start hsessions, Driver.safe_of_report rfl⟩ ?_
    intro st action st' hinv hok hstep
    exact hinv.1.step hok hstep
  exact hall.2

namespace EarlyRead

open ReplayChain CountUnit

/-- A session object under each number. -/
def sessions (_ : Nat) : Session := Session.new "chat-1" { id := "chat-1" }

/-- Where the driver stands after some actions. -/
def afterwards (actions : List (DriverAction Nat Nat Unit)) : Driver Nat Nat Unit :=
  (Machine.exec Driver.step (Driver.start sessions) actions).getD (Driver.start sessions)

/-- The counter is registered, a message is appended and its broadcast taken to the end, and a snapshot is taken. -/
def undisturbed : List (DriverAction Nat Nat Unit) :=
  [.register counter, .append 0 (say "m1" "one"), .next, .next, .next, .next, .snapshot 0]

/-- The counter is registered, and one listener comes before the driver. It takes a snapshot when the message is appended; when
the broadcast is over, another snapshot is taken. -/
def disturbed : List (DriverAction Nat Nat Unit) :=
  [.register counter, .listen 1 0, .append 0 (say "m1" "one"), .next, .snapshot 0, .next, .next, .next, .next, .next,
    .snapshot 0]

end EarlyRead

open EarlyRead ReplayChain CountUnit in
theorem exactly_once_undisturbed :
    (afterwards undisturbed).report = some (.snapshot 0 (.ok { asOfSeq := 1, values := [("count", 1)] })) ∧
    (afterwards undisturbed).Safe := by
  have hsessions : ∀ sid, (sessions sid).Numbered := by
    intro sid
    exact ⟨.new "chat-1" { id := "chat-1" }, by simp [sessions, Session.new]⟩
  refine ⟨rfl, exactly_once hsessions ?_⟩
  have hregistered : Machine.Reach Driver.step Driver.Undisturbed (Driver.start sessions) (afterwards (undisturbed.take 1)) :=
    .next (.register counter) .start trivial rfl
  have happended : Machine.Reach Driver.step Driver.Undisturbed (Driver.start sessions) (afterwards (undisturbed.take 2)) := by
    refine .next (.append 0 (say "m1" "one")) hregistered ?_ rfl
    intro _
    refine ⟨fun _ _ => rfl, ?_⟩
    intro hno
    cases hno.1
  have hstarted : Machine.Reach Driver.step Driver.Undisturbed (Driver.start sessions) (afterwards (undisturbed.take 3)) := by
    refine .next .next happended ?_ rfl
    intro sid event rid rids stack hstack
    cases hstack
  have hdriven : Machine.Reach Driver.step Driver.Undisturbed (Driver.start sessions) (afterwards (undisturbed.take 4)) := by
    refine .next .next hstarted ?_ rfl
    intro sid event rid rids stack _ projections state _ hobservers
    exact absurd rfl hobservers
  have hover : Machine.Reach Driver.step Driver.Undisturbed (Driver.start sessions) (afterwards (undisturbed.take 6)) := by
    refine .next .next (.next .next hdriven ?_ rfl) ?_ rfl
    · intro sid event rid rids stack hstack
      cases hstack
    · intro sid event rid rids stack hstack
      cases hstack
  exact .next (.snapshot 0) hover (fun _ _ => rfl) rfl

open EarlyRead in
/-- The read in front of the driver folds the message into the cell, and the driver applies it again: as of 1 the counter shows
2, with one event in the log. -/
theorem early_read_applies_twice : Machine.Reach Driver.step Machine.anyStep (Driver.start sessions) (afterwards disturbed) ∧
    ((afterwards disturbed).sessions 0).events.map (·.seq) = [1] ∧
    (afterwards disturbed).report = some (.snapshot 0 (.ok { asOfSeq := 1, values := [("count", 2)] })) ∧
    ¬(afterwards disturbed).Safe := by
  have hreport : (afterwards disturbed).report = some (.snapshot 0 (.ok { asOfSeq := 1, values := [("count", 2)] })) := rfl
  have hruns : (Machine.exec Driver.step (Driver.start sessions) disturbed).isSome = true := by decide +kernel
  obtain ⟨st, hst⟩ := Option.isSome_iff_exists.mp hruns
  have hafter : afterwards disturbed = st := by rw [afterwards, hst, Option.getD_some]
  refine ⟨hafter ▸ .exec .start hst, by decide +kernel, hreport, ?_⟩
  intro hsafe
  have htwo := hsafe _ hreport _ rfl
  have hone : unitValues (afterwards disturbed).projections.definitions
      (upTo ((afterwards disturbed).sessions 0).events 1) = some [("count", 1)] := by decide +kernel
  rw [hone] at htwo
  cases htwo

end Pydsh
