import Pydsh.Projection.Exact
import Pydsh.Projection.WriteBehind

/-!
# Watermarks within the log

Whatever listeners do, no cell has seen more than the log of its session has: so the rows of a checkpoint are of no later event
than the last one of the log at that time, which is what a `write` of the cache starts from (`checkpoint_within`).
-/

namespace Pydsh

variable {S V E : Type}

theorem ProjectionDefinition.foldFrom_watermark (d : ProjectionDefinition S V E) (state : S) {watermark n : Nat}
    {events : List SessionEvent} (hn : watermark ≤ n) (hevents : ∀ e ∈ events, e.seq ≤ n) :
    (d.foldFrom state watermark events).watermark ≤ n := by
  induction events generalizing state watermark with
  | nil => exact hn
  | cons e events ih =>
    unfold ProjectionDefinition.foldFrom
    cases d.next state e with
    | error exc => exact hn
    | ok next => exact ih next (hevents e List.mem_cons_self) (fun e' he' => hevents e' (List.mem_cons_of_mem e he'))

namespace Projections

/-- No cell has seen more than a bound for its session. -/
def Within (p : Projections S V E) (bound : Nat → Nat) : Prop :=
  ∀ rid sid cell, p.cell? rid sid = some cell → cell.watermark ≤ bound sid

variable {p : Projections S V E} {bound : Nat → Nat} {sid : Nat} {s : Session}

theorem Within.setCell (h : p.Within bound) (rid : Nat) {cell : Cell S E} (hcell : cell.watermark ≤ bound sid) :
    (p.setCell rid sid cell).Within bound := by
  intro r s cell' hcell'
  by_cases hsame : r = rid ∧ s = sid
  · obtain ⟨rfl, rfl⟩ := hsame
    obtain ⟨reg, hreg, hcells⟩ := Option.bind_eq_some_iff.mp hcell'
    obtain ⟨reg', -, rfl⟩ : ∃ reg', p.heap r = some reg' ∧
        { reg' with cells := Function.update reg'.cells s (some cell) } = reg := by
      simpa [Projections.setCell] using hreg
    simp only [Function.update_self] at hcells
    cases hcells
    exact hcell
  · rw [cell?_setCell_of_ne hsame] at hcell'
    exact h r s cell' hcell'

/-- Cells that are there are there before: registrations come or go, or count their registrants. -/
theorem Within.of_cells (h : p.Within bound) {p' : Projections S V E}
    (hcells : ∀ rid sid cell, p'.cell? rid sid = some cell → p.cell? rid sid = some cell) : p'.Within bound :=
  fun rid sid cell hcell => h rid sid cell (hcells rid sid cell hcell)

theorem cell?_of_heap {rid : Nat} {reg : Registration S V E} (hreg : p.heap rid = some reg) : p.cell? rid sid = reg.cells sid := by
  rw [cell?, hreg]
  rfl

theorem Within.cellFor (h : p.Within bound) {rid : Nat} {reg : Registration S V E} (hreg : p.heap rid = some reg)
    (hlog : ∀ e ∈ s.events, e.seq ≤ bound sid) :
    (p.cellFor rid sid s reg).2.Within bound ∧ ∀ cell, (p.cellFor rid sid s reg).1 = .ok cell → cell.watermark ≤ bound sid := by
  have hfold : (reg.definition.fold s.events).watermark ≤ bound sid :=
    reg.definition.foldFrom_watermark _ (Nat.zero_le _) hlog
  unfold Projections.cellFor
  cases hcell : reg.cells sid with
  | some cell =>
    simp only
    have hwithin := h rid sid cell ((cell?_of_heap hreg).trans hcell)
    cases hfault : cell.fault with
    | some exc => exact ⟨h, by simp⟩
    | none => exact ⟨h, fun cell' hok => by cases hok; exact hwithin⟩
  | none =>
    simp only
    cases hfault : (reg.definition.fold s.events).fault with
    | some exc => exact ⟨h.setCell rid hfold, by simp⟩
    | none => exact ⟨h.setCell rid hfold, fun cell' hok => by cases hok; exact hfold⟩

theorem Within.snapshotValues (hlog : ∀ e ∈ s.events, e.seq ≤ bound sid) (rids : List Nat) (h : p.Within bound) :
    (Projections.snapshotValues sid s rids p).2.Within bound := by
  induction rids generalizing p with
  | nil => exact h
  | cons rid rids ih =>
    unfold Projections.snapshotValues
    cases hreg : p.heap rid with
    | none => exact ih h
    | some reg =>
      obtain ⟨hwithin, -⟩ := h.cellFor hreg hlog
      cases hcell : p.cellFor rid sid s reg with
      | mk result p' =>
        rw [hcell] at hwithin
        cases result with
        | error e =>
          simp only [hcell]
          exact hwithin
        | ok cell =>
          simp only [hcell]
          cases reg.definition.validated cell.state with
          | error exc => exact hwithin
          | ok value =>
            have hrest := ih hwithin
            cases hvalues : Projections.snapshotValues sid s rids p' with
            | mk values p'' =>
              rw [hvalues] at hrest
              cases values <;> exact hrest

theorem Within.snapshot (hlog : ∀ e ∈ s.events, e.seq ≤ bound sid) (h : p.Within bound) : (p.snapshot sid s).2.Within bound := by
  have hcells := h.snapshotValues hlog p.live
  unfold Projections.snapshot
  cases hvalues : Projections.snapshotValues sid s p.live p with
  | mk result projections =>
    rw [hvalues] at hcells
    cases result <;> exact hcells

theorem Within.checkpointRows (hlog : ∀ e ∈ s.events, e.seq ≤ bound sid) (rids : List Nat) (h : p.Within bound) :
    (Projections.checkpointRows sid s rids p).2.Within bound ∧
      ∀ rows, (Projections.checkpointRows sid s rids p).1 = .ok rows → ∀ row ∈ rows, row.2.seq ≤ bound sid := by
  induction rids generalizing p with
  | nil =>
    refine ⟨h, fun rows hrows => ?_⟩
    cases hrows
    simp
  | cons rid rids ih =>
    unfold Projections.checkpointRows
    cases hreg : p.heap rid with
    | none => exact ih h
    | some reg =>
      obtain ⟨hwithin, hbound⟩ := h.cellFor hreg hlog
      cases hcell : p.cellFor rid sid s reg with
      | mk result p' =>
        rw [hcell] at hwithin hbound
        cases result with
        | error e =>
          simp only [hcell]
          exact ⟨hwithin, by simp⟩
        | ok cell =>
          simp only [hcell]
          obtain ⟨hrest, hrows⟩ := ih hwithin
          cases hvalues : Projections.checkpointRows sid s rids p' with
          | mk result p'' =>
            rw [hvalues] at hrest hrows
            cases result with
            | error e => exact ⟨hrest, by simp⟩
            | ok rows =>
              refine ⟨hrest, fun rows' hrows' => ?_⟩
              cases hrows'
              intro row hrow
              rcases List.mem_cons.mp hrow with rfl | hrow
              · exact Int.ofNat_le.mpr (hbound cell rfl)
              · exact hrows rows rfl row hrow

/-- A turn of the loop of `_drive`. -/
theorem Within.driveUnit (h : p.Within bound) (hlog : ∀ e ∈ s.events, e.seq ≤ bound sid) {event : SessionEvent}
    (hevent : event.seq ≤ bound sid) (rid : Nat) : (p.driveUnit sid s event rid).1.Within bound := by
  unfold Projections.driveUnit
  cases hreg : p.heap rid with
  | none => exact h
  | some reg =>
    have hbefore : (p.cellBefore rid sid s event reg).2.Within bound ∧
        (p.cellBefore rid sid s event reg).1.watermark ≤ bound sid := by
      unfold Projections.cellBefore
      cases hcell : reg.cells sid with
      | some cell => exact ⟨h, h rid sid cell ((cell?_of_heap hreg).trans hcell)⟩
      | none =>
        have hfold : (reg.definition.fold (s.events.filter (fun e => decide (e.seq < event.seq)))).watermark ≤ bound sid :=
          reg.definition.foldFrom_watermark _ (Nat.zero_le _) (fun e he => hlog e (List.mem_of_mem_filter he))
        exact ⟨h.setCell rid hfold, hfold⟩
    obtain ⟨hwithin, hcell⟩ := hbefore
    dsimp only
    cases (p.cellBefore rid sid s event reg).1.fault with
    | some exc => exact hwithin
    | none =>
      cases reg.definition.apply (p.cellBefore rid sid s event reg).1.state event with
      | error exc => exact hwithin.setCell rid hcell
      | ok changed => exact hwithin.setCell rid hevent

end Projections

/-! ## The driver -/

/-- The event a frame is about, and its session. -/
def Frame.about : Frame → Option (Nat × SessionEvent)
  | .early sid event _ _ => some (sid, event)
  | .drive sid event _ => some (sid, event)
  | _ => none

namespace Driver

/-- The last seq of a session's log. -/
def bound (st : Driver S V E) (sid : Nat) : Nat := lastSeq emptyWatermark (st.sessions sid).events

/-- What every run of a driver keeps. -/
structure WithinLog (st : Driver S V E) : Prop where
  increasing : ∀ sid, (st.sessions sid).Increasing
  cells : st.projections.Within st.bound
  frames : ∀ f ∈ st.stack, ∀ sid event, f.about = some (sid, event) → event.seq ≤ st.bound sid

variable {st st' : Driver S V E}

theorem WithinLog.log (h : st.WithinLog) (sid : Nat) : ∀ e ∈ (st.sessions sid).events, e.seq ≤ st.bound sid :=
  le_lastSeq (h.increasing sid).increasing emptyWatermark

/-- The log of a session grows by an event, whose broadcast begins, or stays. -/
theorem WithinLog.append (h : st.WithinLog) (sid : Nat) (call : AppendCall) : (st.append sid call).WithinLog := by
  have hgrow : ∀ s', (st.sessions sid).append call = s' → st.bound sid ≤ lastSeq emptyWatermark s'.2.events ∧
      ∀ event, s'.1 = .ok event → event.seq ≤ lastSeq emptyWatermark s'.2.events := by
    rintro ⟨result, s'⟩ happ
    have hlog := append_log (st.sessions sid) call
    rw [happ] at hlog
    have hok : ∀ event, result = .ok event → s'.events = (st.sessions sid).events ++ [event] := by
      rintro event rfl
      exact (append_ok_events happ).1
    rcases hlog with hsame | ⟨e, hev, hseq, -⟩
    · simp only at hsame
      subst hsame
      refine ⟨Nat.le_refl _, fun event hevent => ?_⟩
      have := hok event hevent
      simp at this
    · refine ⟨?_, fun event hevent => ?_⟩
      · rw [hev, lastSeq_append_singleton]
        by_cases hnil : (st.sessions sid).events = []
        · simp [bound, hnil, emptyWatermark]
        · obtain ⟨last, hlast, hlastSeq⟩ := lastSeq_mem hnil emptyWatermark
          have := (h.increasing sid).bounded last hlast
          unfold bound
          omega
      · rw [hok event hevent, lastSeq_append_singleton]
  have hinc : ∀ sid', (Function.update st.sessions sid ((st.sessions sid).append call).2 sid').Increasing := by
    intro sid'
    by_cases hsid : sid' = sid
    · subst hsid
      rw [Function.update_self]
      exact (h.increasing sid').append call
    · rw [Function.update_of_ne hsid]
      exact h.increasing sid'
  have hle : ∀ sid', st.bound sid' ≤
      lastSeq emptyWatermark (Function.update st.sessions sid ((st.sessions sid).append call).2 sid').events := by
    intro sid'
    by_cases hsid : sid' = sid
    · subst hsid
      rw [Function.update_self]
      exact (hgrow _ rfl).1
    · rw [Function.update_of_ne hsid]
      exact Nat.le_refl _
  have hcells : st.projections.Within (fun sid' =>
      lastSeq emptyWatermark (Function.update st.sessions sid ((st.sessions sid).append call).2 sid').events) :=
    fun rid sid' cell hcell => Nat.le_trans (h.cells rid sid' cell hcell) (hle sid')
  unfold Driver.append
  cases happ : (st.sessions sid).append call with
  | mk result s' =>
    rw [happ] at hinc hle hcells
    cases result with
    | error e => exact ⟨hinc, hcells, fun f hf sid' event habout => Nat.le_trans (h.frames f hf sid' event habout) (hle sid')⟩
    | ok event =>
      refine ⟨hinc, hcells, fun f hf sid' event' habout => ?_⟩
      rcases List.mem_cons.mp hf with rfl | hf
      · cases habout
        simp only [bound, Function.update_self]
        exact (hgrow _ happ).2 event rfl
      · exact Nat.le_trans (h.frames f hf sid' event' habout) (hle sid')

/-- The sessions stay; the cells are within their logs, and the frames are of events there were frames of. -/
theorem WithinLog.keep (h : st.WithinLog) (hsessions : st'.sessions = st.sessions) (hcells : st'.projections.Within st.bound)
    (hframes : ∀ f ∈ st'.stack, ∀ sid event, f.about = some (sid, event) → ∃ f' ∈ st.stack, f'.about = some (sid, event)) :
    st'.WithinLog := by
  have hbound : st'.bound = st.bound := by
    funext sid
    simp only [bound, hsessions]
  refine ⟨hsessions ▸ h.increasing, hbound ▸ hcells, fun f hf sid event habout => ?_⟩
  obtain ⟨f', hf', habout'⟩ := hframes f hf sid event habout
  rw [hbound]
  exact h.frames f' hf' sid event habout'

/-- The stack loses frames, or gets ones that are about no event. -/
theorem WithinLog.frame (h : st.WithinLog) {stack : List Frame}
    (hframes : ∀ f ∈ stack, f.about = none ∨ ∃ f' ∈ st.stack, f'.about = f.about) : { st with stack }.WithinLog := by
  refine h.keep rfl h.cells (fun f hf sid event habout => ?_)
  rcases hframes f hf with hnone | ⟨f', hf', habout'⟩
  · rw [hnone] at habout
    cases habout
  · exact ⟨f', hf', habout'.trans habout⟩

theorem WithinLog.drive (h : st.WithinLog) {sid rid : Nat} {event : SessionEvent} {rids : List Nat} {stack : List Frame}
    (hstack : st.stack = .drive sid event (rid :: rids) :: stack) : (st.drive sid event rid rids stack).WithinLog := by
  have hevent : event.seq ≤ st.bound sid := h.frames _ (by rw [hstack]; exact List.mem_cons_self) sid event rfl
  have hcells := h.cells.driveUnit (h.log sid) hevent rid
  have hold : ∀ f ∈ stack, ∃ f' ∈ st.stack, f'.about = f.about :=
    fun f hf => ⟨f, by rw [hstack]; exact List.mem_cons_of_mem _ hf, rfl⟩
  have hself : ∃ f' ∈ st.stack, f'.about = (Frame.drive sid event rids).about :=
    ⟨.drive sid event (rid :: rids), by rw [hstack]; exact List.mem_cons_self, rfl⟩
  have hkeep : ∀ stack', (∀ f ∈ stack', f.about = none ∨ ∃ f' ∈ st.stack, f'.about = f.about) →
      ({ st with projections := (st.projections.driveUnit sid (st.sessions sid) event rid).1, stack := stack' } :
        Driver S V E).WithinLog := by
    intro stack' hstack'
    refine h.keep rfl hcells (fun f hf sid' event' habout => ?_)
    rcases hstack' f hf with hnone | ⟨f', hf', habout'⟩
    · rw [hnone] at habout
      cases habout
    · exact ⟨f', hf', habout'.trans habout⟩
  have hdriven : ∀ f ∈ Frame.drive sid event rids :: stack, f.about = none ∨ ∃ f' ∈ st.stack, f'.about = f.about := by
    intro f hf
    rcases List.mem_cons.mp hf with rfl | hf
    · exact Or.inr hself
    · exact Or.inr (hold f hf)
  unfold Driver.drive
  cases hdrive : st.projections.driveUnit sid (st.sessions sid) event rid with
  | mk projections changed =>
    rw [hdrive] at hkeep
    cases changed with
    | none => exact hkeep _ hdriven
    | some state =>
      simp only
      split
      · exact hkeep _ hdriven
      · cases projections.published rid state with
        | none => exact hkeep _ (fun f hf => Or.inr (hold f hf))
        | some value =>
          refine hkeep _ (fun f hf => ?_)
          rcases List.mem_cons.mp hf with rfl | hf
          · exact Or.inl rfl
          · exact hdriven f hf

theorem WithinLog.next (h : st.WithinLog) (hstep : st.next = some st') : st'.WithinLog := by
  have hold : ∀ {f : Frame} {stack : List Frame}, st.stack = f :: stack → ∀ f' ∈ stack, f'.about = none ∨
      ∃ f'' ∈ st.stack, f''.about = f'.about :=
    fun hstack f' hf' => Or.inr ⟨f', by rw [hstack]; exact List.mem_cons_of_mem _ hf', rfl⟩
  unfold Driver.next at hstep
  split at hstep
  · cases hstep
  · rename_i hstack
    obtain rfl := Option.some.inj hstep
    exact h.frame (hold hstack)
  · rename_i hstack
    obtain rfl := Option.some.inj hstep
    exact h.frame (hold hstack)
  · rename_i left stack hstack
    obtain rfl := Option.some.inj hstep
    refine h.frame (fun f hf => ?_)
    rcases List.mem_cons.mp hf with rfl | hf
    · exact Or.inl rfl
    · rcases List.mem_cons.mp hf with rfl | hf
      · exact Or.inl rfl
      · exact hold hstack f hf
  · rename_i sid event left late stack hstack
    obtain rfl := Option.some.inj hstep
    refine h.frame (fun f hf => ?_)
    rcases List.mem_cons.mp hf with rfl | hf
    · exact Or.inl rfl
    · rcases List.mem_cons.mp hf with rfl | hf
      · exact Or.inr ⟨.early sid event (left + 1) late, by rw [hstack]; exact List.mem_cons_self, rfl⟩
      · exact hold hstack f hf
  · rename_i sid event late stack hstack
    obtain rfl := Option.some.inj hstep
    refine h.frame (fun f hf => ?_)
    rcases List.mem_cons.mp hf with rfl | hf
    · exact Or.inr ⟨.early sid event 0 late, by rw [hstack]; exact List.mem_cons_self, rfl⟩
    · rcases List.mem_cons.mp hf with rfl | hf
      · exact Or.inl rfl
      · exact hold hstack f hf
  · rename_i hstack
    obtain rfl := Option.some.inj hstep
    exact h.frame (hold hstack)
  · rename_i sid event rid rids stack hstack
    obtain rfl := Option.some.inj hstep
    exact h.drive hstack

/-- A registration shares a unit, makes one without cells, or is disposed. -/
theorem WithinLog.registry (h : st.WithinLog) {projections : Projections S V E}
    (hcells : ∀ rid sid cell, projections.cell? rid sid = some cell → st.projections.cell? rid sid = some cell) :
    { st with projections }.WithinLog :=
  h.keep rfl (h.cells.of_cells hcells) (fun f hf _ _ habout => ⟨f, hf, habout⟩)

theorem cell?_refs {p : Projections S V E} {rid : Nat} {reg : Registration S V E} (hreg : p.heap rid = some reg) (refs : Nat)
    (live : List Nat) (r sid : Nat) : Projections.cell? { p with
      heap := Function.update p.heap rid (some { reg with refs })
      live } r sid = p.cell? r sid := by
  by_cases hr : r = rid
  · subst hr
    simp [Projections.cell?, hreg]
  · simp [Projections.cell?, Function.update_of_ne hr]

theorem WithinLog.call (h : st.WithinLog) (action : DriverAction S V E) : (st.call action).WithinLog := by
  cases action with
  | append sid call => exact h.append sid call
  | snapshot sid => exact h.keep rfl (h.cells.snapshot (h.log sid)) (fun f hf _ _ habout => ⟨f, hf, habout⟩)
  | checkpoint sid =>
    have hcells := (h.cells.checkpointRows (h.log sid) st.projections.live).1
    exact h.keep rfl hcells (fun f hf _ _ habout => ⟨f, hf, habout⟩)
  | register definition =>
    simp only [Driver.call]
    cases hreg : st.projections.register definition with
    | error e => exact h
    | ok projections =>
      refine h.registry (fun rid sid cell hcell => ?_)
      unfold Projections.register at hreg
      split at hreg
      · cases hreg
      · split at hreg
        · cases hreg
          by_cases hrid : rid = st.projections.fresh
          · subst hrid
            simp [Projections.cell?] at hcell
          · simpa [Projections.cell?, Function.update_of_ne hrid] using hcell
        · rename_i hregistered
          split at hreg
          · cases hreg
          · cases hreg
            exact (cell?_refs (registered?_heap hregistered) _ _ rid sid).symm.trans hcell
  | dispose key =>
    refine h.registry (fun rid sid cell hcell => ?_)
    unfold Projections.dispose at hcell
    split at hcell
    · exact hcell
    · rename_i hregistered
      exact (cell?_refs (registered?_heap hregistered) _ _ rid sid).symm.trans hcell
  | listen early late => exact h.keep rfl h.cells (fun f hf _ _ habout => ⟨f, hf, habout⟩)
  | observe observers => exact h.keep rfl h.cells (fun f hf _ _ habout => ⟨f, hf, habout⟩)
  | next => exact h

theorem WithinLog.step (h : st.WithinLog) {action : DriverAction S V E} (hstep : st.step action = some st') : st'.WithinLog := by
  have hreport : ({ st with report := none } : Driver S V E).WithinLog :=
    h.keep rfl h.cells (fun f hf _ _ habout => ⟨f, hf, habout⟩)
  unfold Driver.step at hstep
  split at hstep
  · exact hreport.next hstep
  · split at hstep
    · obtain rfl := Option.some.inj hstep
      exact hreport.call action
    · cases hstep

theorem WithinLog.start {sessions : Nat → Session} (h : ∀ sid, (sessions sid).Increasing) :
    (Driver.start sessions : Driver S V E).WithinLog := by
  refine ⟨h, fun rid sid cell hcell => ?_, by simp [Driver.start]⟩
  simp [Driver.start, Projections.empty, Projections.cell?] at hcell

end Driver

/-- In every run of a driver over sessions, whatever the listeners do, a checkpoint gives rows that a `write` of the cache starts
from. -/
theorem checkpoint_within {sessions : Nat → Session} (hsessions : ∀ sid, (sessions sid).Increasing) {st : Driver S V E}
    (h : Machine.Reach Driver.step Machine.anyStep (Driver.start sessions) st) {sid : Nat} {rows : List (String × Row S)}
    (hrows : (st.projections.checkpoint sid (st.sessions sid)).1 = .ok rows) :
    CacheState.checkpointed (st.sessions sid) rows = true := by
  have hwithin := h.invariant (Driver.WithinLog.start hsessions) (fun _ _ _ hwithin _ hstep => hwithin.step hstep)
  have hle := (hwithin.cells.checkpointRows (hwithin.log sid) st.projections.live).2 rows hrows
  exact List.all_eq_true.mpr (fun row hrow => decide_eq_true (hle row hrow))

open EarlyRead ReplayChain CountUnit in
/-- A checkpoint while the broadcast of a message has still to reach the counter. -/
theorem checkpoint_within_counter : ∃ rows,
    ((afterwards (undisturbed.take 2)).projections.checkpoint 0 ((afterwards (undisturbed.take 2)).sessions 0)).1 = .ok rows ∧
      CacheState.checkpointed ((afterwards (undisturbed.take 2)).sessions 0) rows = true := by
  have hruns : Machine.exec Driver.step (Driver.start sessions) (undisturbed.take 2) = some (afterwards (undisturbed.take 2)) := rfl
  exact ⟨_, rfl, checkpoint_within (fun _ => .new ..) (.exec .start hruns) rfl⟩

end Pydsh
