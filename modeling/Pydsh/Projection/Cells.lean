import Pydsh.Projection.Driver

/-!
# What happens to cells

A read folds the units that have no cell for the session over the whole log and leaves all other cells alone (`Fills`); what it
reports is what the cells hold. A turn of the driver takes the cell of one unit from the fold of the log before the event to the
fold of the log with it.
-/

namespace Pydsh

variable {S V E : Type}

/-! ## Cells -/

/-- A fold without fault over one more event: the event applied to its state. -/
theorem ProjectionDefinition.fold_append (d : ProjectionDefinition S V E) {events : List SessionEvent} {e : SessionEvent}
    (h : (d.fold events).fault = none) {changed : Option S} (happ : d.apply (d.fold events).state e = .ok changed) :
    d.fold (events ++ [e]) = { state := changed.getD (d.fold events).state, watermark := e.seq } := by
  have hrun : d.run d.init (events ++ [e]) = .ok (changed.getD (d.fold events).state) := by
    rw [d.run_append, d.run_of_fold h]
    change (d.next (d.fold events).state e).bind pure = _
    rw [ProjectionDefinition.next, happ]
    rfl
  rw [ProjectionDefinition.fold, d.foldFrom_ok hrun, lastSeq_append_singleton]

namespace Projections

/-- The cell of a registration for a session has a fault, or it is the fold of some events. -/
def CellExact (p : Projections S V E) (rid sid : Nat) (events : List SessionEvent) : Prop :=
  ∀ d cell, p.definition? rid = some d → p.cell? rid sid = some cell → cell.fault = none → cell = d.fold events

variable {p p' : Projections S V E} {rid sid : Nat}

@[simp] theorem live_setCell (cell : Cell S E) : (p.setCell rid sid cell).live = p.live := rfl

@[simp] theorem fresh_setCell (cell : Cell S E) : (p.setCell rid sid cell).fresh = p.fresh := rfl

theorem definition?_setCell (cell : Cell S E) : (p.setCell rid sid cell).definition? = p.definition? := by
  funext r
  unfold definition? setCell
  by_cases hr : r = rid
  · subst hr
    simp only [Function.update_self, Option.map_map]
    rfl
  · simp only [Function.update_of_ne hr]

theorem cell?_setCell_self {d : ProjectionDefinition S V E} (h : p.definition? rid = some d) (cell : Cell S E) :
    (p.setCell rid sid cell).cell? rid sid = some cell := by
  obtain ⟨reg, hreg, -⟩ := Option.map_eq_some_iff.mp h
  simp [cell?, setCell, hreg]

theorem cell?_setCell_of_ne {r s : Nat} (h : ¬(r = rid ∧ s = sid)) (cell : Cell S E) :
    (p.setCell rid sid cell).cell? r s = p.cell? r s := by
  unfold cell? setCell
  by_cases hr : r = rid
  · subst hr
    have hs : s ≠ sid := fun hs => h ⟨rfl, hs⟩
    cases hreg : p.heap r with
    | none => simp
    | some reg => simp [Function.update_of_ne hs]
  · simp only [Function.update_of_ne hr]

/-- One registry comes from another by folds of some units over a log, on first touch for a session. -/
structure Fills (sid : Nat) (events : List SessionEvent) (rids : List Nat) (p p' : Projections S V E) : Prop where
  live : p'.live = p.live
  fresh : p'.fresh = p.fresh
  definition : p'.definition? = p.definition?
  other : ∀ rid, ∀ s, s ≠ sid → p'.cell? rid s = p.cell? rid s
  cell : ∀ rid, p'.cell? rid sid = p.cell? rid sid ∨
    rid ∈ rids ∧ p.cell? rid sid = none ∧ ∃ d, p.definition? rid = some d ∧ p'.cell? rid sid = some (d.fold events)

namespace Fills

variable {events : List SessionEvent} {rids : List Nat} {p'' : Projections S V E}

theorem refl : Fills sid events rids p p := ⟨rfl, rfl, rfl, fun _ _ _ => rfl, fun _ => Or.inl rfl⟩

theorem trans {rids' : List Nat} (h : Fills sid events rids p p') (h' : Fills sid events rids' p' p'') :
    Fills sid events (rids ++ rids') p p'' := by
  refine ⟨h'.live.trans h.live, h'.fresh.trans h.fresh, h'.definition.trans h.definition, ?_, ?_⟩
  · intro rid s hs
    exact (h'.other rid s hs).trans (h.other rid s hs)
  · intro rid
    rcases h'.cell rid with heq' | ⟨hmem', hnone', d, hd, hfold⟩
    · rcases h.cell rid with heq | ⟨hmem, hnone, d, hd, hfold⟩
      · exact Or.inl (heq'.trans heq)
      · exact Or.inr ⟨List.mem_append_left _ hmem, hnone, d, hd, heq'.trans hfold⟩
    · rw [h.definition] at hd
      rcases h.cell rid with heq | ⟨hmem, hnone, d', hd', hfold'⟩
      · exact Or.inr ⟨List.mem_append_right _ hmem', heq.symm.trans hnone', d, hd, hfold⟩
      · rw [hfold'] at hnone'
        cases hnone'

theorem exact (h : Fills sid events rids p p') (hcell : p.CellExact rid sid events) : p'.CellExact rid sid events := by
  intro d cell hd hc hfault
  rw [h.definition] at hd
  rcases h.cell rid with heq | ⟨-, -, d', hd', hfold⟩
  · exact hcell d cell hd (heq.symm.trans hc) hfault
  · rw [hd] at hd'
    cases hd'
    rw [hfold] at hc
    cases hc
    rfl

/-- A registration that already has a cell keeps it, and so does one that is not touched. -/
theorem kept (h : Fills sid events rids p p') (hkeep : (p.cell? rid sid).isSome ∨ rid ∉ rids) :
    p'.cell? rid sid = p.cell? rid sid := by
  rcases h.cell rid with heq | ⟨hmem, hnone, -⟩
  · exact heq
  · rcases hkeep with hsome | hnot
    · rw [hnone] at hsome
      cases hsome
    · exact absurd hmem hnot

end Fills

/-! ## Reads -/

/-- What `_cell_for` gives: the cell there is, or else the fold of the whole log, which is then there. -/
theorem cellFor_spec (p : Projections S V E) {rid : Nat} (sid : Nat) (s : Session) {reg : Registration S V E}
    (hreg : p.heap rid = some reg) : Fills sid s.events [rid] p (p.cellFor rid sid s reg).2 ∧
      ∀ cell, (p.cellFor rid sid s reg).1 = .ok cell → cell.fault = none ∧
        (p.cell? rid sid = some cell ∨ p.cell? rid sid = none ∧ cell = reg.definition.fold s.events) := by
  have hdef : p.definition? rid = some reg.definition := by rw [definition?, hreg]; rfl
  have hcells : p.cell? rid sid = reg.cells sid := by rw [cell?, hreg]; rfl
  unfold cellFor
  cases hcell : reg.cells sid with
  | some cell =>
    simp only
    refine ⟨?_, ?_⟩
    · cases cell.fault <;> exact .refl
    · intro cell' hok
      cases hfault : cell.fault with
      | some exc => simp [hfault] at hok
      | none =>
        have heq : cell = cell' := by simpa [hfault] using hok
        rw [← heq]
        exact ⟨hfault, Or.inl (hcells.trans hcell)⟩
  | none =>
    simp only
    refine ⟨?_, ?_⟩
    · have hfills : Fills sid s.events [rid] p (p.setCell rid sid (reg.definition.fold s.events)) := by
        refine ⟨rfl, rfl, definition?_setCell _, ?_, ?_⟩
        · intro r s' hs'
          exact cell?_setCell_of_ne (fun h => hs' h.2) _
        · intro r
          by_cases hr : r = rid
          · subst hr
            exact Or.inr ⟨List.mem_singleton_self r, hcells.trans hcell, _, hdef, cell?_setCell_self hdef _⟩
          · exact Or.inl (cell?_setCell_of_ne (fun h => hr h.1) _)
      cases (reg.definition.fold s.events).fault <;> exact hfills
    · intro cell' hok
      cases hfault : (reg.definition.fold s.events).fault with
      | some exc => simp [hfault] at hok
      | none =>
        have heq : reg.definition.fold s.events = cell' := by simpa [hfault] using hok
        rw [← heq]
        exact ⟨hfault, Or.inr ⟨hcells.trans hcell, rfl⟩⟩

theorem definitionsAt_cons_none {rid : Nat} {rids : List Nat} {p : Projections S V E} (h : p.heap rid = none) :
    p.definitionsAt (rid :: rids) = p.definitionsAt rids :=
  List.filterMap_cons_none (by rw [definition?, h]; rfl)

theorem definitionsAt_cons_some {rid : Nat} {rids : List Nat} {p : Projections S V E} {reg : Registration S V E}
    (h : p.heap rid = some reg) : p.definitionsAt (rid :: rids) = reg.definition :: p.definitionsAt rids :=
  List.filterMap_cons_some (by rw [definition?, h]; rfl)

/-- The loop of `snapshot`, over units whose cells are folds of the log. -/
theorem snapshotValues_exact {sid : Nat} {s : Session} {rids : List Nat} {p : Projections S V E}
    (hcells : ∀ rid ∈ rids, p.CellExact rid sid s.events) : Fills sid s.events rids p (snapshotValues sid s rids p).2 ∧
      ∀ values, (snapshotValues sid s rids p).1 = .ok values → unitValues (p.definitionsAt rids) s.events = some values := by
  induction rids generalizing p with
  | nil =>
    refine ⟨.refl, ?_⟩
    intro values hok
    cases hok
    rfl
  | cons rid rids ih =>
    obtain ⟨hcell, hcells⟩ := List.forall_mem_cons.mp hcells
    unfold snapshotValues
    cases hreg : p.heap rid with
    | none =>
      obtain ⟨hfills, hvalues⟩ := ih hcells
      rw [definitionsAt_cons_none hreg]
      have huntouched : Fills sid s.events [rid] p p := .refl
      exact ⟨huntouched.trans hfills, hvalues⟩
    | some reg =>
      obtain ⟨hfills, hfor⟩ := cellFor_spec p sid s hreg
      have hdef : p.definition? rid = some reg.definition := by rw [definition?, hreg]; rfl
      rw [definitionsAt_cons_some hreg]
      dsimp only
      cases hresult : p.cellFor rid sid s reg with
      | mk result p₁ =>
        rw [hresult] at hfills hfor
        cases result with
        | error e => exact ⟨hfills.trans .refl, fun _ hok => by cases hok⟩
        | ok cell =>
          obtain ⟨hfault, hwhere⟩ := hfor cell rfl
          have hfold : cell = reg.definition.fold s.events := by
            rcases hwhere with hhad | ⟨-, hfold⟩
            · exact hcell reg.definition cell hdef hhad hfault
            · exact hfold
          have hrun : reg.definition.run reg.definition.init s.events = .ok cell.state := by
            rw [hfold] at hfault ⊢
            exact reg.definition.run_of_fold hfault
          obtain ⟨hfills', hvalues⟩ := ih (fun r hr => hfills.exact (hcells r hr))
          rw [definitionsAt, hfills.definition] at hvalues
          dsimp only
          cases hview : reg.definition.validated cell.state with
          | error exc => exact ⟨hfills.trans .refl, fun _ hok => by cases hok⟩
          | ok value =>
            have hvalue : reg.definition.valueOf s.events = some value := by
              rw [ProjectionDefinition.valueOf, hrun]
              simp [Except.toOption, hview]
            dsimp only
            cases hrest : snapshotValues sid s rids p₁ with
            | mk result p₂ =>
              rw [hrest] at hfills' hvalues
              cases result with
              | error e => exact ⟨hfills.trans hfills', fun _ hok => by cases hok⟩
              | ok values =>
                refine ⟨hfills.trans hfills', ?_⟩
                intro values' hok
                cases hok
                rw [unitValues_cons, hvalue, definitionsAt, hvalues values rfl]
                rfl

/-- A snapshot of units whose cells are folds of the log: as of the session's seq, what the units show of the log. -/
theorem snapshot_exact {p : Projections S V E} {sid : Nat} {s : Session}
    (hcells : ∀ rid ∈ p.live, p.CellExact rid sid s.events) : Fills sid s.events p.live p (p.snapshot sid s).2 ∧
      ∀ snapshot, (p.snapshot sid s).1 = .ok snapshot →
        snapshot.asOfSeq = s.seq ∧ unitValues p.definitions s.events = some snapshot.values := by
  obtain ⟨hfills, hvalues⟩ := snapshotValues_exact hcells
  unfold snapshot
  cases hread : snapshotValues sid s p.live p with
  | mk result p' =>
    rw [hread] at hfills hvalues
    cases result with
    | error e => exact ⟨hfills, fun _ hok => by cases hok⟩
    | ok values =>
      refine ⟨hfills, ?_⟩
      intro snapshot hok
      cases hok
      exact ⟨rfl, hvalues values rfl⟩

/-- A row of a checkpoint holds its unit's run over the log up to its seq. -/
def RowExact (events : List SessionEvent) (d : ProjectionDefinition S V E) (entry : String × Row S) : Prop :=
  entry.1 = d.key ∧ entry.2.ver = d.stateVersion ∧ d.run d.init (upTo events entry.2.seq) = .ok entry.2.val

/-- The cell of a unit can be written to a checkpoint: it is the fold of the log, or there is one and it is the fold of the log
up to what it has seen. -/
def Writable (p : Projections S V E) (rid sid : Nat) (events : List SessionEvent) : Prop :=
  p.CellExact rid sid events ∨
    (p.cell? rid sid).isSome ∧ ∃ before, p.CellExact rid sid before ∧ upTo events (lastSeq emptyWatermark before) = before

/-- The row made of a cell that is the fold of the log up to some seq. -/
theorem rowExact_of_fold {events before : List SessionEvent} (d : ProjectionDefinition S V E) (hfault : (d.fold before).fault = none)
    (hbefore : upTo events (lastSeq emptyWatermark before) = before) :
    RowExact events d (d.key, ⟨d.stateVersion, (d.fold before).watermark, (d.fold before).state⟩) := by
  have hrun := d.run_of_fold hfault
  have hseq : (d.fold before).watermark = lastSeq emptyWatermark before := by
    rw [ProjectionDefinition.fold, d.foldFrom_ok hrun]
  refine ⟨rfl, rfl, ?_⟩
  simp only [hseq, hbefore]
  exact hrun

/-- A cell that could be written before others were filled still can be. -/
theorem Fills.writable {sid : Nat} {events : List SessionEvent} {rids : List Nat} {p p' : Projections S V E}
    (hfills : Fills sid events rids p p') {rid : Nat} (h : p.Writable rid sid events) : p'.Writable rid sid events := by
  rcases h with hexact | ⟨hsome, before, hexact, hbefore⟩
  · exact Or.inl (hfills.exact hexact)
  · have hkept := hfills.kept (Or.inl hsome)
    refine Or.inr ⟨by rw [hkept]; exact hsome, before, ?_, hbefore⟩
    intro d c hd hc
    rw [hfills.definition] at hd
    exact hexact d c hd (hkept.symm.trans hc)

/-- The loop of `checkpoint`, over units whose cells can be written. -/
theorem checkpointRows_exact {sid : Nat} {s : Session} {rids : List Nat} {p : Projections S V E}
    (hlog : upTo s.events (lastSeq emptyWatermark s.events) = s.events)
    (hcells : ∀ rid ∈ rids, p.Writable rid sid s.events) : Fills sid s.events rids p (checkpointRows sid s rids p).2 ∧
      ∀ rows, (checkpointRows sid s rids p).1 = .ok rows →
        List.Forall₂ (RowExact s.events) (p.definitionsAt rids) rows := by
  induction rids generalizing p with
  | nil =>
    refine ⟨.refl, ?_⟩
    intro rows hok
    cases hok
    exact .nil
  | cons rid rids ih =>
    obtain ⟨hcell, hcells⟩ := List.forall_mem_cons.mp hcells
    unfold checkpointRows
    cases hreg : p.heap rid with
    | none =>
      obtain ⟨hfills, hrows⟩ := ih hcells
      rw [definitionsAt_cons_none hreg]
      have huntouched : Fills sid s.events [rid] p p := .refl
      exact ⟨huntouched.trans hfills, hrows⟩
    | some reg =>
      obtain ⟨hfills, hfor⟩ := cellFor_spec p sid s hreg
      have hdef : p.definition? rid = some reg.definition := by rw [definition?, hreg]; rfl
      rw [definitionsAt_cons_some hreg]
      dsimp only
      cases hresult : p.cellFor rid sid s reg with
      | mk result p₁ =>
        rw [hresult] at hfills hfor
        cases result with
        | error e => exact ⟨hfills.trans .refl, fun _ hok => by cases hok⟩
        | ok cell =>
          obtain ⟨hfault, hwhere⟩ := hfor cell rfl
          have hrow : RowExact s.events reg.definition
              (reg.definition.key, ⟨reg.definition.stateVersion, cell.watermark, cell.state⟩) := by
            have hpart : ∃ before, cell = reg.definition.fold before ∧
                upTo s.events (lastSeq emptyWatermark before) = before := by
              rcases hwhere with hhad | ⟨hnone, hfold⟩
              · rcases hcell with hexact | ⟨-, before, hexact, hbefore⟩
                · exact ⟨s.events, hexact reg.definition cell hdef hhad hfault, hlog⟩
                · exact ⟨before, hexact reg.definition cell hdef hhad hfault, hbefore⟩
              · exact ⟨s.events, hfold, hlog⟩
            obtain ⟨before, rfl, hbefore⟩ := hpart
            exact rowExact_of_fold reg.definition hfault hbefore
          have hcells₁ : ∀ r ∈ rids, p₁.Writable r sid s.events := fun r hr => hfills.writable (hcells r hr)
          obtain ⟨hfills', hrows⟩ := ih hcells₁
          rw [definitionsAt, hfills.definition] at hrows
          dsimp only
          cases hrest : checkpointRows sid s rids p₁ with
          | mk result p₂ =>
            rw [hrest] at hfills' hrows
            cases result with
            | error e => exact ⟨hfills.trans hfills', fun _ hok => by cases hok⟩
            | ok rows =>
              refine ⟨hfills.trans hfills', ?_⟩
              intro rows' hok
              cases hok
              exact .cons hrow (hrows rows rfl)

/-! ## The driver -/

/-- One registry comes from another by a change to one cell at most. -/
structure Touches (rid sid : Nat) (p p' : Projections S V E) : Prop where
  live : p'.live = p.live
  fresh : p'.fresh = p.fresh
  definition : p'.definition? = p.definition?
  other : ∀ r s, ¬(r = rid ∧ s = sid) → p'.cell? r s = p.cell? r s

theorem Touches.refl {rid sid : Nat} {p : Projections S V E} : Touches rid sid p p := ⟨rfl, rfl, rfl, fun _ _ _ => rfl⟩

theorem Touches.setCell {rid sid : Nat} {p p' : Projections S V E} (h : Touches rid sid p p') (cell : Cell S E) :
    Touches rid sid p (p'.setCell rid sid cell) := by
  refine ⟨h.live, h.fresh, (definition?_setCell cell).trans h.definition, ?_⟩
  intro r s hne
  exact (cell?_setCell_of_ne hne cell).trans (h.other r s hne)

/-- The cell a turn starts from: the one there is, or else the fold of what comes before the event, which is then there. -/
theorem cellBefore_spec (p : Projections S V E) {rid : Nat} (sid : Nat) (s : Session) (event : SessionEvent)
    {reg : Registration S V E} (hreg : p.heap rid = some reg) : Touches rid sid p (p.cellBefore rid sid s event reg).2 ∧
      (p.cellBefore rid sid s event reg).2.cell? rid sid = some (p.cellBefore rid sid s event reg).1 ∧
      (p.cell? rid sid = some (p.cellBefore rid sid s event reg).1 ∨ (p.cellBefore rid sid s event reg).1 =
        reg.definition.fold (s.events.filter (fun e => decide (e.seq < event.seq)))) := by
  have hdef : p.definition? rid = some reg.definition := by rw [definition?, hreg]; rfl
  have hcells : p.cell? rid sid = reg.cells sid := by rw [cell?, hreg]; rfl
  unfold cellBefore
  cases hcell : reg.cells sid with
  | some cell => exact ⟨.refl, hcells.trans hcell, Or.inl (hcells.trans hcell)⟩
  | none => exact ⟨Touches.refl.setCell _, cell?_setCell_self hdef _, Or.inr rfl⟩

theorem driveUnit_touches (p : Projections S V E) (sid : Nat) (s : Session) (event : SessionEvent) (rid : Nat) :
    Touches rid sid p (p.driveUnit sid s event rid).1 := by
  unfold driveUnit
  cases hreg : p.heap rid with
  | none => exact .refl
  | some reg =>
    obtain ⟨htouch, -, -⟩ := cellBefore_spec p sid s event hreg
    dsimp only
    cases (p.cellBefore rid sid s event reg).1.fault with
    | some exc => exact htouch
    | none =>
      cases reg.definition.apply (p.cellBefore rid sid s event reg).1.state event with
      | error exc => exact htouch.setCell _
      | ok changed => exact htouch.setCell _

theorem filter_before {events before : List SessionEvent} {event : SessionEvent} (hlog : events = before ++ [event])
    (hinc : events.Pairwise (fun x y => x.seq < y.seq)) :
    events.filter (fun e => decide (e.seq < event.seq)) = before := by
  subst hlog
  obtain ⟨-, -, hlt⟩ := List.pairwise_append.mp hinc
  have hall : ∀ e ∈ before, decide (e.seq < event.seq) = true := by
    intro e he
    simpa using hlt e he event (List.mem_singleton_self event)
  rw [List.filter_append, List.filter_eq_self.mpr hall]
  simp

/-- A turn of the driver takes the cell of its unit from the fold of the log before the event to the fold of the log. -/
theorem driveUnit_exact (p : Projections S V E) (sid rid : Nat) {s : Session} {event : SessionEvent} {before : List SessionEvent}
    (hlog : s.events = before ++ [event]) (hinc : s.events.Pairwise (fun x y => x.seq < y.seq))
    (hcell : p.CellExact rid sid before) : (p.driveUnit sid s event rid).1.CellExact rid sid s.events := by
  intro d cell' hd hc hfault'
  rw [(driveUnit_touches p sid s event rid).definition] at hd
  obtain ⟨reg, hreg, rfl⟩ := Option.map_eq_some_iff.mp hd
  obtain ⟨htouch, hheld, hwhere⟩ := cellBefore_spec p sid s event hreg
  rw [filter_before hlog hinc] at hwhere
  unfold driveUnit at hc
  rw [hreg] at hc
  dsimp only at hc
  cases hfault : (p.cellBefore rid sid s event reg).1.fault with
  | some exc =>
    rw [hfault] at hc
    rw [hheld] at hc
    cases hc
    rw [hfault] at hfault'
    cases hfault'
  | none =>
    have hfold : (p.cellBefore rid sid s event reg).1 = reg.definition.fold before := by
      rcases hwhere with hhad | hfold
      · exact hcell reg.definition _ hd hhad hfault
      · exact hfold
    have hdef : (p.cellBefore rid sid s event reg).2.definition? rid = some reg.definition := by
      rw [htouch.definition]
      exact hd
    rw [hfault] at hc
    cases happ : reg.definition.apply (p.cellBefore rid sid s event reg).1.state event with
    | error exc =>
      rw [happ] at hc
      dsimp only at hc
      rw [cell?_setCell_self hdef] at hc
      cases hc
      cases hfault'
    | ok changed =>
      rw [happ] at hc
      dsimp only at hc
      rw [cell?_setCell_self hdef] at hc
      cases hc
      rw [hfold] at hfault happ ⊢
      rw [hlog]
      exact (reg.definition.fold_append hfault happ).symm

end Projections

end Pydsh
