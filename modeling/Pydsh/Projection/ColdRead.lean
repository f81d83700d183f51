import Pydsh.Projection.Restore

/-!
# Cold reads and live ones

A cold read and the snapshot of the session resumed from the same log both come down to `unitValues`: what each unit's view shows
of the run over the whole log. The live side folds it on first touch; the cold side folds a row of each unit forward over a tail,
which gives the same when the rows the identity check lets through are checkpoints of this log. The seq they report is the same
but for one case: with an empty log and a unit that has seen nothing the floor is the empty watermark, and one below it is -1.
-/

namespace Pydsh

variable {S V E : Type}

/-! ## What was read -/

variable {loadsText : String → Option (List (PyKey × PyValue))}

theorem unitValues_nil_isSome (ds : List (ProjectionDefinition S V E)) :
    (unitValues ds []).isSome ↔ ∀ d ∈ ds, ∃ value, d.validated d.init = .ok value := by
  induction ds with
  | nil => simp [unitValues]
  | cons d ds ih =>
    have hvalue : d.valueOf [] = (d.validated d.init).toOption := rfl
    rw [unitValues_cons, hvalue, List.forall_mem_cons, ← ih]
    cases d.validated d.init with
    | error exc => simp [Except.toOption]
    | ok value => simp [Except.toOption]

/-- Rows that can be folded forward over a log: a row of a unit's version, and not ahead of the log, holds the unit's run up to
the row's seq. -/
def Foldable (ds : List (ProjectionDefinition S V E)) (rows : List (String × Row S)) (events : List SessionEvent) : Prop :=
  ∀ d ∈ ds, ∀ row, field? rows d.key = some row → row.ver = d.stateVersion → row.seq ≤ lastSeq emptyWatermark events →
    d.run d.init (upTo events row.seq) = .ok row.val

/-- A unit's entry of the snapshot and its refreshed row, from its run over some events. -/
def ProjectionDefinition.shownAt (d : ProjectionDefinition S V E) (events : List SessionEvent) (seq : Int) :
    Option ((String × V) × (String × Row S)) := do
  let state ← (d.run d.init events).toOption
  let value ← (d.validated state).toOption
  return ((d.key, value), (d.key, ⟨d.stateVersion, seq, state⟩))

theorem shownAt_value (d : ProjectionDefinition S V E) (events : List SessionEvent) (seq : Int) :
    (d.shownAt events seq).map (·.1) = (d.valueOf events).map (fun value => (d.key, value)) := by
  unfold ProjectionDefinition.shownAt ProjectionDefinition.valueOf
  cases (d.run d.init events).toOption with
  | none => rfl
  | some state =>
    change ((d.validated state).toOption.bind _).map _ = (d.validated state).toOption.map _
    cases (d.validated state).toOption <;> rfl

/-- The value of a fallible map, when the value of the function is known at every element. -/
theorem mapM_toOption {α β ε : Type} {f : α → Except ε β} {g : α → Option β} {xs : List α}
    (h : ∀ x ∈ xs, (f x).toOption = g x) : (xs.mapM f).toOption = xs.mapM g := by
  induction xs with
  | nil => rfl
  | cons x xs ih =>
    obtain ⟨hx, hxs⟩ := List.forall_mem_cons.mp h
    rw [List.mapM_cons, List.mapM_cons, ← ih hxs, ← hx]
    cases f x with
    | error e => rfl
    | ok y => cases xs.mapM f <;> rfl

/-- The units' entries of a snapshot are what they show of the log. -/
theorem mapM_shownAt (ds : List (ProjectionDefinition S V E)) (events : List SessionEvent) (seq : Int) :
    (ds.mapM (fun d : ProjectionDefinition S V E => d.shownAt events seq)).map (fun units => units.map (·.1)) =
      unitValues ds events := by
  induction ds with
  | nil => rfl
  | cons d ds ih =>
    have hd := shownAt_value d events seq
    rw [unitValues_cons, ← ih, List.mapM_cons]
    cases hshown : d.shownAt events seq with
    | none =>
      rw [hshown] at hd
      have hnone : d.valueOf events = none := by simpa using hd.symm
      rw [hnone]
      rfl
    | some unit =>
      rw [hshown] at hd
      obtain ⟨value, hvalue, hunit⟩ := Option.map_eq_some_iff.mp hd.symm
      rw [hvalue]
      cases ds.mapM (fun d : ProjectionDefinition S V E => d.shownAt events seq) with
      | none => rfl
      | some units => simp [hunit]

/-- One turn of the loop of `restore` folds the unit over the whole log, when its row or the floor let it. -/
theorem restoreUnit_eq {rows : List (String × Row S)} {events : List SessionEvent} (hev : Numbered events) {floor : Int}
    {d : ProjectionDefinition S V E}
    (hrow : ∀ row, seedRow rows d floor (endSeqOf (tailFrom events floor) floor) = some row →
      floor ≤ row.seq + 1 ∧ d.run d.init (upTo events row.seq) = .ok row.val)
    (hseed : (seedRow rows d floor (endSeqOf (tailFrom events floor) floor)).isSome ∨ floor ≤ firstSeq) :
    (restoreUnit rows (tailFrom events floor) floor d).toOption =
      d.shownAt events (endSeqOf (tailFrom events floor) floor) := by
  have hrun : d.run (((seedRow rows d floor (endSeqOf (tailFrom events floor) floor)).map (·.val)).getD d.init)
      (eventsAfter (tailFrom events floor)
        (((seedRow rows d floor (endSeqOf (tailFrom events floor) floor)).map (·.seq)).getD (floor - 1))) =
      d.run d.init events := by
    cases hseedRow : seedRow rows d floor (endSeqOf (tailFrom events floor) floor) with
    | none =>
      have hfloor : floor ≤ firstSeq := by simpa [hseedRow] using hseed
      have hall : ∀ e ∈ events, (e.seq : Int) > floor - 1 := by
        intro e he
        have := hev.first e he
        omega
      rw [Option.map_none, Option.map_none, Option.getD_none, Option.getD_none, eventsAfter_tailFrom (by omega),
        eventsAfter_eq_self hall]
    | some row =>
      obtain ⟨hle, hval⟩ := hrow row hseedRow
      rw [Option.map_some, Option.map_some, Option.getD_some, Option.getD_some, eventsAfter_tailFrom hle]
      conv_rhs => rw [← upTo_append_eventsAfter hev.increasing row.seq, d.run_append, hval]
      rfl
  have hallowed : ((seedRow rows d floor (endSeqOf (tailFrom events floor) floor)).isNone &&
      decide (floor > firstSeq)) = false := by
    rcases hseed with hsome | hle
    · simp [Option.isNone_eq_false_iff.mpr hsome]
    · simp [hle]
  unfold restoreUnit
  simp only [hallowed, Bool.false_eq_true, if_false]
  unfold eventsAfter at hrun
  rw [hrun]
  unfold ProjectionDefinition.shownAt
  cases d.run d.init events with
  | error exc => rfl
  | ok state =>
    cases hview : d.validated state with
    | error exc => simp [Except.toOption, hview]
    | ok value => simp [Except.toOption, hview]

/-- The entries of some units, as `restore` returns them. -/
def packed (seq : Int) (units : List ((String × V) × (String × Row S))) : Snapshot V × List (String × Row S) :=
  ({ asOfSeq := seq, values := units.map (·.1) }, units.map (·.2))

/-- `restore` folds every unit over the whole log, when every turn of its loop does. -/
theorem restore_eq {ds : List (ProjectionDefinition S V E)} {rows : List (String × Row S)} {events : List SessionEvent}
    {floor : Int} (hunits : ∀ d ∈ ds, (restoreUnit rows (tailFrom events floor) floor d).toOption =
      d.shownAt events (endSeqOf (tailFrom events floor) floor)) :
    (restore ds rows (tailFrom events floor) floor).toOption =
      (ds.mapM (fun d : ProjectionDefinition S V E => d.shownAt events (endSeqOf (tailFrom events floor) floor))).map
        (packed (endSeqOf (tailFrom events floor) floor)) := by
  rw [← mapM_toOption hunits]
  unfold restore
  cases ds.mapM (restoreUnit rows (tailFrom events floor) floor) <;> rfl

/-- `restore` raises when one turn of its loop does. -/
theorem restore_error {ds : List (ProjectionDefinition S V E)} {rows : List (String × Row S)} {events : List SessionEvent}
    {floor : Int} {d : ProjectionDefinition S V E} (hd : d ∈ ds) {e : RestoreError E}
    (h : restoreUnit rows events floor d = .error e) : (restore ds rows events floor).toOption = none := by
  have hnone : (ds.mapM (restoreUnit rows events floor)).toOption = none := by
    induction ds with
    | nil => cases hd
    | cons x xs ih =>
      rw [List.mapM_cons]
      cases hx : restoreUnit rows events floor x with
      | error e' => rfl
      | ok unit =>
        rcases List.mem_cons.mp hd with rfl | hd
        · rw [h] at hx
          cases hx
        · have hxs := ih hd
          cases hrest : xs.mapM (restoreUnit rows events floor) with
          | error e' => rfl
          | ok units =>
            rw [hrest] at hxs
            cases hxs
  unfold restore
  cases hunits : ds.mapM (restoreUnit rows events floor) with
  | error e' => rfl
  | ok units =>
    rw [hunits] at hnone
    cases hnone

/-- The end of the tail that was read: below the floor when it is empty, and else the end of the log. -/
theorem endSeqOf_tailFrom {events : List SessionEvent} (hev : Numbered events) (floor : Int) :
    (tailFrom events floor = [] ∧ endSeqOf (tailFrom events floor) floor = floor - 1) ∨
      (events ≠ [] ∧ endSeqOf (tailFrom events floor) floor = lastSeq emptyWatermark events) := by
  by_cases htail : tailFrom events floor = []
  · exact Or.inl ⟨htail, by rw [htail]; rfl⟩
  · refine Or.inr ⟨fun hnil => htail (by rw [hnil]; rfl), ?_⟩
    rw [← lastSeq_tailFrom hev.increasing htail]
    simp [endSeqOf, lastSeq, List.getLast?_eq_some_getLast htail]

theorem seedRow_eq_some {rows : List (String × Row S)} {d : ProjectionDefinition S V E} {baseSeq endSeq : Int} {row : Row S} :
    seedRow rows d baseSeq endSeq = some row ↔
      field? rows d.key = some row ∧ row.ver = d.stateVersion ∧ baseSeq - 1 ≤ row.seq ∧ row.seq ≤ endSeq := by
  simp [seedRow, Row.usable, Option.filter_eq_some_iff, and_assoc]

/-- `restore` over the tail from the floor: it refuses, or it folds every unit over the whole log. The end it reports is the end
of the log, but one below the empty watermark when the log is empty and some unit has seen nothing. -/
theorem restore_tail {ds : List (ProjectionDefinition S V E)} (hds : ds ≠ []) {rows : List (String × Row S)}
    {events : List SessionEvent} (hev : Numbered events) {floor : Int} (hfloor : restoreFloor ds rows = some floor)
    (hfold : Foldable ds rows events) :
    (¬SomeUnseen ds rows ∧ (restore ds rows (tailFrom events floor) floor).toOption = none) ∨
      ∃ seq : Int, ((events = [] ∧ SomeUnseen ds rows) ∧ seq = -1 ∨
          ¬(events = [] ∧ SomeUnseen ds rows) ∧ seq = lastSeq emptyWatermark events) ∧
        (restore ds rows (tailFrom events floor) floor).toOption =
          (ds.mapM (fun d : ProjectionDefinition S V E => d.shownAt events seq)).map (packed seq) := by
  obtain ⟨floor', hfloor', hnonneg, hzero, hseen⟩ := restoreFloor_spec hds rows
  rw [hfloor] at hfloor'
  cases hfloor'
  by_cases hgood : ∀ d ∈ ds, (seedRow rows d floor (endSeqOf (tailFrom events floor) floor)).isSome ∨ floor ≤ firstSeq
  · refine Or.inr ⟨endSeqOf (tailFrom events floor) floor, ?_, restore_eq (fun d hd => restoreUnit_eq hev ?_ (hgood d hd))⟩
    · rcases endSeqOf_tailFrom hev floor with ⟨htail, hend⟩ | ⟨hne, hend⟩
      · obtain ⟨d, hd⟩ := List.exists_mem_of_ne_nil ds hds
        -- a row that has seen the floor is ahead of an empty tail, so that the floor is the first seq at most
        have hlow : floor ≤ firstSeq := by
          rcases hgood d hd with hsome | hlow
          · obtain ⟨row, hrow⟩ := Option.isSome_iff_exists.mp hsome
            obtain ⟨hfield, -, -, hle⟩ := seedRow_eq_some.mp hrow
            by_contra hhigh
            simp only [firstSeq] at hhigh
            obtain ⟨row', hfield', -, hseen'⟩ := hseen d hd (by omega)
            rw [hfield] at hfield'
            cases hfield'
            omega
          · exact hlow
        have hnil : events = [] := by
          rw [← tailFrom_eq_self (n := floor) (fun e he => Int.le_trans hlow (hev.first e he))]
          exact htail
        simp only [firstSeq] at hlow
        by_cases hunseen : SomeUnseen ds rows
        · have := hzero.mpr hunseen
          exact Or.inl ⟨⟨hnil, hunseen⟩, by omega⟩
        · refine Or.inr ⟨fun h => hunseen h.2, ?_⟩
          have : floor ≠ 0 := fun h => hunseen (hzero.mp h)
          rw [hend, hnil, lastSeq_nil, emptyWatermark]
          omega
      · exact Or.inr ⟨fun h => hne h.1, hend⟩
    · intro row hrow
      obtain ⟨hfield, hver, hbase, hle⟩ := seedRow_eq_some.mp hrow
      refine ⟨by omega, hfold d hd row hfield hver ?_⟩
      rcases endSeqOf_tailFrom hev floor with ⟨-, hend⟩ | ⟨-, hend⟩
      · -- with an empty tail only a row below the floor is not ahead, and there is one only at the empty watermark
        by_cases hpos : 0 < floor
        · obtain ⟨row', hfield', -, hseen'⟩ := hseen d hd hpos
          rw [hfield] at hfield'
          cases hfield'
          omega
        · omega
      · omega
  · push Not at hgood
    obtain ⟨d, hd, hnone, hhigh⟩ := hgood
    simp only [firstSeq] at hhigh
    refine Or.inl ⟨fun hunseen => absurd (hzero.mpr hunseen) (by omega), restore_error (e := .unusable d.key floor) hd ?_⟩
    have hnone' : seedRow rows d floor (endSeqOf (tailFrom events floor) floor) = none := by simpa using hnone
    simp [restoreUnit, hnone', firstSeq, hhigh]

/-- A record of the cache that was folded from a log: each row of a unit's version holds the unit's run up to the row's seq,
which is not ahead of that log. -/
def FoldedFrom (ds : List (ProjectionDefinition S V E)) (rows : List (String × Row S)) (log : List SessionEvent) : Prop :=
  ∀ d ∈ ds, ∀ row, field? rows d.key = some row → row.ver = d.stateVersion →
    row.seq ≤ lastSeq emptyWatermark log ∧ d.run d.init (upTo log row.seq) = .ok row.val

/-- Rows folded from a log of the same lifetime, one that goes on from this log or that this log goes on from, can be folded
forward over it. -/
theorem FoldedFrom.foldable {ds : List (ProjectionDefinition S V E)} {rows : List (String × Row S)}
    {log events : List SessionEvent} (h : FoldedFrom ds rows log) (hlog : Numbered log) (hev : Numbered events)
    (hsame : log <+: events ∨ events <+: log) : Foldable ds rows events := by
  intro d hd row hfield hver hle
  obtain ⟨hlelog, hval⟩ := h d hd row hfield hver
  rcases hsame with hpre | hpre
  · rw [upTo_eq_upTo hev hpre hlelog]
    exact hval
  · rw [← upTo_eq_upTo hlog hpre hle]
    exact hval

namespace EmptyLog

open SameId CountUnit

/-- The registry with the counter. -/
def registry : Projections Nat Nat Unit :=
  { heap := fun rid => if rid = 0 then some { definition := counter } else none, live := [0], fresh := 1 }

/-- A session that was flushed before its first event. -/
def unstarted : Session := chat []

end EmptyLog

end Pydsh
