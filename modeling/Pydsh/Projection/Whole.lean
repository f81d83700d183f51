import Pydsh.Projection.ColdRead

/-!
# The whole log or nothing

`restore` of `session/projection.py` over the tail that `restore_floor` asks for, from rows that are checkpoints of prefixes of the log,
each of its own prefix, or are missing, of another version or ahead of the log. What it returns is folded over the whole log, and the rows
it refreshes are checkpoints again, unless there is no event and some unit has seen nothing (`restore_whole_or_nothing_iff`).
-/

namespace Pydsh

variable {S V E : Type}

/-- The row is a checkpoint of a prefix of the log: it has the unit's version and the watermark of the prefix, and holds the unit's run
over it. -/
def Row.Checkpoints (d : ProjectionDefinition S V E) (log : List SessionEvent) (row : Row S) : Prop :=
  row.ver = d.stateVersion ∧ ∃ before, before <+: log ∧ row.seq = lastSeq emptyWatermark before ∧ d.run d.init before = .ok row.val

/-- Each row there is for a unit has another version, is ahead of the log, or is a checkpoint of a prefix of it. -/
def Checkpointed (ds : List (ProjectionDefinition S V E)) (rows : List (String × Row S)) (log : List SessionEvent) : Prop :=
  ∀ d ∈ ds, ∀ row, field? rows d.key = some row →
    row.ver ≠ d.stateVersion ∨ lastSeq emptyWatermark log < row.seq ∨ row.Checkpoints d log

/-- A restore raises, or shows of every unit what it shows of the whole log, and refreshes every row with a checkpoint of the log. -/
def WholeOrNothing (ds : List (ProjectionDefinition S V E)) (log : List SessionEvent)
    (result : Except (RestoreError E) (Snapshot V × List (String × Row S))) : Prop :=
  ∀ snapshot rows, result = .ok (snapshot, rows) →
    unitValues ds log = some snapshot.values ∧ List.Forall₂ (fun d row => row.1 = d.key ∧ row.2.Checkpoints d log) ds rows

theorem upTo_lastSeq {log before : List SessionEvent} (hlog : Numbered log) (hpre : before <+: log) :
    upTo log (lastSeq emptyWatermark before) = before := by
  rw [upTo_eq_upTo hlog hpre (Int.le_refl _)]
  refine upTo_eq_self ?_
  have hincreasing : before.Pairwise (fun x y => x.seq < y.seq) := hlog.increasing.sublist hpre.sublist
  intro e he
  rcases List.eq_nil_or_concat before with rfl | ⟨init, last, rfl⟩
  · cases he
  · rw [List.concat_eq_append] at he hincreasing ⊢
    rw [lastSeq_append_singleton]
    rcases List.mem_append.mp he with he | he
    · have hlt := (List.pairwise_append.mp hincreasing).2.2 e he last (List.mem_singleton_self last)
      omega
    · rw [List.mem_singleton.mp he]

theorem Checkpointed.foldable {ds : List (ProjectionDefinition S V E)} {rows : List (String × Row S)} {log : List SessionEvent}
    (h : Checkpointed ds rows log) (hlog : Numbered log) : Foldable ds rows log := by
  intro d hd row hfield hver hle
  rcases h d hd row hfield with hother | hahead | ⟨-, before, hpre, hseq, hrun⟩
  · exact absurd hver hother
  · omega
  · rw [hseq, upTo_lastSeq hlog hpre]
    exact hrun

/-- The entries of all units, each from the unit at its place. -/
theorem forall₂_of_mapM {α β : Type} {f : α → Option β} {xs : List α} {ys : List β} (h : xs.mapM f = some ys) :
    List.Forall₂ (fun x y => f x = some y) xs ys := by
  induction xs generalizing ys with
  | nil =>
    cases h
    exact .nil
  | cons x xs ih =>
    rw [List.mapM_cons] at h
    obtain ⟨y, hy, h⟩ := Option.bind_eq_some_iff.mp h
    obtain ⟨rest, hrest, h⟩ := Option.bind_eq_some_iff.mp h
    cases h
    exact .cons hy (ih hrest)

theorem shownAt_eq_some {d : ProjectionDefinition S V E} {log : List SessionEvent} {seq : Int} {entry : (String × V) × (String × Row S)}
    (h : d.shownAt log seq = some entry) :
    entry.2.1 = d.key ∧ entry.2.2.ver = d.stateVersion ∧ entry.2.2.seq = seq ∧ d.run d.init log = .ok entry.2.2.val := by
  obtain ⟨state, hstate, h⟩ := Option.bind_eq_some_iff.mp h
  obtain ⟨value, hvalue, h⟩ := Option.bind_eq_some_iff.mp h
  cases h
  cases hrun : d.run d.init log with
  | error e =>
    rw [hrun] at hstate
    cases hstate
  | ok state' =>
    rw [hrun] at hstate
    cases hstate
    exact ⟨rfl, rfl, rfl, rfl⟩

theorem wholeOrNothing_of_shown {ds : List (ProjectionDefinition S V E)} {log : List SessionEvent}
    {result : Except (RestoreError E) (Snapshot V × List (String × Row S))}
    (h : result.toOption =
      (ds.mapM (fun d : ProjectionDefinition S V E => d.shownAt log (lastSeq emptyWatermark log))).map
        (packed (lastSeq emptyWatermark log))) : WholeOrNothing ds log result := by
  rintro snapshot rows rfl
  obtain ⟨units, hunits, hpacked⟩ := Option.map_eq_some_iff.mp h.symm
  have hvalues := mapM_shownAt ds log (lastSeq emptyWatermark log)
  rw [hunits] at hvalues
  cases hpacked
  refine ⟨hvalues.symm, ?_⟩
  rw [List.forall₂_map_right_iff]
  refine (forall₂_of_mapM hunits).imp ?_
  intro d entry hentry
  obtain ⟨hkey, hver, hseq, hrun⟩ := shownAt_eq_some hentry
  exact ⟨hkey, hver, log, List.prefix_rfl, hseq, hrun⟩

theorem not_wholeOrNothing {ds : List (ProjectionDefinition S V E)} (hds : ds ≠ [])
    {result : Except (RestoreError E) (Snapshot V × List (String × Row S))} {units : List ((String × V) × (String × Row S))}
    (hunits : ds.mapM (fun d : ProjectionDefinition S V E => d.shownAt [] (-1)) = some units)
    (h : result.toOption = some (packed (-1) units)) : ¬WholeOrNothing ds [] result := by
  intro hwhole
  cases hresult : result with
  | error e =>
    rw [hresult] at h
    cases h
  | ok restored =>
    rw [hresult] at h
    cases h
    have hrows := (hwhole _ _ hresult).2
    cases ds with
    | nil => exact hds rfl
    | cons d ds =>
      rw [List.forall₂_map_right_iff] at hrows
      obtain ⟨entry, hentry⟩ : ∃ entry, d.shownAt [] (-1) = some entry ∧ entry.2.2.Checkpoints d [] := by
        cases hrows with
        | cons hrow _ =>
          cases forall₂_of_mapM hunits with
          | cons hshown _ => exact ⟨_, hshown, hrow.2⟩
      obtain ⟨hshown, -, before, hpre, hseq, -⟩ := hentry
      obtain ⟨-, -, hbelow, -⟩ := shownAt_eq_some hshown
      rw [List.prefix_nil.mp hpre, lastSeq_nil, hbelow] at hseq
      cases hseq

/-- From rows that are checkpoints of prefixes of the log, missing, of another version or ahead of it, `restore` over the tail from
`restore_floor` raises, or folds every unit over the whole log and refreshes every row with a checkpoint of it, unless the log is empty,
some unit has seen nothing, and the units show their initial states. -/
theorem restore_whole_or_nothing_iff {ds : List (ProjectionDefinition S V E)} {rows : List (String × Row S)} {log : List SessionEvent}
    (hlog : Numbered log) (hrows : Checkpointed ds rows log) {floor : Int} (hfloor : restoreFloor ds rows = some floor) :
    WholeOrNothing ds log (restore ds rows (tailFrom log floor) floor) ↔
      ¬(log = [] ∧ SomeUnseen ds rows ∧ ∀ d ∈ ds, ∃ value, d.validated d.init = .ok value) := by
  have hds : ds ≠ [] := by
    rintro rfl
    cases hfloor
  rcases restore_tail hds hlog hfloor (hrows.foldable hlog) with ⟨hseen, hnone⟩ | ⟨seq, hseq, hresult⟩
  · refine ⟨fun _ hfails => hseen hfails.2.1, fun _ snapshot restored hok => ?_⟩
    rw [hok] at hnone
    cases hnone
  · rcases hseq with ⟨⟨rfl, hunseen⟩, rfl⟩ | ⟨hnot, rfl⟩
    · have hvalues := mapM_shownAt ds [] (-1)
      cases hunits : ds.mapM (fun d : ProjectionDefinition S V E => d.shownAt [] (-1)) with
      | none =>
        rw [hunits] at hresult hvalues
        refine ⟨fun _ hfails => ?_, fun _ snapshot restored hok => ?_⟩
        · have hsome := (unitValues_nil_isSome ds).mpr hfails.2.2
          rw [← hvalues] at hsome
          cases hsome
        · rw [hok] at hresult
          cases hresult
      | some units =>
        rw [hunits] at hresult hvalues
        have hshows : ∀ d ∈ ds, ∃ value, d.validated d.init = .ok value := by
          rw [← unitValues_nil_isSome, ← hvalues]
          rfl
        constructor
        · exact fun hwhole => absurd hwhole (not_wholeOrNothing hds hunits hresult)
        · exact fun hnot => absurd ⟨rfl, hunseen, hshows⟩ hnot
    · exact ⟨fun _ hfails => hnot ⟨hfails.1, hfails.2.1⟩, fun _ => wholeOrNothing_of_shown hresult⟩

namespace MixedRows

open SameId CountUnit

/-- A counter that was registered later. -/
def newer : ProjectionDefinition Nat Nat Unit := { counter with key := "newer" }

/-- A counter that an older version has a row of. -/
def bumped : ProjectionDefinition Nat Nat Unit :=
  { counter with
    key := "bumped"
    stateVersion := 2 }

/-- The rows of three counters: a checkpoint after one of three events, none, and one of another version. -/
def rows : List (String × Row Nat) := [("count", ⟨1, 1, 1⟩), ("bumped", ⟨1, 3, 7⟩)]

end MixedRows

open SameId CountUnit MixedRows in
/-- Three counters over three events, with a row that lags, none, and one of another version. -/
theorem restore_whole_or_nothing_iff_mixed :
    WholeOrNothing [counter, newer, bumped] earlier.events
        (restore [counter, newer, bumped] rows (tailFrom earlier.events 0) 0) ↔
      ¬(earlier.events = [] ∧ SomeUnseen [counter, newer, bumped] rows ∧
        ∀ d ∈ [counter, newer, bumped], ∃ value, d.validated d.init = .ok value) := by
  have hnumbered : Numbered earlier.events := ⟨by decide +kernel, by decide +kernel⟩
  refine restore_whole_or_nothing_iff hnumbered ?_ rfl
  intro d hd row hfield
  rcases List.mem_cons.mp hd with rfl | hd
  · cases hfield
    refine Or.inr (Or.inr ⟨rfl, earlier.events.take 1, List.take_prefix _ _, ?_, rfl⟩)
    decide +kernel
  · rcases List.mem_cons.mp hd with rfl | hd
    · cases hfield
    · obtain rfl := List.mem_singleton.mp hd
      cases hfield
      exact Or.inl (by decide)

open CountUnit in
/-- A log without events: the refreshed row has the seq -1, where 0 is that of a unit that has seen nothing. -/
theorem restore_below_the_empty_watermark :
    restoreFloor [counter] [] = some 0 ∧ Checkpointed [counter] [] [] ∧
      (restore [counter] [] (tailFrom [] 0) 0).toOption =
        some ({ asOfSeq := -1, values := [("count", 0)] }, [("count", ⟨1, -1, 0⟩)]) ∧
      ¬WholeOrNothing [counter] [] (restore [counter] [] (tailFrom [] 0) 0) := by
  refine ⟨rfl, ?_, rfl, ?_⟩
  · intro d hd row hfield
    cases hfield
  · intro hwhole
    obtain ⟨-, hrows⟩ := hwhole _ _ rfl
    cases hrows with
    | cons hrow _ =>
      obtain ⟨-, -, before, hpre, hseq, -⟩ := hrow
      rw [List.prefix_nil.mp hpre] at hseq
      cases hseq

end Pydsh
