import Pydsh.Compaction.Spec

/-!
# What a compaction shadows

`_candidate_region` selects a run of surface positions and gives its two ends. `compact_region` takes, for the nodes between
them, those whose seq lies between the two seqs; the replacement takes the positions again. On a surface still in the order of
the log these are the same nodes. After an earlier compaction the surface is out of order, and they need not be: then the model
summarises some nodes and the replacement shadows others. `compactNow_exact_iff` says that a compaction shadows exactly what it
summarised precisely when the two readings of the selected range agree.
-/

namespace Pydsh

/-! ## Selection -/

/-- The run of surface positions from one node to another. -/
def selectedRun (s : Session) (start stop : Nat) : List Nat :=
  Splice.segment s.surfaceNodes (s.surfaceNodes.idxOf start) (s.surfaceNodes.idxOf stop)

/-- The node the selection ends with is one of those it looked at, with a balanced cut after it. -/
theorem lastBalanced_eq_some {s : Session} {stops : List Nat} {stop : Nat} (h : lastBalanced s stops = .ok (some stop)) :
    stop ∈ stops ∧ balancedAfter s stop = .ok true := by
  induction stops with
  | nil => cases h
  | cons n stops ih =>
    unfold lastBalanced at h
    cases hbal : balancedAfter s n with
    | error e => rw [hbal] at h; cases h
    | ok balanced =>
      rw [hbal] at h
      cases balanced with
      | true => cases h; exact ⟨List.mem_cons_self, hbal⟩
      | false =>
        obtain ⟨hmem, hstop⟩ := ih h
        exact ⟨List.mem_cons_of_mem _ hmem, hstop⟩

/-- What `_candidate_region` selects starts at the first node of the surface, ends at a node of it, and can be cut out. -/
theorem candidateRegion_eq_some {k : Nat} {s : Session} {start stop : Nat}
    (h : candidateRegion k s = .ok (some (start, stop))) :
    s.surfaceNodes.head? = some start ∧ stop ∈ s.surfaceNodes ∧ balancedBefore s start = .ok true ∧
      balancedAfter s stop = .ok true := by
  unfold candidateRegion at h
  generalize havail : s.surfaceNodes.take (s.surfaceNodes.length - k) = available at h
  by_cases hshort : available.length < 2
  · simp only [if_pos hshort] at h
    cases h
  · simp only [if_neg hshort] at h
    cases available with
    | nil => cases h
    | cons first rest =>
      cases hbefore : balancedBefore s first with
      | error e => simp only [hbefore] at h; cases h
      | ok balanced =>
        cases balanced with
        | false => simp only [hbefore] at h; cases h
        | true =>
          simp only [hbefore] at h
          cases hlast : lastBalanced s (first :: rest).reverse with
          | error e => rw [hlast] at h; cases h
          | ok found =>
            rw [hlast] at h
            cases found with
            | none => cases h
            | some n =>
              cases h
              obtain ⟨hmem, hafter⟩ := lastBalanced_eq_some hlast
              have hstop : stop ∈ s.surfaceNodes := by
                rw [List.mem_reverse, ← havail] at hmem
                exact List.mem_of_mem_take hmem
              refine ⟨?_, hstop, hbefore, hafter⟩
              have hhead : (s.surfaceNodes.take (s.surfaceNodes.length - k)).head? = some start := by rw [havail]; rfl
              rw [List.head?_take] at hhead
              split at hhead
              · cases hhead
              · exact hhead

/-- The ends of the selected run stand on the surface in order. -/
theorem candidateRegion_inOrder {k : Nat} {s : Session} {start stop : Nat}
    (h : candidateRegion k s = .ok (some (start, stop))) : InOrder s.surfaceNodes start stop := by
  obtain ⟨hhead, hstop, -, -⟩ := candidateRegion_eq_some h
  refine ⟨List.mem_of_mem_head? hhead, hstop, ?_⟩
  cases hnodes : s.surfaceNodes with
  | nil => rw [hnodes] at hhead; cases hhead
  | cons n nodes =>
    rw [hnodes] at hhead
    cases hhead
    rw [List.idxOf_cons_self]
    exact Nat.zero_le _

/-- The region passes the checks of `compact_region` with these ends exactly when they are the first and last of the nodes it
will shadow, the region is not inverted, and both cuts are balanced. -/
theorem checkRegion_eq_ok_iff {s : Session} {start stop first last : Nat} : checkRegion s start stop = .ok (first, last) ↔
    (shadowedNodes s start stop).head? = some first ∧ (shadowedNodes s start stop).getLast? = some last ∧ start ≤ stop ∧
      balancedBefore s first = .ok true ∧ balancedAfter s last = .ok true := by
  unfold checkRegion
  cases hhead : (shadowedNodes s start stop).head? with
  | none => simp
  | some f =>
    cases hlast : (shadowedNodes s start stop).getLast? with
    | none => simp
    | some l =>
      by_cases hinv : start > stop
      · have hle : ¬start ≤ stop := by omega
        simp [hinv, hle]
      · have hle : start ≤ stop := by omega
        simp only [hinv, if_false, hle, true_and, Option.some.injEq]
        constructor
        · intro h
          split at h <;> try cases h
          rename_i hbefore
          split at h <;> cases h
          rename_i hafter
          exact ⟨rfl, rfl, hbefore, hafter⟩
        · rintro ⟨rfl, rfl, hbefore, hafter⟩
          simp only [hbefore, hafter]

/-- The ends of a region that passed the checks stand on the surface in order. -/
theorem checkRegion_inOrder {s : Session} (hs : s.WellFormed) {start stop first last : Nat}
    (h : checkRegion s start stop = .ok (first, last)) : InOrder s.surfaceNodes first last := by
  obtain ⟨hhead, hlast, -, -, -⟩ := checkRegion_eq_ok_iff.mp h
  have hsub : (shadowedNodes s start stop).Sublist s.surfaceNodes := List.filter_sublist
  exact ⟨hsub.subset (List.mem_of_mem_head? hhead), hsub.subset (List.mem_of_getLast? hlast),
    Splice.idxOf_head_le_getLast hs.nodup hsub hhead hlast⟩

/-! ## Shadowing what was summarised -/

/-- A compaction that turned `s` into `s'` shadowed exactly a run: the nodes gone from the surface, those its result names,
those of the replacement record, and those of the `compaction/summary` event are the nodes of the run. -/
structure ShadowsExactly (s s' : Session) (r : CompactionResult) (run : List Nat) : Prop where
  removed : ∀ n, (n ∈ s.surfaceNodes ∧ n ∉ s'.surfaceNodes) ↔ n ∈ run
  returned : r.shadowedSeqs = run
  replaced : s'.replacements = s.replacements ++ [⟨r.checkpointSeq, run⟩]
  recorded : ∃ e ∈ s'.events, ∃ kvs, e.type = .compactionSummary ∧ e.seq = r.summarySeq ∧ e.data = .obj kvs ∧
    field? kvs "shadowed_seqs" = some (.arr (run.map (fun n => .int n)))

/-- What `compact_now` owes: when no region is selected, no change; when one is, either the summary fails and the surface is
unchanged, or the model is sent the messages of exactly that run and exactly that run is shadowed. -/
def CompactsExactly (env : CompactionEnv) (llm : List PyValue → ModelReply) (s : Session) : Prop :=
  match candidateRegion env.keepRecentNodes s with
  | .error e => compactNow env llm s = (.error (.pairing e), s)
  | .ok none => compactNow env llm s = (.ok none, s)
  | .ok (some (start, stop)) =>
    (∃ e s', compactNow env llm s = (.error (.summary e), s') ∧ s'.surfaceNodes = s.surfaceNodes) ∨
    (∃ p s₁ messages r s', compactNow env llm s = (.ok (some r), s') ∧ beginRegion env start stop s = (.ok p, s₁) ∧
      nodeMessages s (selectedRun s start stop) = .ok messages ∧
      p.messages = messages ++ [(instructionMessage env).toPy] ∧ ShadowsExactly s s' r (selectedRun s start stop))

/-- The nodes with a seq between the ends of the selected run are exactly the run, unless the summariser cannot even build the
messages it would send for them. -/
def SelectsItsRun (env : CompactionEnv) (s : Session) : Prop :=
  ∀ start stop, candidateRegion env.keepRecentNodes s = .ok (some (start, stop)) →
    shadowedNodes s start stop = selectedRun s start stop ∨
    ((∃ ends, checkRegion s start stop = .ok ends) ∧ ∃ e, nodeMessages s (shadowedNodes s start stop) = .error e)

/-- When the two readings of a selected range agree, the checks of `compact_region` pass, with the ends of the selection. -/
theorem checkRegion_of_selected {k : Nat} {s : Session} {start stop : Nat}
    (hsel : candidateRegion k s = .ok (some (start, stop))) (heq : shadowedNodes s start stop = selectedRun s start stop) :
    checkRegion s start stop = .ok (start, stop) := by
  obtain ⟨-, -, hbefore, hafter⟩ := candidateRegion_eq_some hsel
  obtain ⟨hstart, hstop, hle⟩ := candidateRegion_inOrder hsel
  have hhead : (shadowedNodes s start stop).head? = some start := by
    rw [heq]
    exact Splice.head?_segment_idxOf hstart hle
  have hmem : start ∈ shadowedNodes s start stop := List.mem_of_mem_head? hhead
  have hrange : start ≤ stop := by
    have := (List.mem_filter.mp hmem).2
    simp only [decide_eq_true_eq] at this
    omega
  refine checkRegion_eq_ok_iff.mpr ⟨hhead, ?_, hrange, hbefore, hafter⟩
  rw [heq]
  exact Splice.getLast?_segment_idxOf hstop hle

/-- A compaction whose run is still on the surface shadows exactly the run its replacement names, when the nodes it holds are
that run. -/
theorem checkpointed_shadowsExactly {s : Session} (hs : s.WellFormed) (p : Pending) (summary : String)
    (hrun : InOrder s.surfaceNodes p.first p.last) (heq : p.shadowed = selectedRun s p.first p.last) :
    ShadowsExactly s (ended p.env none (checkpointed p summary s)) (resultOf p summary s) (selectedRun s p.first p.last) := by
  have hnew : s.seq + 2 ∉ s.surfaceNodes := by
    intro hmem
    have := (hs.surface_le hmem).2
    omega
  refine ⟨?_, heq, rfl, ?_⟩
  · intro n
    rw [ended_surfaceNodes, checkpointed_surfaceNodes]
    exact Splice.removed_iff_mem_segment hrun.2.2 hs.nodup hnew
  · refine ⟨(summaryCall p summary).event s (summaryData p summary), ?_, _, rfl, rfl, rfl, ?_⟩
    · simp [ended, checkpointed, Session.replaceRun, summarised]
    · rw [← heq]
      rfl

/-- With a region selected, `compact_now` is the two halves of `compact_region`. -/
theorem compactNow_of_selected {env : CompactionEnv} {s : Session} {start stop : Nat}
    (hsel : candidateRegion env.keepRecentNodes s = .ok (some (start, stop))) (llm : List PyValue → ModelReply) :
    compactNow env llm s = match beginRegion env start stop s with
      | (.error e, s₁) => (.error e, s₁)
      | (.ok p, s₁) => match finishRegion p (llm p.messages) s₁ with
        | (.error e, s₂) => (.error e, s₂)
        | (.ok r, s₂) => (.ok (some r), s₂) := by
  simp only [compactNow, hsel, compactRegion]
  split
  · rename_i heq
    split at heq <;> simp_all
  · rename_i heq
    split at heq <;> simp_all

/-- A region is refused for what it is, never for its summary. -/
theorem checkRegion_ne_summary (s : Session) (start stop : Nat) (e : SummaryError) :
    checkRegion s start stop ≠ .error (.summary e) := by
  unfold checkRegion
  split
  · split
    · intro h; cases h
    · split
      · intro h; cases h
      · intro h; cases h
      · split <;> intro h <;> cases h
  · intro h; cases h

/-- Whatever the model replies, a compaction of a reachable session shadows exactly what it summarised: precisely when the nodes
between the two seqs of the selected region are the run of positions that was selected. -/
theorem compactNow_exact_iff {s : Session} (hs : s.Reachable) (env : CompactionEnv) :
    (∀ llm, CompactsExactly env llm s) ↔ SelectsItsRun env s := by
  have hwf := hs.wellFormed
  constructor
  · intro hexact start stop hsel
    have hone := hexact (fun _ => .ok ["notes"])
    rw [CompactsExactly, hsel] at hone
    simp only [compactNow_of_selected hsel] at hone
    rcases beginRegion_cases hwf env start stop with
      ⟨e, hcheck, hbegin⟩ | ⟨first, last, e, hcheck, hmessages, -⟩ | ⟨first, last, messages, hcheck, hmessages, hbegin⟩
    · simp only [hbegin] at hone
      rcases hone with ⟨e', s', herr, -⟩ | ⟨p, s₁, messages, r, s', hok, -⟩
      · cases herr
        exact absurd hcheck (checkRegion_ne_summary s start stop e')
      · cases hok
    · exact Or.inr ⟨⟨_, hcheck⟩, e, hmessages⟩
    · left
      have hrun : InOrder (started env first last s).surfaceNodes first last := checkRegion_inOrder hwf hcheck
      simp only [hbegin] at hone
      rcases finishRegion_cases (pendingOf env s (shadowedNodes s start stop) first last messages) (.ok ["notes"])
          (started env first last s) with ⟨e, hsummary, -⟩ | ⟨summary, -, -, hfinish⟩ | ⟨summary, e, -, hno, -⟩
      · cases hsummary
      · simp only [hfinish] at hone
        rcases hone with ⟨e', s', herr, -⟩ | ⟨p, s₁, messages', r, s', hok, -, -, -, hshadow⟩
        · cases herr
        · cases hok
          exact hshadow.returned
      · exact absurd hrun hno
  · intro hselects llm
    unfold CompactsExactly
    cases hsel : candidateRegion env.keepRecentNodes s with
    | error e => simp only [compactNow, hsel]
    | ok region =>
      cases region with
      | none => simp only [compactNow, hsel]
      | some ends =>
        obtain ⟨start, stop⟩ := ends
        simp only [compactNow_of_selected hsel]
        rcases beginRegion_cases hwf env start stop with
          ⟨e, hcheck, hbegin⟩ | ⟨first, last, e, hcheck, hmessages, hbegin⟩ |
          ⟨first, last, messages, hcheck, hmessages, hbegin⟩
        · rcases hselects start stop hsel with heq | ⟨⟨ends, hpass⟩, -⟩
          · rw [checkRegion_of_selected hsel heq] at hcheck
            cases hcheck
          · rw [hpass] at hcheck
            cases hcheck
        · refine Or.inl ⟨e, ended env (some e) (started env first last s), ?_, rfl⟩
          simp only [hbegin]
        · have heq : shadowedNodes s start stop = selectedRun s start stop := by
            rcases hselects start stop hsel with heq | ⟨-, e, herr⟩
            · exact heq
            · rw [herr] at hmessages
              cases hmessages
          rw [checkRegion_of_selected hsel heq] at hcheck
          cases hcheck
          have hrun : InOrder s.surfaceNodes start stop := candidateRegion_inOrder hsel
          have hwf₁ : (started env start stop s).WellFormed := hwf.commit rfl
          generalize hp : pendingOf env s (shadowedNodes s start stop) start stop messages = p at hbegin
          have hends : p.first = start ∧ p.last = stop ∧ p.shadowed = selectedRun s start stop := by
            rw [← hp]
            exact ⟨rfl, rfl, heq⟩
          obtain ⟨hfirst, hlast, hshadowed⟩ := hends
          rw [← hfirst, ← hlast] at hrun hshadowed
          simp only [hbegin]
          rcases finishRegion_cases p (llm p.messages) (started env start stop s) with
            ⟨e, -, hfinish⟩ | ⟨summary, -, -, hfinish⟩ | ⟨summary, e, -, hno, -⟩
          · refine Or.inl ⟨e, ended p.env (some e) (started env start stop s), ?_, rfl⟩
            simp only [hfinish]
          · obtain ⟨hremoved, hreturned, hreplaced, hrecorded⟩ := checkpointed_shadowsExactly hwf₁ p summary hrun hshadowed
            rw [hfirst, hlast] at hremoved hreturned hreplaced hrecorded
            refine Or.inr ⟨p, _, messages, _, _, ?_, rfl, ?_, ?_, hremoved, hreturned, hreplaced, hrecorded⟩
            · simp only [hfinish]
            · rw [← heq]
              exact hmessages
            · rw [← hp]
              rfl
          · exact absurd hrun hno

namespace OutOfOrder

open ReplayChain

/-- Everything but the newest node may be compacted. -/
def env : CompactionEnv :=
  { keepRecentNodes := 1
    provider := "provider"
    model := "model"
    compactionId := "c1"
    checkpointId := "m7"
    instructionId := "m8"
    measure := fun _ _ => 0
    errorText := fun _ => "RuntimeError" }

/-- Three messages in the order of the log. -/
def straight : Session :=
  [say "m1" "one", say "m2" "two", say "m3" "three"].foldl (fun s c => (s.append c).2) (Session.new "chat-1" { id := "chat-1" })

/-- The same, with the first two replaced by a summary, and two messages more: the surface is 4, 3, 5, 6. -/
def session : Session :=
  [summarise "m4" 1 2, say "m5" "five", say "m6" "six"].foldl (fun s c => (s.append c).2) straight

end OutOfOrder

open OutOfOrder in
theorem compactNow_exact_iff_straight :
    SelectsItsRun env straight ∧ ((∀ llm, CompactsExactly env llm straight) ↔ SelectsItsRun env straight) := by
  refine ⟨?_, compactNow_exact_iff (s := straight) (.append _ (.append _ (.append _ (.new _ _)))) env⟩
  intro start stop hsel
  have hregion : candidateRegion env.keepRecentNodes straight = .ok (some (1, 2)) := rfl
  rw [hregion] at hsel
  cases hsel
  exact Or.inl rfl

theorem exists_result {x : Except CompactionError (Option CompactionResult) × Session} {nodes seqs : List Nat}
    (hnodes : x.2.surfaceNodes = nodes) (hseqs : x.1.toOption.join.map (·.shadowedSeqs) = some seqs) :
    ∃ r s, x = (.ok (some r), s) ∧ s.surfaceNodes = nodes ∧ r.shadowedSeqs = seqs := by
  obtain ⟨e | _ | r, s⟩ := x
  · cases hseqs
  · cases hseqs
  · exact ⟨r, s, rfl, hnodes, Option.some.inj hseqs⟩

open OutOfOrder in
/-- On a surface an earlier compaction has put out of order, the region runs from node 4 to node 5; the model summarises 4 and 5,
and node 3 between them is shadowed without being summarised. -/
theorem compactNow_not_exact : session.Reachable ∧ session.surfaceNodes = [4, 3, 5, 6] ∧
    selectedRun session 4 5 = [4, 3, 5] ∧ shadowedNodes session 4 5 = [4, 5] ∧
    (compactNow env (fun _ => .ok ["notes"]) session).2.surfaceNodes = [9, 6] ∧
    ¬CompactsExactly env (fun _ => .ok ["notes"]) session := by
  refine ⟨?_, rfl, rfl, rfl, by decide +kernel, ?_⟩
  · exact .append _ (.append _ (.append _ (.append _ (.append _ (.append _ (.new _ _))))))
  · have hregion : candidateRegion env.keepRecentNodes session = .ok (some (4, 5)) := rfl
    obtain ⟨r, s', hresult, -, hshadowed⟩ :=
      @exists_result (compactNow env (fun _ => .ok ["notes"]) session) [9, 6] [4, 5] (by decide +kernel) (by decide +kernel)
    rw [CompactsExactly, hregion]
    simp only [hresult]
    rintro (⟨e, s'', herr, -⟩ | ⟨p, s₁, messages, r', s'', hok, -, -, -, hexact⟩)
    · cases herr
    · cases hok
      have hrun := hexact.returned
      rw [hshadowed] at hrun
      cases hrun

end Pydsh
