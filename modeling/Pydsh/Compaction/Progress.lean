import Pydsh.Compaction.Shadow
import Pydsh.Session.Cuts

/-!
# A compaction that shrinks nothing

`_candidate_region` looks for two nodes or more, but the walk back from the last of them may end at the first: then one message is
replaced by its summary, the surface is as long as before, and the next compaction finds the summary where the message was.
`compactNow_shrinks_iff` says that this is the only case in which a compaction that returns does not shrink the surface.
-/

namespace Pydsh

/-- Every compaction that returns a result leaves fewer nodes, whatever the model replies. -/
def Shrinks (env : CompactionEnv) (s : Session) : Prop :=
  ∀ llm r s', compactNow env llm s = (.ok (some r), s') → s'.surfaceNodes.length < s.surfaceNodes.length

/-- Of two nodes or more outside the keep-recent window, only the first has a balanced cut after it, and its message can be read. -/
def CutsOffOne (keepRecentNodes : Nat) (s : Session) : Prop :=
  ∃ first second rest messages, s.surfaceNodes.take (s.surfaceNodes.length - keepRecentNodes) = first :: second :: rest ∧
    balancedAfter s first = .ok true ∧ (∀ n ∈ second :: rest, balancedAfter s n = .ok false) ∧
    nodeMessages s [first] = .ok messages

/-! ## The walk back -/

/-- The walk back passes nodes without a balanced cut after them. -/
theorem lastBalanced_append {s : Session} {stops rest : List Nat} (h : ∀ n ∈ stops, balancedAfter s n = .ok false) :
    lastBalanced s (stops ++ rest) = lastBalanced s rest := by
  induction stops with
  | nil => rfl
  | cons n stops ih =>
    rw [List.cons_append, lastBalanced, h n List.mem_cons_self]
    exact ih (fun m hm => h m (List.mem_cons_of_mem n hm))

/-- Nodes that the walk back passed have no balanced cut after them. -/
theorem lastBalanced_passed {s : Session} {stops rest : List Nat} {stop : Nat}
    (h : lastBalanced s (stops ++ stop :: rest) = .ok (some stop)) (hnew : stop ∉ stops) :
    ∀ n ∈ stops, balancedAfter s n = .ok false := by
  induction stops with
  | nil => exact fun n hn => absurd hn List.not_mem_nil
  | cons n stops ih =>
    rw [List.cons_append, lastBalanced] at h
    cases hbalanced : balancedAfter s n with
    | error e =>
      rw [hbalanced] at h
      cases h
    | ok balanced =>
      rw [hbalanced] at h
      cases balanced with
      | true =>
        cases h
        exact absurd List.mem_cons_self hnew
      | false =>
        intro m hm
        rcases List.mem_cons.mp hm with rfl | hm
        · exact hbalanced
        · exact ih h (fun hmem => hnew (List.mem_cons_of_mem n hmem)) m hm

/-- The selection is one node where the walk back ends at the first. -/
theorem candidateRegion_of_cutsOffOne {k : Nat} {s : Session} {first second : Nat} {rest : List Nat}
    (havailable : s.surfaceNodes.take (s.surfaceNodes.length - k) = first :: second :: rest)
    (hfirst : balancedAfter s first = .ok true) (hrest : ∀ n ∈ second :: rest, balancedAfter s n = .ok false) :
    candidateRegion k s = .ok (some (first, first)) := by
  have hbefore : balancedBefore s first = .ok true := by
    obtain ⟨flags, hflags, hon, -⟩ := balancedAfter_eq_ok hfirst
    obtain ⟨walked, -, rfl⟩ := surfaceBalance_eq_ok hflags
    have hindex : s.surfaceNodes.findIdx? (fun n => n == first) = some 0 := by
      have hhead : s.surfaceNodes.head? = some first := by
        have htake : (s.surfaceNodes.take (s.surfaceNodes.length - k)).head? = some first := by rw [havailable]; rfl
        rw [List.head?_take] at htake
        split at htake
        · cases htake
        · exact htake
      cases hnodes : s.surfaceNodes with
      | nil => simp [hnodes] at hhead
      | cons n nodes =>
        have hn : n = first := by simpa [hnodes] using hhead
        rw [List.findIdx?_cons, if_pos (by simpa using hn)]
    simp only [balancedBefore, cut, hflags, hindex, bind, Except.bind]
    rfl
  have hwalk : lastBalanced s (first :: second :: rest).reverse = .ok (some first) := by
    rw [List.reverse_cons, lastBalanced_append (fun n hn => hrest n (List.mem_reverse.mp hn)), lastBalanced, hfirst]
    rfl
  have hlong : ¬(first :: second :: rest).length < 2 := by simp
  simp only [candidateRegion, havailable, if_neg hlong, hbefore, hwalk]
  rfl

/-- Where the selection is one node, the walk back passed all others outside the window. -/
theorem cutsOffOne_of_candidateRegion {k : Nat} {s : Session} (hs : s.WellFormed) {first : Nat} {messages : List PyValue}
    (h : candidateRegion k s = .ok (some (first, first))) (hmessages : nodeMessages s [first] = .ok messages) :
    CutsOffOne k s := by
  have hafter := (candidateRegion_eq_some h).2.2.2
  have hnodup : (s.surfaceNodes.take (s.surfaceNodes.length - k)).Nodup := hs.nodup.sublist (List.take_sublist _ _)
  unfold candidateRegion at h
  generalize havailable : s.surfaceNodes.take (s.surfaceNodes.length - k) = available at h hnodup
  match available, havailable with
  | [], _ => cases h
  | [n], _ => cases h
  | start :: second :: rest, havailable =>
    have hlong : ¬(start :: second :: rest).length < 2 := by simp
    simp only [if_neg hlong] at h
    cases hbefore : balancedBefore s start with
    | error e =>
      rw [hbefore] at h
      cases h
    | ok balanced =>
      rw [hbefore] at h
      cases balanced with
      | false => cases h
      | true =>
        simp only [bind, Except.bind] at h
        cases hwalk : lastBalanced s (start :: second :: rest).reverse with
        | error e =>
          rw [hwalk] at h
          cases h
        | ok found =>
          rw [hwalk] at h
          cases found with
          | none => cases h
          | some n =>
            cases h
            rw [List.reverse_cons] at hwalk
            have hnew : first ∉ (second :: rest).reverse := fun hmem => (List.nodup_cons.mp hnodup).1 (List.mem_reverse.mp hmem)
            have hpassed := lastBalanced_passed hwalk hnew
            exact ⟨first, second, rest, messages, havailable, hafter, fun m hm => hpassed m (List.mem_reverse.mpr hm), hmessages⟩

/-! ## The run that is shadowed -/

/-- Where the region that is shadowed is one node, it is all that was asked for. -/
theorem checkRegion_single {s : Session} (hs : s.WellFormed) {start stop node : Nat} (hstart : start ∈ s.surfaceNodes)
    (hstop : stop ∈ s.surfaceNodes) (h : checkRegion s start stop = .ok (node, node)) :
    start = node ∧ stop = node ∧ shadowedNodes s start stop = [node] := by
  obtain ⟨hhead, hlast, hle, -, -⟩ := checkRegion_eq_ok_iff.mp h
  have hnodup : (shadowedNodes s start stop).Nodup := hs.nodup.sublist List.filter_sublist
  have hsingle : shadowedNodes s start stop = [node] := by
    cases hshadowed : shadowedNodes s start stop with
    | nil => simp [hshadowed] at hhead
    | cons n nodes =>
      rw [hshadowed] at hhead hlast hnodup
      have hn : n = node := by simpa using hhead
      cases nodes with
      | nil => rw [hn]
      | cons m nodes =>
        rw [List.getLast?_cons_cons] at hlast
        have hmem : node ∈ m :: nodes := List.mem_of_getLast? hlast
        rw [hn] at hnodup
        exact absurd hmem (List.nodup_cons.mp hnodup).1
  have hmem : ∀ n ∈ s.surfaceNodes, start ≤ n → n ≤ stop → n = node := by
    intro n hn hge hle'
    have hshadowed : n ∈ shadowedNodes s start stop := List.mem_filter.mpr ⟨hn, decide_eq_true ⟨hge, hle'⟩⟩
    rw [hsingle] at hshadowed
    exact List.mem_singleton.mp hshadowed
  exact ⟨hmem start hstart (Nat.le_refl _) hle, hmem stop hstop hle (Nat.le_refl _), hsingle⟩

theorem splice_shrinks {nodes : List Nat} {first last : Nat} (hrun : InOrder nodes first last) (hne : first ≠ last) (new : Nat) :
    (Splice.splice nodes (nodes.idxOf first) (nodes.idxOf last) new).length < nodes.length := by
  obtain ⟨hfirst, hlast, hle⟩ := hrun
  have hlt := List.idxOf_lt_length_of_mem hlast
  have hidx : nodes.idxOf first ≠ nodes.idxOf last := fun heq => hne ((List.idxOf_inj hfirst).mp heq)
  simp only [Splice.splice, List.length_append, List.length_take, List.length_cons, List.length_drop]
  omega

theorem splice_single {nodes : List Nat} {node : Nat} (hnode : node ∈ nodes) (new : Nat) :
    (Splice.splice nodes (nodes.idxOf node) (nodes.idxOf node) new).length = nodes.length := by
  have hlt := List.idxOf_lt_length_of_mem hnode
  simp only [Splice.splice, List.length_append, List.length_take, List.length_cons, List.length_drop]
  omega

/-- A compaction of one node that can be read returns, and leaves as many nodes. -/
theorem compactNow_of_cutsOffOne {env : CompactionEnv} {s : Session} (hs : s.WellFormed) (h : CutsOffOne env.keepRecentNodes s) :
    ∃ r s', compactNow env (fun _ => .ok ["notes"]) s = (.ok (some r), s') ∧ s'.surfaceNodes.length = s.surfaceNodes.length := by
  obtain ⟨first, second, rest, messages, havailable, hfirst, hrest, hmessages⟩ := h
  have hsel := candidateRegion_of_cutsOffOne havailable hfirst hrest
  obtain ⟨hon, -, hbefore, -⟩ := id (candidateRegion_eq_some hsel)
  have hnode : first ∈ s.surfaceNodes := List.mem_of_mem_head? hon
  have hself : shadowedNodes s first first = [first] := by
    have hmem : first ∈ shadowedNodes s first first := List.mem_filter.mpr ⟨hnode, by simp⟩
    have hall : ∀ n ∈ shadowedNodes s first first, n = first := by
      intro n hn
      have := of_decide_eq_true (List.mem_filter.mp hn).2
      omega
    have hnodup : (shadowedNodes s first first).Nodup := hs.nodup.sublist List.filter_sublist
    cases hshadowed : shadowedNodes s first first with
    | nil => simp [hshadowed] at hmem
    | cons n nodes =>
      rw [hshadowed] at hall hnodup
      cases nodes with
      | nil => rw [hall n List.mem_cons_self]
      | cons m nodes =>
        have hm : m = n := (hall m (by simp)).trans (hall n (by simp)).symm
        rw [hm] at hnodup
        simp at hnodup
  have hcheck : checkRegion s first first = .ok (first, first) :=
    checkRegion_eq_ok_iff.mpr ⟨by rw [hself]; rfl, by rw [hself]; rfl, Nat.le_refl _, hbefore, hfirst⟩
  rw [compactNow_of_selected hsel]
  rcases beginRegion_cases hs env first first with
    ⟨e, herror, -⟩ | ⟨_, _, e, -, herror, -⟩ | ⟨first', last', messages', hcheck', -, hbegin⟩
  · rw [hcheck] at herror
    cases herror
  · rw [hself, hmessages] at herror
    cases herror
  · rw [hcheck] at hcheck'
    cases hcheck'
    rw [hbegin]
    have hrun : InOrder (started env first first s).surfaceNodes first first := ⟨hnode, hnode, Nat.le_refl _⟩
    rcases finishRegion_cases (pendingOf env s (shadowedNodes s first first) first first messages') (.ok ["notes"])
        (started env first first s) with ⟨e, hsummary, -⟩ | ⟨summary, -, -, hfinish⟩ | ⟨summary, e, -, hno, -⟩
    · cases hsummary
    · simp only [hfinish]
      exact ⟨_, _, rfl, splice_single hnode _⟩
    · exact absurd hrun hno

/-- A compaction of a reachable session that returns a result leaves fewer nodes, whatever the model replies, exactly if it is not the
case that of two nodes or more outside the keep-recent window only the first can be cut off and read. -/
theorem compactNow_shrinks_iff {s : Session} (hs : s.Reachable) (env : CompactionEnv) :
    Shrinks env s ↔ ¬CutsOffOne env.keepRecentNodes s := by
  have hwf := hs.wellFormed
  constructor
  · intro hshrinks hone
    obtain ⟨r, s', hcompact, hlength⟩ := compactNow_of_cutsOffOne hwf hone
    have := hshrinks _ r s' hcompact
    omega
  · intro hone llm r s' hcompact
    cases hsel : candidateRegion env.keepRecentNodes s with
    | error e =>
      simp only [compactNow, hsel] at hcompact
      cases hcompact
    | ok region =>
      cases region with
      | none =>
        simp only [compactNow, hsel] at hcompact
        cases hcompact
      | some ends =>
        obtain ⟨start, stop⟩ := ends
        rw [compactNow_of_selected hsel] at hcompact
        rcases beginRegion_cases hwf env start stop with
          ⟨e, -, hbegin⟩ | ⟨_, _, e, -, -, hbegin⟩ | ⟨first, last, messages, hcheck, hmessages, hbegin⟩
        · rw [hbegin] at hcompact
          cases hcompact
        · rw [hbegin] at hcompact
          cases hcompact
        · rw [hbegin] at hcompact
          have hrun : InOrder s.surfaceNodes first last := checkRegion_inOrder hwf hcheck
          have hne : first ≠ last := by
            rintro rfl
            obtain ⟨hstart, hstop, -⟩ := candidateRegion_inOrder hsel
            obtain ⟨rfl, rfl, hsingle⟩ := checkRegion_single hwf hstart hstop hcheck
            rw [hsingle] at hmessages
            exact hone (cutsOffOne_of_candidateRegion hwf hsel hmessages)
          rcases finishRegion_cases (pendingOf env s (shadowedNodes s start stop) first last messages)
              (llm (pendingOf env s (shadowedNodes s start stop) first last messages).messages) (started env first last s) with
            ⟨e, -, hfinish⟩ | ⟨summary, -, -, hfinish⟩ | ⟨summary, e, -, -, hfinish⟩
          · simp only [hfinish] at hcompact
            cases hcompact
          · simp only [hfinish] at hcompact
            cases hcompact
            exact splice_shrinks hrun hne _
          · simp only [hfinish] at hcompact
            cases hcompact

namespace Unshrunk

open CutOut ReplayChain OutOfOrder

/-- A question, and a reply whose tool has not returned. -/
def asking : Session := ((Session.new "chat-1" { id := "chat-1" }).append (say "m1" "one")).2.append ask |>.2

end Unshrunk

open Unshrunk OutOfOrder in
theorem compactNow_shrinks_iff_straight : ¬CutsOffOne env.keepRecentNodes straight ∧
    (Shrinks env straight ↔ ¬CutsOffOne env.keepRecentNodes straight) := by
  refine ⟨?_, compactNow_shrinks_iff (.append _ (.append _ (.append _ (.new _ _)))) env⟩
  rintro ⟨first, second, rest, messages, havailable, -, hrest, -⟩
  have hnodes : straight.surfaceNodes.take (straight.surfaceNodes.length - env.keepRecentNodes) = [1, 2] := rfl
  rw [hnodes] at havailable
  cases havailable
  have hbalanced : balancedAfter straight 2 = .ok true := rfl
  have hunbalanced := hrest 2 List.mem_cons_self
  rw [hbalanced] at hunbalanced
  cases hunbalanced

open Unshrunk OutOfOrder in
/-- A compaction while a tool runs, with nothing kept: the question is replaced by its summary, and the surface is as long as before. -/
theorem compactNow_not_shrinking : asking.Reachable ∧ asking.surfaceNodes = [1, 2] ∧
    (∃ r s', compactNow { env with keepRecentNodes := 0 } (fun _ => .ok ["notes"]) asking = (.ok (some r), s') ∧
      s'.surfaceNodes = [5, 2] ∧ r.shadowedSeqs = [1]) ∧
    ¬Shrinks { env with keepRecentNodes := 0 } asking := by
  have hresult : ∃ r s', compactNow { env with keepRecentNodes := 0 } (fun _ => .ok ["notes"]) asking = (.ok (some r), s') ∧
      s'.surfaceNodes = [5, 2] ∧ r.shadowedSeqs = [1] := exists_result (by decide +kernel) (by decide +kernel)
  refine ⟨.append _ (.append _ (.new _ _)), rfl, hresult, ?_⟩
  intro hshrinks
  obtain ⟨r, s', hcompact, hnodes, -⟩ := hresult
  have hlt := hshrinks _ r s' hcompact
  rw [hnodes] at hlt
  exact absurd hlt (by decide)

end Pydsh
