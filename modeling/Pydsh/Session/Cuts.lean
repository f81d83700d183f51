import Mathlib.Algebra.Ring.Nat
import Pydsh.Session.Surface

/-!
# Cuts of the surface

A cut of the surface is balanced where the walk over the nodes before it counts no outstanding call. The walk goes on behind a balanced
cut as it would from the start of a surface (`walkBalance_cut`). So a run between two balanced cuts makes as many calls as it holds
results, and where one message of a user stands in its place the walk gives the same flags for the cuts that remain
(`replace_balanced_run`).
-/

namespace Pydsh

variable {s : Session}

/-! ## The walk and its cuts -/

theorem walkBalance_cons_eq_ok {n : Nat} {ns : List Nat} {k : Int} {flags : List Bool} (h : walkBalance s (n :: ns) k = .ok flags) :
    ∃ e d rest, s.eventAt n = some e ∧ outstandingDelta e = .ok d ∧ 0 ≤ k + d ∧ walkBalance s ns (k + d) = .ok rest ∧
      flags = (k + d == 0) :: rest := by
  simp only [walkBalance] at h
  cases he : s.eventAt n with
  | none => simp [he] at h
  | some e =>
    cases hd : outstandingDelta e with
    | error err => simp [he, hd, bind, Except.bind] at h
    | ok d =>
      simp only [he, hd, bind, Except.bind] at h
      split at h
      · cases h
      · rename_i hneg
        cases hrest : walkBalance s ns (k + d) with
        | error err => simp [hrest] at h
        | ok rest =>
          simp only [hrest, pure, Except.pure, Except.ok.injEq] at h
          exact ⟨e, d, rest, rfl, hd, by omega, hrest, h.symm⟩

theorem walkBalance_cons {n : Nat} {ns : List Nat} {k d : Int} {e : SessionEvent} {rest : List Bool} (he : s.eventAt n = some e)
    (hd : outstandingDelta e = .ok d) (hle : 0 ≤ k + d) (hrest : walkBalance s ns (k + d) = .ok rest) :
    walkBalance s (n :: ns) k = .ok ((k + d == 0) :: rest) := by
  have hneg : ¬k + d < 0 := by omega
  simp only [walkBalance, he, hd, bind, Except.bind, if_neg hneg, hrest]
  rfl

/-- The flags of a walk over two lists are those of the walks over each. -/
theorem walkBalance_append {xs ys : List Nat} {k k₁ : Int} {before after : List Bool} (hwalks : s.Walks xs k k₁)
    (hbefore : walkBalance s xs k = .ok before) (hafter : walkBalance s ys k₁ = .ok after) :
    walkBalance s (xs ++ ys) k = .ok (before ++ after) := by
  induction xs generalizing k before with
  | nil =>
    cases hbefore
    cases hwalks
    exact hafter
  | cons x xs ih =>
    obtain ⟨e, d, he, hd, hle, hwalks⟩ := hwalks
    obtain ⟨e', d', rest, he', hd', -, hrest, rfl⟩ := walkBalance_cons_eq_ok hbefore
    rw [he, Option.some.injEq] at he'
    subst he'
    rw [hd, Except.ok.injEq] at hd'
    subst hd'
    exact walkBalance_cons he hd hle (ih hwalks hrest)

/-- Before a balanced cut the walk comes to no outstanding call, and behind it it goes on from there. -/
theorem walkBalance_cut {nodes : List Nat} {k : Int} {flags : List Bool} (h : walkBalance s nodes k = .ok flags) {i : Nat}
    (hflag : ((k == 0) :: flags)[i]? = some true) :
    s.Walks (nodes.take i) k 0 ∧ walkBalance s (nodes.take i) k = .ok (flags.take i) ∧
      walkBalance s (nodes.drop i) 0 = .ok (flags.drop i) := by
  induction nodes generalizing k flags i with
  | nil =>
    cases h
    cases i with
    | zero =>
      have hzero : k = 0 := by simpa using hflag
      exact ⟨hzero, rfl, rfl⟩
    | succ i => simp at hflag
  | cons n ns ih =>
    cases i with
    | zero =>
      have hzero : k = 0 := by simpa using hflag
      subst hzero
      exact ⟨rfl, rfl, h⟩
    | succ i =>
      obtain ⟨e, d, rest, he, hd, hle, hrest, rfl⟩ := walkBalance_cons_eq_ok h
      obtain ⟨hwalks, htake, hdrop⟩ := ih hrest (by simpa using hflag)
      exact ⟨⟨e, d, he, hd, hle, hwalks⟩, walkBalance_cons he hd hle htake, hdrop⟩

theorem walkBalance_length {nodes : List Nat} {k : Int} {flags : List Bool} (h : walkBalance s nodes k = .ok flags) :
    flags.length = nodes.length := by
  induction nodes generalizing k flags with
  | nil =>
    cases h
    rfl
  | cons n ns ih =>
    obtain ⟨e, d, rest, -, -, -, hrest, rfl⟩ := walkBalance_cons_eq_ok h
    rw [List.length_cons, List.length_cons, ih hrest]

/-- A walk depends only on what the log holds under its nodes. -/
theorem walkBalance_congr {s' : Session} {nodes : List Nat} (hat : ∀ n ∈ nodes, s'.eventAt n = s.eventAt n) (k : Int) :
    walkBalance s' nodes k = walkBalance s nodes k := by
  induction nodes generalizing k with
  | nil => rfl
  | cons n ns ih =>
    have hrest := fun k => ih (fun m hm => hat m (List.mem_cons_of_mem n hm)) k
    simp only [walkBalance, hat n List.mem_cons_self, hrest]

theorem surfaceBalance_eq_ok {flags : List Bool} (h : surfaceBalance s = .ok flags) :
    ∃ walked, walkBalance s s.surfaceNodes 0 = .ok walked ∧ flags = true :: walked := by
  unfold surfaceBalance at h
  cases hwalk : walkBalance s s.surfaceNodes 0 with
  | error e =>
    rw [hwalk] at h
    cases h
  | ok walked =>
    rw [hwalk] at h
    cases h
    exact ⟨walked, rfl, rfl⟩

theorem surfaceBalance_of_walk {walked : List Bool} (h : walkBalance s s.surfaceNodes 0 = .ok walked) :
    surfaceBalance s = .ok (true :: walked) := by
  simp only [surfaceBalance, h, bind, Except.bind, pure, Except.pure]

theorem balancedAfter_eq_ok {node : Nat} (h : balancedAfter s node = .ok true) :
    ∃ flags, surfaceBalance s = .ok flags ∧ node ∈ s.surfaceNodes ∧ flags[s.surfaceNodes.idxOf node + 1]? = some true := by
  unfold balancedAfter cut at h
  cases hflags : surfaceBalance s with
  | error e =>
    rw [hflags] at h
    cases h
  | ok flags =>
    simp only [hflags, bind, Except.bind] at h
    split at h
    · cases h
    · rename_i index hindex
      have hon : node ∈ s.surfaceNodes ∧ s.surfaceNodes.idxOf node = index := by
        have hfound : s.surfaceNodes.idxOf? node = some index := hindex
        have hmem : node ∈ s.surfaceNodes := List.isSome_idxOf?.mp (by rw [hfound]; rfl)
        exact ⟨hmem, by rw [List.idxOf_eq_getD_idxOf?, hfound]; rfl⟩
      refine ⟨flags, rfl, hon.1, ?_⟩
      simp only [pure, Except.pure, Except.ok.injEq, List.getD_eq_getElem?_getD] at h
      rw [hon.2]
      cases hget : flags[index + 1]? with
      | none => simp [hget] at h
      | some flag => simpa [hget] using h

theorem Session.Walks.of_append {xs ys : List Nat} {k k' : Int} (h : s.Walks (xs ++ ys) k k') :
    ∃ k₁, s.Walks xs k k₁ ∧ s.Walks ys k₁ k' := by
  induction xs generalizing k with
  | nil => exact ⟨k, rfl, h⟩
  | cons x xs ih =>
    obtain ⟨e, d, he, hd, hle, hrest⟩ := h
    obtain ⟨k₁, hxs, hys⟩ := ih hrest
    exact ⟨k₁, ⟨e, d, he, hd, hle, hxs⟩, hys⟩

theorem Session.Walks.nonneg {nodes : List Nat} {k k' : Int} (h : s.Walks nodes k k') (hk : 0 ≤ k) : 0 ≤ k' := by
  induction nodes generalizing k with
  | nil =>
    cases h
    exact hk
  | cons n ns ih =>
    obtain ⟨e, d, -, -, hle, hrest⟩ := h
    exact ih hrest hle

/-! ## Calls and results of a run -/

/-- How many tool calls an event makes. -/
def SessionEvent.callCount (e : SessionEvent) : Nat :=
  match e.type, e.message.map decodePayload with
  | .assistantMessage, some (.ok message) => message.content.countP PyValue.isToolCall
  | _, _ => 0

/-- How many tool calls the nodes make. -/
def Session.callsIn (s : Session) (nodes : List Nat) : Nat := ((nodes.filterMap s.eventAt).map SessionEvent.callCount).sum

/-- How many of the nodes are tool results. -/
def Session.resultsIn (s : Session) (nodes : List Nat) : Nat :=
  (nodes.filterMap s.eventAt).countP (fun e => decide (e.type = .toolResult))

theorem outstandingDelta_eq_ok {e : SessionEvent} {d : Int} (h : outstandingDelta e = .ok d) :
    d = e.callCount - (if e.type = .toolResult then 1 else 0 : Nat) := by
  unfold outstandingDelta at h
  unfold SessionEvent.callCount
  cases htype : e.type with
  | assistantMessage =>
    simp only [htype] at h
    cases hmessage : e.message with
    | none => simp [hmessage] at h
    | some message =>
      cases hdecode : decodePayload message with
      | error err => simp [hmessage, hdecode] at h
      | ok decoded =>
        simp only [hmessage, hdecode, Except.ok.injEq] at h
        simp [hdecode, ← h]
  | _ =>
    simp only [htype, Except.ok.injEq] at h
    simp [← h]

theorem Session.Walks.count {nodes : List Nat} {k k' : Int} (h : s.Walks nodes k k') :
    k' = k + s.callsIn nodes - s.resultsIn nodes := by
  induction nodes generalizing k with
  | nil =>
    cases h
    simp [Session.callsIn, Session.resultsIn]
  | cons n ns ih =>
    obtain ⟨e, d, he, hd, -, hrest⟩ := h
    have hcount := ih hrest
    have hdelta := outstandingDelta_eq_ok hd
    have hcalls : s.callsIn (n :: ns) = e.callCount + s.callsIn ns := by simp [Session.callsIn, he]
    have hresults : s.resultsIn (n :: ns) = s.resultsIn ns + (if e.type = .toolResult then 1 else 0) := by
      simp [Session.resultsIn, he, List.countP_cons]
    omega

/-- The run between two balanced cuts makes as many calls as it holds results. -/
theorem run_cancels {flags : List Bool} (h : surfaceBalance s = .ok flags) {first last : Nat} (hle : first ≤ last)
    (hbefore : flags[first]? = some true) (hafter : flags[last + 1]? = some true) :
    s.callsIn (Splice.segment s.surfaceNodes first last) = s.resultsIn (Splice.segment s.surfaceNodes first last) := by
  obtain ⟨walked, hwalk, rfl⟩ := surfaceBalance_eq_ok h
  obtain ⟨-, -, hdrop⟩ := walkBalance_cut hwalk hbefore
  have hflag : ((0 : Int) == 0) :: walked.drop first = (true :: walked).drop first := by
    cases first with
    | zero => rfl
    | succ first =>
      have hget : walked[first]? = some true := by simpa using hbefore
      obtain ⟨hlt, hget⟩ := List.getElem?_eq_some_iff.mp hget
      rw [List.drop_succ_cons, List.drop_eq_getElem_cons hlt, hget]
      rfl
  have hend : (((0 : Int) == 0) :: walked.drop first)[last + 1 - first]? = some true := by
    rw [hflag, List.getElem?_drop, show first + (last + 1 - first) = last + 1 by omega]
    exact hafter
  have hcount := (walkBalance_cut hdrop hend).1.count
  rw [← List.drop_take] at hcount
  unfold Splice.segment
  omega

/-! ## A run between balanced cuts is replaced -/

/-- Where a message of a user takes the place of a run between two balanced cuts, the surface still has a balance, each cut that remains
is balanced as it was, and the run made as many calls as it held results. -/
theorem replace_balanced_run (hs : s.Tidy) {flags : List Bool} (h : surfaceBalance s = .ok flags) {first last : Nat}
    (hbefore : flags[first]? = some true) (hafter : flags[last + 1]? = some true) {c : AppendCall} {j : Json} (hadmits : c.Admits j)
    (htype : c.eventType = .userMessage) (hreplace : c.surfaceOp.isReplace = true)
    (hrun : c.surfaceOp.NamesRun s.surfaceNodes first last) :
    ∃ e s', s.append c = (.ok e, s') ∧ s'.surfaceNodes = Splice.splice s.surfaceNodes first last e.seq ∧
      surfaceBalance s' = .ok (flags.take (first + 1) ++ flags.drop (last + 1)) ∧
      s.callsIn (Splice.segment s.surfaceNodes first last) = s.resultsIn (Splice.segment s.surfaceNodes first last) := by
  obtain ⟨start, stop, -, -, -, -, hle⟩ := id hrun
  have hcancels := run_cancels h hle hbefore hafter
  obtain ⟨walked, hwalk, rfl⟩ := surfaceBalance_eq_ok h
  have happend := append_of_replace s hadmits hreplace
  rw [applyReplaceOp_of_namesRun (s.commit (c.event s j)) hrun] at happend
  refine ⟨_, _, happend, rfl, ?_, hcancels⟩
  obtain ⟨hwalks, htake, -⟩ := walkBalance_cut hwalk hbefore
  obtain ⟨-, -, hdrop⟩ := walkBalance_cut hwalk hafter
  -- the old nodes are read as before, and the new one is a message of a user
  have hold : ∀ n ∈ s.surfaceNodes, (s.replaceRun first last (c.event s j)).eventAt n = s.eventAt n := by
    intro n hn
    have := hs n hn
    exact eventAt_commit s (by rw [AppendCall.event_seq]; omega)
  have htake' := (walkBalance_congr (fun n hn => hold n (List.mem_of_mem_take hn)) 0).trans htake
  have hdrop' := (walkBalance_congr (fun n hn => hold n (List.mem_of_mem_drop hn)) 0).trans hdrop
  have hnew : (s.replaceRun first last (c.event s j)).eventAt (s.seq + 1) = some (c.event s j) := eventAt_commit_self s (c.event s j)
  have hdelta : outstandingDelta (c.event s j) = .ok 0 := by
    simp only [outstandingDelta, AppendCall.event_type, htype]
  have hspliced := walkBalance_append (hwalks.congr (fun n hn => hold n (List.mem_of_mem_take hn))) htake'
    (walkBalance_cons hnew hdelta (by omega) hdrop')
  have hflag : (true :: walked).drop (last + 1) = true :: walked.drop (last + 1) := by
    have hget : walked[last]? = some true := by simpa using hafter
    obtain ⟨hlt, hget⟩ := List.getElem?_eq_some_iff.mp hget
    rw [List.drop_succ_cons, List.drop_eq_getElem_cons hlt, hget]
  rw [hflag]
  exact surfaceBalance_of_walk hspliced

namespace CutOut

open ReplayChain

/-- An assistant's message that asks for a tool. -/
def ask : AppendCall :=
  { eventType := .assistantMessage
    data := (Json.obj [("message", (createAssistantMessage "m2"
      [.toolCall { id := "c1", name := "read", arguments := "" }] "provider" "model").toJson)]).loads }

/-- The result of the tool. -/
def answer : AppendCall :=
  { eventType := .toolResult
    data := (Json.obj [("message", (createUserMessage "m3" [.toolResult "c1" [.text "done"] false]).toJson)]).loads }

/-- A question, a call with its result, and another question. -/
def session : Session :=
  ((((Session.new "chat-1" { id := "chat-1" }).append (say "m1" "one")).2.append ask).2.append answer).2.append (say "m4" "four") |>.2

theorem session_tidy : session.Tidy := by
  have hnodes : session.surfaceNodes = [1, 2, 3, 4] := rfl
  have hseq : session.seq = 4 := rfl
  intro n hn
  rw [hnodes] at hn
  simp only [List.mem_cons, List.not_mem_nil, or_false] at hn
  omega

end CutOut

open CutOut ReplayChain in
theorem replace_balanced_run_call : ∃ e s', session.append (summarise "m5" 2 3) = (.ok e, s') ∧
    s'.surfaceNodes = Splice.splice session.surfaceNodes 1 2 e.seq ∧
    surfaceBalance s' = .ok ([true, true, false, true, true].take 2 ++ [true, true, false, true, true].drop 3) ∧
    session.callsIn (Splice.segment session.surfaceNodes 1 2) = session.resultsIn (Splice.segment session.surfaceNodes 1 2) := by
  have hnodes : session.surfaceNodes = [1, 2, 3, 4] := rfl
  have hrun : (summarise "m5" 2 3).surfaceOp.NamesRun session.surfaceNodes 1 2 := by
    rw [hnodes]
    exact SurfaceOp.namesRun_replace.mpr ⟨⟨by decide, by decide, by decide⟩, rfl, rfl⟩
  exact replace_balanced_run session_tidy rfl rfl rfl ⟨fun _ => rfl, rfl, validateLosslessJson_loads _⟩ rfl rfl hrun

end Pydsh
