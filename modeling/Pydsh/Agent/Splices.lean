import Mathlib.Data.List.Induction
import Pydsh.Agent.Inbox
import Pydsh.Lib.Bracket

/-!
# Operations on the inbox, one after another

Where no operation begins before the last one is over, each of `agent/inbox.py` is a few splices, each logged and then applied
(`perform_eq`). The splices replay to the queues after every operation. Each of them changes a queue, and takes out as many entries as
it says, exactly if no `claim` of the next turn finds its queue empty (`splices_effective_iff`).
-/

namespace Pydsh

namespace InboxState

/-- The innermost operation goes on, if there is one. -/
def goOn (st : InboxState) (time : Rat) : InboxState := (st.go time).getD st

/-- An operation from its beginning to its end: it logs and applies two splices at most, and is over after going on three times. -/
def perform (st : InboxState) (c : InboxCall) (time : Rat) : InboxState := (((st.call c time).goOn time).goOn time).goOn time

/-- Operations one after another. -/
def performs (st : InboxState) (calls : List (InboxCall × Rat)) : InboxState := calls.foldl (fun st c => st.perform c.1 c.2) st

/-- A splice that is logged and applied, unless it is a no-op. -/
def spliced (st : InboxState) (sp : InboxSplice) (time : Rat) : InboxState :=
  if sp.isNoop then st
  else { st with
    session := (st.session.append { eventType := .inboxSpliced, data := sp.toJson.loads, time }).2
    queues := sp.apply st.queues }

end InboxState

/-- The splices of an operation. -/
def InboxCall.splices (q : Queues PyValue) : InboxCall → List InboxSplice
  | .append target message =>
    match Target.named target with
    | none => []
    | some target => [⟨target, (q.get target).length, 0, [message]⟩]
  | .prepend target message =>
    match Target.named target with
    | none => []
    | some target => [⟨target, 0, 0, [message]⟩]
  | .claim target =>
    ⟨.nextStep, 0, q.nextStep.length, []⟩ :: (if target = Target.nextTurn.value then [⟨.nextTurn, 0, 1, []⟩] else [])
  | .remove messageId =>
    match q.nextStep.findIdx? (hasId messageId) with
    | some index => [⟨.nextStep, index, 1, []⟩]
    | none =>
      match q.nextTurn.findIdx? (hasId messageId) with
      | some index => [⟨.nextTurn, index, 1, []⟩]
      | none => []
  | .clear => [⟨.nextStep, 0, q.nextStep.length, []⟩, ⟨.nextTurn, 0, q.nextTurn.length, []⟩]

namespace InboxState

variable {st : InboxState}

/-! ## An operation is its splices -/

theorem goOn_idle (h : st.frames = []) (time : Rat) : st.goOn time = st := by
  unfold goOn go
  rw [h]
  rfl

@[simp] theorem spliced_frames (sp : InboxSplice) (time : Rat) : (st.spliced sp time).frames = st.frames := by
  unfold spliced
  split <;> rfl

theorem spliced_nextStep (start removedCount : Nat) (inserted : List Message) (time : Rat) :
    (st.spliced ⟨.nextStep, start, removedCount, inserted⟩ time).queues.nextTurn = st.queues.nextTurn := by
  unfold spliced
  split <;> rfl

/-- A splice that begins an operation, and what the operation has left to do. -/
theorem goOn_log (h : st.frames = []) (sp : InboxSplice) (rest : List InboxFrame) (time : Rat) :
    st.log sp rest time = { st.spliced sp time with frames := rest } ∨
      (st.log sp rest time).goOn time = { st.spliced sp time with frames := rest } := by
  unfold InboxState.log spliced
  split
  · left
    rw [h, List.append_nil]
  · right
    unfold goOn go
    rw [h, List.append_nil]
    rfl

theorem log_one (h : st.frames = []) (sp : InboxSplice) (time : Rat) :
    ((st.log sp [] time).goOn time) = st.spliced sp time := by
  have hidle : ({ st.spliced sp time with frames := [] } : InboxState) = st.spliced sp time := by
    have hframes : (st.spliced sp time).frames = st.frames := spliced_frames sp time
    rw [← h, ← hframes]
  rcases goOn_log h sp [] time with hlog | hlog
  · rw [hlog, hidle, goOn_idle (by rw [spliced_frames, h])]
  · rw [hlog, hidle]

theorem perform_one (h : st.frames = []) (sp : InboxSplice) (time : Rat) :
    (((st.log sp [] time).goOn time).goOn time).goOn time = st.spliced sp time := by
  have hidle : (st.spliced sp time).frames = [] := by rw [spliced_frames, h]
  rw [log_one h, goOn_idle hidle, goOn_idle hidle]

/-- An operation with two splices, of which the second is on `next-turn`. -/
theorem perform_two (h : st.frames = []) (sp sp' : InboxSplice) (frame : InboxFrame) (time : Rat)
    (hframe : ∀ st' : InboxState, st'.frames = [] → st'.queues.nextTurn = st.queues.nextTurn →
      ({ st' with frames := [frame] } : InboxState).go time = some (st'.log sp' [] time))
    (hturn : (st.spliced sp time).queues.nextTurn = st.queues.nextTurn) :
    (((st.log sp [frame] time).goOn time).goOn time).goOn time = (st.spliced sp time).spliced sp' time := by
  have hidle : (st.spliced sp time).frames = [] := by rw [spliced_frames, h]
  have hnext : ({ st.spliced sp time with frames := [frame] } : InboxState).goOn time = (st.spliced sp time).log sp' [] time := by
    unfold goOn
    rw [hframe _ hidle hturn]
    rfl
  have hdone : ((st.spliced sp time).spliced sp' time).frames = [] := by rw [spliced_frames, hidle]
  rcases goOn_log h sp [frame] time with hlog | hlog
  · rw [hlog, hnext, log_one hidle, goOn_idle hdone]
  · rw [hlog, hnext, log_one hidle]

/-- An operation logs and applies its splices, one after another. -/
theorem perform_eq (h : st.frames = []) (c : InboxCall) (time : Rat) :
    st.perform c time = (c.splices st.queues).foldl (fun st sp => st.spliced sp time) st := by
  have hnone : ((st.goOn time).goOn time).goOn time = st := by simp only [goOn_idle h]
  unfold perform InboxState.call InboxCall.splices
  cases c with
  | append target message =>
    simp only
    cases Target.named target with
    | none => exact hnone
    | some target => exact perform_one h _ time
  | prepend target message =>
    simp only
    cases Target.named target with
    | none => exact hnone
    | some target => exact perform_one h _ time
  | claim target =>
    simp only
    split
    · refine perform_two h _ ⟨.nextTurn, 0, 1, []⟩ .claimTurn time ?_ (spliced_nextStep ..)
      intro st' hidle _
      simp only [go]
      rw [← hidle]
    · exact perform_one h _ time
  | remove messageId =>
    simp only
    cases st.queues.nextStep.findIdx? (hasId messageId) with
    | some index => exact perform_one h _ time
    | none =>
      simp only
      cases st.queues.nextTurn.findIdx? (hasId messageId) with
      | some index => exact perform_one h _ time
      | none => exact hnone
  | clear =>
    refine perform_two h _ ⟨.nextTurn, 0, st.queues.nextTurn.length, []⟩ .clearTurn time ?_ (spliced_nextStep ..)
    intro st' hidle hturn
    simp only [go, ← hturn]
    rw [← hidle]

end InboxState

/-! ## Splices that change something -/

/-- Every splice of the log changes the queues that the log before it replays to, and takes out as many entries as it says. -/
def Effective (log : List SessionEvent) : Prop :=
  ∀ before e after, log = before ++ e :: after → e.type = .inboxSpliced →
    ∃ (q : Queues PyValue) (sp : InboxSplice), replayFrom {} before = .ok q ∧ e.data = sp.toJson ∧ sp.apply q ≠ q ∧
      sp.start + sp.removedCount ≤ (q.get sp.target).length

theorem sliceIndex_nat {length n : Nat} (h : n ≤ length) : sliceIndex length n = n := by
  unfold sliceIndex
  rw [if_neg (by omega)]
  omega

/-- What a slice of a list is replaced by, and how long the list is then. -/
theorem length_sliceAssign {α : Type} {xs ys : List α} {start removedCount : Nat} (h : start + removedCount ≤ xs.length) :
    (sliceAssign xs start (start + removedCount) ys).length = xs.length - removedCount + ys.length := by
  have hstop : sliceIndex xs.length (start + removedCount) = start + removedCount := by
    rw [← Int.natCast_add]
    exact sliceIndex_nat h
  unfold sliceAssign
  rw [hstop, sliceIndex_nat (by omega)]
  simp only [List.length_append, List.length_take, List.length_drop]
  omega

/-- A splice that takes out as many entries as it says, and not as many as it puts in, changes its queue. -/
theorem InboxSplice.apply_ne {sp : InboxSplice} {q : Queues PyValue} (h : sp.start + sp.removedCount ≤ (q.get sp.target).length)
    (hne : sp.inserted.length ≠ sp.removedCount) : sp.apply q ≠ q := by
  intro heq
  have hget : (sp.apply q).get sp.target =
      sliceAssign (q.get sp.target) sp.start (sp.start + sp.removedCount) (sp.inserted.map Message.toPy) := by
    unfold InboxSplice.apply
    cases sp.target <;> rfl
  rw [heq] at hget
  have hlength := congrArg List.length hget
  rw [length_sliceAssign h, List.length_map] at hlength
  omega

/-- The data of a splice tell its queue, where it is and how many entries it takes out. -/
theorem InboxSplice.toJson_inj {sp sp' : InboxSplice} (h : sp.toJson = sp'.toJson) :
    sp.target = sp'.target ∧ sp.start = sp'.start ∧ sp.removedCount = sp'.removedCount := by
  simp only [InboxSplice.toJson, Json.obj.injEq, List.cons_append, List.nil_append, List.cons.injEq, Prod.mk.injEq, Json.str.injEq,
    Json.int.injEq, Int.natCast_inj, true_and] at h
  obtain ⟨htarget, hstart, -, hremoved⟩ := h
  refine ⟨?_, hstart, ?_⟩
  · have hnamed := congrArg Target.named htarget
    rwa [Target.named_value, Target.named_value, Option.some.injEq] at hnamed
  · by_cases hzero : sp.removedCount = 0 <;> by_cases hzero' : sp'.removedCount = 0
    · rw [hzero, hzero']
    · simp [hzero, hzero'] at hremoved
    · simp [hzero, hzero'] at hremoved
    · simp only [if_neg hzero, if_neg hzero', List.cons.injEq, Prod.mk.injEq, Json.int.injEq, Int.natCast_inj, true_and] at hremoved
      exact hremoved.1

theorem Effective.front {log rest : List SessionEvent} (h : Effective (log ++ rest)) : Effective log := by
  intro before e after heq htype
  exact h before e (after ++ rest) (by rw [heq, List.append_assoc, List.cons_append]) htype

theorem effective_concat {log : List SessionEvent} {e : SessionEvent} {q : Queues PyValue} (hlog : replayFrom {} log = .ok q)
    {sp : InboxSplice} (htype : e.type = .inboxSpliced) (hdata : e.data = sp.toJson)
    (hne : sp.inserted.length ≠ sp.removedCount) :
    Effective (log ++ [e]) ↔ Effective log ∧ sp.start + sp.removedCount ≤ (q.get sp.target).length := by
  constructor
  · intro h
    refine ⟨h.front, ?_⟩
    obtain ⟨q', sp', hreplay, hdata', -, hwithin⟩ := h log e [] rfl htype
    rw [hlog, Except.ok.injEq] at hreplay
    subst hreplay
    obtain ⟨htarget, hstart, hremoved⟩ := InboxSplice.toJson_inj (hdata.symm.trans hdata')
    rwa [htarget, hstart, hremoved]
  · rintro ⟨h, hwithin⟩ before e' after heq htype'
    rcases Bracket.concat_eq_cases heq with ⟨-, rfl, rfl⟩ | ⟨rest, -, hlog'⟩
    · exact ⟨q, sp, hlog, hdata, InboxSplice.apply_ne hwithin hne, hwithin⟩
    · exact h before e' rest hlog' htype'

theorem replayFrom_of_append {q q' : Queues PyValue} {xs ys : List SessionEvent} (h : replayFrom q xs = .ok q') :
    replayFrom q (xs ++ ys) = replayFrom q' ys := by
  induction xs generalizing q with
  | nil =>
    cases h
    rfl
  | cons x xs ih =>
    simp only [List.cons_append, replayFrom] at h ⊢
    split
    · rename_i htype
      rw [if_pos htype] at h
      cases hsplice : replaySplice q x.data with
      | error e =>
        rw [hsplice] at h
        cases h
      | ok q₁ =>
        rw [hsplice] at h
        exact ih h
    · rename_i htype
      rw [if_neg htype] at h
      exact ih h

/-! ## Runs -/

/-- What operations on a new inbox over a session log. -/
def loggedBy (s : Session) (calls : List (InboxCall × Rat)) : List SessionEvent :=
  (InboxState.performs { session := s } calls).session.events.drop s.events.length

/-- After every operation the logged splices replay to the live queues, and so does the session where its log replayed to empty queues
before; and every logged splice changes a queue, and takes out as many entries as it says. -/
structure FollowsInbox (s : Session) (calls : List (InboxCall × Rat)) : Prop where
  replays : ∀ done, done <+: calls → replayFrom {} (loggedBy s done) = .ok (InboxState.performs { session := s } done).queues
  replay : ∀ done, done <+: calls → Pydsh.replay s = .ok {} →
    Pydsh.replay (InboxState.performs { session := s } done).session = .ok (InboxState.performs { session := s } done).queues
  effective : Effective (loggedBy s calls)

namespace InboxState

variable {s : Session} {st : InboxState}

/-- An inbox with no operation in progress, whose splices since `s` replay to its queues. -/
structure Logged (s : Session) (st : InboxState) (log : List SessionEvent) : Prop where
  idle : st.frames = []
  events : st.session.events = s.events ++ log
  replays : replayFrom {} log = .ok st.queues

theorem Logged.spliced {log : List SessionEvent} (h : Logged s st log) {sp : InboxSplice} (hsp : sp.isNoop = false) (time : Rat) :
    ∃ e, Logged s (st.spliced sp time) (log ++ [e]) ∧ e.type = .inboxSpliced ∧ e.data = sp.toJson := by
  let c : AppendCall := { eventType := .inboxSpliced, data := sp.toJson.loads, time }
  have happ : st.session.append c = (.ok (c.event st.session sp.toJson), st.session.commit (c.event st.session sp.toJson)) :=
    append_logOnly st.session rfl rfl rfl rfl
  refine ⟨c.event st.session sp.toJson, ⟨?_, ?_, ?_⟩, rfl, rfl⟩
  · rw [spliced_frames, h.idle]
  · rw [InboxState.spliced, if_neg (by simp [hsp]), happ, Session.commit_events, h.events, List.append_assoc]
  · rw [replayFrom_append, h.replays, InboxState.spliced, if_neg (by simp [hsp])]
    have htype : (c.event st.session sp.toJson).type = .inboxSpliced := rfl
    simp only [Except.bind, replayFrom, htype, AppendCall.event_data, replaySplice_toJson, if_true]

/-- A splice, logged unless it is a no-op, keeps the log effective exactly if it takes out as many entries as it says. -/
theorem Logged.splice {log : List SessionEvent} (h : Logged s st log) (sp : InboxSplice)
    (hne : sp.isNoop = false → sp.inserted.length ≠ sp.removedCount) (time : Rat) :
    ∃ rest, Logged s (st.spliced sp time) (log ++ rest) ∧ (Effective (log ++ rest) ↔
      Effective log ∧ (sp.isNoop = false → sp.start + sp.removedCount ≤ (st.queues.get sp.target).length)) := by
  cases hnoop : sp.isNoop with
  | true =>
    refine ⟨[], ?_, ?_⟩
    · rw [List.append_nil, InboxState.spliced, if_pos hnoop]
      exact h
    · rw [List.append_nil]
      simp
  | false =>
    obtain ⟨e, hlogged, htype, hdata⟩ := h.spliced hnoop time
    refine ⟨[e], hlogged, ?_⟩
    rw [effective_concat h.replays htype hdata (hne hnoop)]
    simp

/-- An operation keeps the log effective exactly if it is no claim of the next turn that finds its queue empty. -/
theorem Logged.perform {log : List SessionEvent} (h : Logged s st log) (c : InboxCall) (time : Rat) :
    ∃ rest, Logged s (st.perform c time) (log ++ rest) ∧ (Effective (log ++ rest) ↔
      Effective log ∧ (c = .claim Target.nextTurn.value → st.queues.nextTurn ≠ [])) := by
  -- where the splices take out what they say
  have hnone : ∃ rest, Logged s st (log ++ rest) ∧ (Effective (log ++ rest) ↔ Effective log) :=
    ⟨[], by rwa [List.append_nil], by rw [List.append_nil]⟩
  have hone : ∀ sp : InboxSplice, (sp.isNoop = false → sp.inserted.length ≠ sp.removedCount) →
      sp.start + sp.removedCount ≤ (st.queues.get sp.target).length →
      ∃ rest, Logged s (st.spliced sp time) (log ++ rest) ∧ (Effective (log ++ rest) ↔ Effective log) := by
    intro sp hne hwithin
    obtain ⟨rest, hlogged, heffective⟩ := h.splice sp hne time
    exact ⟨rest, hlogged, heffective.trans (and_iff_left (fun _ => hwithin))⟩
  have hall : ∀ target : Target, InboxSplice.isNoop ⟨target, 0, (st.queues.get target).length, []⟩ = false →
      ([] : List Message).length ≠ (st.queues.get target).length := by
    intro target hnoop heq
    rw [← heq] at hnoop
    cases hnoop
  have hother : (∀ target, c ≠ .claim target) → ((c = .claim Target.nextTurn.value → st.queues.nextTurn ≠ []) ↔ True) :=
    fun hne => iff_true_intro (fun heq => absurd heq (hne _))
  rw [perform_eq h.idle]
  cases c with
  | append target message =>
    rw [hother (fun _ heq => by cases heq), and_true]
    simp only [InboxCall.splices]
    cases Target.named target with
    | none => exact hnone
    | some target => exact hone ⟨target, (st.queues.get target).length, 0, [message]⟩ (fun _ => by simp) (Nat.le_refl _)
  | prepend target message =>
    rw [hother (fun _ heq => by cases heq), and_true]
    simp only [InboxCall.splices]
    cases Target.named target with
    | none => exact hnone
    | some target => exact hone ⟨target, 0, 0, [message]⟩ (fun _ => by simp) (Nat.zero_le _)
  | remove messageId =>
    rw [hother (fun _ heq => by cases heq), and_true]
    simp only [InboxCall.splices]
    cases hstep : st.queues.nextStep.findIdx? (hasId messageId) with
    | some index =>
      have hlt := (List.findIdx?_eq_some_iff_findIdx_eq.mp hstep).1
      exact hone ⟨.nextStep, index, 1, []⟩ (fun _ => by simp) hlt
    | none =>
      simp only
      cases hturn : st.queues.nextTurn.findIdx? (hasId messageId) with
      | some index =>
        have hlt := (List.findIdx?_eq_some_iff_findIdx_eq.mp hturn).1
        exact hone ⟨.nextTurn, index, 1, []⟩ (fun _ => by simp) hlt
      | none => exact hnone
  | clear =>
    rw [hother (fun _ heq => by cases heq), and_true]
    obtain ⟨rest, hlogged, heffective⟩ := hone ⟨.nextStep, 0, st.queues.nextStep.length, []⟩ (hall .nextStep) (by simp [Queues.get])
    have hturn : (st.spliced ⟨.nextStep, 0, st.queues.nextStep.length, []⟩ time).queues.nextTurn = st.queues.nextTurn :=
      spliced_nextStep 0 st.queues.nextStep.length [] time
    obtain ⟨rest', hlogged', heffective'⟩ := hlogged.splice ⟨.nextTurn, 0, st.queues.nextTurn.length, []⟩ (hall .nextTurn) time
    refine ⟨rest ++ rest', by rwa [← List.append_assoc], ?_⟩
    rw [← List.append_assoc, heffective', heffective, Queues.get, hturn]
    simp
  | claim target =>
    obtain ⟨rest, hlogged, heffective⟩ := hone ⟨.nextStep, 0, st.queues.nextStep.length, []⟩ (hall .nextStep) (by simp [Queues.get])
    simp only [InboxCall.splices]
    by_cases htarget : target = Target.nextTurn.value
    · have hturn : (st.spliced ⟨.nextStep, 0, st.queues.nextStep.length, []⟩ time).queues.nextTurn = st.queues.nextTurn :=
        spliced_nextStep 0 st.queues.nextStep.length [] time
      obtain ⟨rest', hlogged', heffective'⟩ := hlogged.splice ⟨.nextTurn, 0, 1, []⟩ (fun _ => by simp) time
      refine ⟨rest ++ rest', ?_, ?_⟩
      · rw [← List.append_assoc, if_pos htarget]
        exact hlogged'
      · rw [← List.append_assoc, heffective', heffective, Queues.get, hturn]
        simp [htarget, InboxSplice.isNoop, Nat.one_le_iff_ne_zero]
    · refine ⟨rest, ?_, ?_⟩
      · rw [if_neg htarget]
        exact hlogged
      · rw [heffective]
        simp [htarget]

end InboxState

/-- No claim of the next turn finds its queue empty. -/
def ClaimsFindTurns (s : Session) (calls : List (InboxCall × Rat)) : Prop :=
  ∀ before time after, calls = before ++ (.claim Target.nextTurn.value, time) :: after →
    (InboxState.performs { session := s } before).queues.nextTurn ≠ []

theorem performs_logged (s : Session) (calls : List (InboxCall × Rat)) :
    ∃ log, InboxState.Logged s (InboxState.performs { session := s } calls) log ∧ (Effective log ↔ ClaimsFindTurns s calls) := by
  induction calls using List.reverseRecOn with
  | nil =>
    refine ⟨[], ⟨rfl, (List.append_nil _).symm, rfl⟩, ?_⟩
    constructor
    · intro _ before time after heq
      simp at heq
    · intro _ before e after heq
      simp at heq
  | append_singleton calls call ih =>
    obtain ⟨log, hlogged, heffective⟩ := ih
    obtain ⟨rest, hlogged', heffective'⟩ := hlogged.perform call.1 call.2
    have hperforms : InboxState.performs { session := s } (calls ++ [call]) =
        (InboxState.performs { session := s } calls).perform call.1 call.2 := by
      simp only [InboxState.performs, List.foldl_append, List.foldl_cons, List.foldl_nil]
    refine ⟨log ++ rest, by rwa [hperforms], ?_⟩
    rw [heffective', heffective]
    constructor
    · rintro ⟨hbefore, hlast⟩ before time after heq
      rcases Bracket.concat_eq_cases heq with ⟨-, rfl, hcall⟩ | ⟨rest', -, hcalls⟩
      · exact hlast (congrArg Prod.fst hcall).symm
      · exact hbefore before time rest' hcalls
    · intro hall
      refine ⟨fun before time after heq => ?_, fun hclaim => ?_⟩
      · exact hall before time (after ++ [call]) (by rw [heq, List.append_assoc, List.cons_append])
      · exact hall calls call.2 [] (by rw [← hclaim])

theorem loggedBy_eq {s : Session} {calls : List (InboxCall × Rat)} {log : List SessionEvent}
    (h : InboxState.Logged s (InboxState.performs { session := s } calls) log) : loggedBy s calls = log := by
  rw [loggedBy, h.events, List.drop_left]

/-- The operations on a new inbox follow its queues in the log, whatever they are, and each of their splices changes a queue and takes
out as many entries as it says exactly if no claim of the next turn finds its queue empty. -/
theorem splices_effective_iff (s : Session) (calls : List (InboxCall × Rat)) : FollowsInbox s calls ↔ ClaimsFindTurns s calls := by
  obtain ⟨log, hlogged, heffective⟩ := performs_logged s calls
  constructor
  · intro h
    have hlog := h.effective
    rw [loggedBy_eq hlogged] at hlog
    exact heffective.mp hlog
  · intro h
    refine ⟨fun done _ => ?_, fun done _ hempty => ?_, ?_⟩
    · obtain ⟨log', hlogged', -⟩ := performs_logged s done
      rw [loggedBy_eq hlogged']
      exact hlogged'.replays
    · obtain ⟨log', hlogged', -⟩ := performs_logged s done
      rw [replay, hlogged'.events]
      exact (replayFrom_of_append hempty).trans hlogged'.replays
    · rw [loggedBy_eq hlogged]
      exact heffective.mpr h

namespace InboxRuns

/-- Input for the next step, and the claim that opens a turn with it. -/
def claimedAlone : List (InboxCall × Rat) := [(.append "next-step" (say "m1"), 0), (.claim "next-turn", 0)]

end InboxRuns

open InboxRuns in
/-- A claim of the next turn where only input for the next step is pending logs a splice that takes one entry out of an empty queue. -/
theorem claim_logs_nothing_taken : (loggedBy session claimedAlone).length = 3 ∧
    (InboxState.performs { session := session } (claimedAlone.take 1)).queues.nextTurn = [] ∧ ¬FollowsInbox session claimedAlone := by
  have hempty : (InboxState.performs { session := session } (claimedAlone.take 1)).queues.nextTurn = [] := rfl
  refine ⟨by decide +kernel, hempty, fun h => ?_⟩
  obtain ⟨log, hlogged, heffective⟩ := performs_logged session claimedAlone
  have hlog := h.effective
  rw [loggedBy_eq hlogged] at hlog
  exact heffective.mp hlog (claimedAlone.take 1) 0 [] rfl hempty

end Pydsh
