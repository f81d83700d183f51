import Pydsh.Agent.Inbox

/-!
# The drain

`agent/agent.py`, `insert`, `run`, `cancel`, `_ensure_draining` and `_drain`: a task empties the inbox, turn by turn, and input
that arrives while it runs is left to it. Listeners of `agent/status` run inside the task, at its start and after its loop.

`_ensure_draining` asks whether the task is done, not whether its loop still looks at the inbox. So what is inserted after the
loop's last look, or while the activity is aborted, waits without a drain (`lost_wakeup`). If nothing is inserted at such a time, no
wakeup is lost (`no_lost_wakeup`).
-/

namespace Pydsh

/-- Where the drain's task is: there is none, or it is done; it is scheduled and has not begun; it is at the test of its loop, the
status listeners that come before it included; it runs a turn; its loop is over, and the status listeners run. -/
inductive DrainPhase where
  | idle | scheduled | looping | inTurn | closing
  deriving DecidableEq

/-- How a drain's loop ended. A drain that is cancelled has the time of the abort. -/
inductive DrainEnd where
  | finished
  | failed
  | cancelled (time : Nat)
  deriving DecidableEq

/-- A message in the inbox, and when it was inserted. -/
structure Waiting where
  message : Message
  since : Nat

/-- An agent's inbox and its drain. Time is counted in inserts and aborts. -/
structure DrainState where
  inbox : Queues Waiting := {}
  phase : DrainPhase := .idle
  /-- When `_activity` was aborted, while it is. -/
  aborted : Option Nat := none
  /-- How the last drain ended. -/
  ended : Option DrainEnd := none
  now : Nat := 0

/-- What happens: calls, which any code and any listener makes at any time, and the steps of the drain's task. -/
inductive DrainAction where
  /-- `insert`, and `run` up to its await, which inserts on `next-turn`. -/
  | insert (target : Target) (message : Message)
  | cancel
  | start
  /-- The test of the loop, and what follows it up to the next suspension or the status listeners. -/
  | loop
  | turnOver
  /-- Any exception that leaves the task, or a cancellation of the task by asyncio. -/
  | fail
  | done

/-- `claim(NEXT_TURN)`: all of `next-step`, and the head of `next-turn`. -/
def Queues.claim {α : Type} (q : Queues α) : List α × Queues α :=
  (q.nextStep ++ q.nextTurn.take 1, { nextTurn := q.nextTurn.drop 1 })

theorem Queues.claim_splices (q : Queues PyValue) :
    InboxSplice.apply ⟨.nextTurn, 0, 1, []⟩ (InboxSplice.apply ⟨.nextStep, 0, q.nextStep.length, []⟩ q) = q.claim.2 := by
  have hall : ∀ xs : List PyValue, sliceAssign xs ((0 : Nat) : Int) ((0 : Nat) + (xs.length : Int)) [] = [] := by
    intro xs
    have hnonneg : ¬(xs.length : Int) < 0 := by omega
    simp [sliceAssign, sliceIndex, hnonneg]
  have hhead : ∀ xs : List PyValue, sliceAssign xs ((0 : Nat) : Int) ((0 : Nat) + ((1 : Nat) : Int)) [] = xs.drop 1 := by
    intro xs
    cases xs <;> simp [sliceAssign, sliceIndex]
  simp only [InboxSplice.apply, Queues.modify, Queues.claim, List.map_nil, hall, hhead]

theorem Queues.hasPending_iff {α : Type} (q : Queues α) : q.hasPending = true ↔ q.nextTurn ++ q.nextStep ≠ [] := by
  unfold Queues.hasPending
  cases q.nextTurn <;> cases q.nextStep <;> simp

/-- Where something is pending, something is claimed: the loop does not break on an empty claim. -/
theorem Queues.claim_isEmpty {α : Type} {q : Queues α} (h : q.hasPending = true) : q.claim.1.isEmpty = false := by
  rw [Queues.hasPending_iff] at h
  unfold Queues.claim
  cases hturn : q.nextTurn with
  | nil =>
    rw [hturn] at h
    simpa using h
  | cons x xs => simp

namespace DrainState

/-- `_ensure_draining`. -/
def ensureDraining (st : DrainState) : DrainState :=
  match st.phase with
  | .idle => { st with
      phase := .scheduled
      aborted := none }
  | _ => st

/-- `insert`. -/
def insert (st : DrainState) (target : Target) (message : Message) : DrainState :=
  { st with
    inbox := st.inbox.modify target (· ++ [Waiting.mk message st.now])
    now := st.now + 1 }.ensureDraining

/-- `cancel`: there is an activity from the time its drain is scheduled until its loop is over. -/
def cancel (st : DrainState) : DrainState :=
  match st.phase, st.aborted with
  | .idle, _ => st
  | .closing, _ => st
  | _, some _ => st
  | _, none => { st with
      aborted := some st.now
      now := st.now + 1 }

/-- The loop is over: `finally`. -/
def close (st : DrainState) (ended : DrainEnd) : DrainState :=
  { st with
    phase := .closing
    aborted := none
    ended := some ended }

/-- What an action does; `none` where it cannot happen. -/
def step (st : DrainState) : DrainAction → Option DrainState
  | .insert target message => some (st.insert target message)
  | .cancel => some st.cancel
  | .start => if st.phase = .scheduled then some { st with phase := .looping } else none
  | .loop =>
    if st.phase = .looping then
      if st.inbox.hasPending then
        match st.aborted with
        | some time => some (st.close (.cancelled time))
        | none =>
          let (claimed, inbox) := st.inbox.claim
          if claimed.isEmpty then some (st.close .finished)
          else some { st with
            inbox
            phase := .inTurn }
      else some (st.close .finished)
    else none
  | .turnOver => if st.phase = .inTurn then some { st with phase := .looping } else none
  | .fail =>
    match st.phase with
    | .scheduled => some { st with
        phase := .idle
        aborted := none
        ended := some .failed }
    | .looping | .inTurn => some (st.close .failed)
    | _ => none
  | .done => if st.phase = .closing then some { st with phase := .idle } else none

/-! ## The law -/

/-- What waits in the inbox. -/
def waiting (st : DrainState) : List Waiting := st.inbox.nextTurn ++ st.inbox.nextStep

/-- The last drain left the message on purpose: it failed, or it was cancelled after the message had been inserted. -/
def Excused (st : DrainState) (w : Waiting) : Prop :=
  match st.ended with
  | some .failed => True
  | some (.cancelled time) => w.since < time
  | _ => False

/-- While no drain is running, no message waits that the last drain did not leave on purpose. -/
def Delivered (st : DrainState) : Prop := st.phase = .idle → ∀ w ∈ st.waiting, st.Excused w

/-- What is inserted is inserted in time: the activity is not aborted, and the loop is not over, unless the drain failed. -/
def InTime (st : DrainState) : DrainAction → Prop
  | .insert _ _ => st.aborted = none ∧ (st.phase = .closing → st.ended = some .failed)
  | _ => True

instance (st : DrainState) (a : DrainAction) : Decidable (st.InTime a) :=
  match a with
  | .insert _ _ => inferInstanceAs (Decidable (st.aborted = none ∧ (st.phase = .closing → st.ended = some .failed)))
  | .cancel | .start | .loop | .turnOver | .fail | .done => inferInstanceAs (Decidable True)

/-- What every run keeps in which what is inserted is inserted in time. -/
structure Inv (st : DrainState) : Prop where
  past : ∀ w ∈ st.waiting, w.since < st.now
  known : ∀ time, st.aborted = some time ∨ st.ended = some (.cancelled time) → time ≤ st.now
  early : ∀ time, st.aborted = some time → ∀ w ∈ st.waiting, w.since < time
  settled : st.phase = .idle ∨ st.phase = .closing → st.aborted = none ∧ ∀ w ∈ st.waiting, st.Excused w

variable {st st' : DrainState}

theorem Inv.delivered (h : st.Inv) : st.Delivered := fun hidle => (h.settled (Or.inl hidle)).2

theorem mem_waiting_insert (target : Target) (message : Message) {w : Waiting} :
    w ∈ (st.insert target message).waiting ↔ w ∈ st.waiting ∨ w = ⟨message, st.now⟩ := by
  unfold DrainState.insert ensureDraining waiting Queues.modify
  cases target <;> split <;> simp [or_assoc, or_comm]

@[simp] theorem insert_now (target : Target) (message : Message) : (st.insert target message).now = st.now + 1 := by
  unfold DrainState.insert ensureDraining
  split <;> rfl

@[simp] theorem insert_ended (target : Target) (message : Message) : (st.insert target message).ended = st.ended := by
  unfold DrainState.insert ensureDraining
  split <;> rfl

/-- An insert starts a drain where there is none, and changes nothing of one that there is. -/
theorem insert_drain (target : Target) (message : Message) :
    st.phase = .idle ∧ (st.insert target message).phase = .scheduled ∧ (st.insert target message).aborted = none ∨
      st.phase ≠ .idle ∧ (st.insert target message).phase = st.phase ∧ (st.insert target message).aborted = st.aborted := by
  unfold DrainState.insert ensureDraining
  cases hphase : st.phase <;> simp

theorem Inv.insert (h : st.Inv) (target : Target) (message : Message) (hok : st.InTime (.insert target message)) :
    (st.insert target message).Inv := by
  obtain ⟨hlive, hclosing⟩ := hok
  have hlive' : (st.insert target message).aborted = none := by
    rcases st.insert_drain target message with ⟨-, -, haborted⟩ | ⟨-, -, haborted⟩
    · exact haborted
    · rw [haborted, hlive]
  refine ⟨fun w hw => ?_, fun time htime => ?_, fun time htime => ?_, fun hover => ⟨hlive', fun w hw => ?_⟩⟩
  · rw [insert_now]
    rcases (mem_waiting_insert target message).mp hw with hw | rfl
    · exact Nat.lt_succ_of_lt (h.past w hw)
    · exact Nat.lt_succ_self _
  · rw [insert_now]
    rcases htime with htime | htime
    · rw [hlive'] at htime
      cases htime
    · rw [insert_ended] at htime
      exact Nat.le_succ_of_le (h.known time (Or.inr htime))
  · rw [hlive'] at htime
    cases htime
  · rcases st.insert_drain target message with ⟨-, hphase, -⟩ | ⟨hbusy, hphase, -⟩
    · rw [hphase] at hover
      rcases hover with hover | hover <;> cases hover
    · rw [hphase] at hover
      have hfailed := hclosing (hover.resolve_left hbusy)
      simp [Excused, hfailed]

theorem Inv.cancel (h : st.Inv) : st.cancel.Inv := by
  unfold DrainState.cancel
  split
  · exact h
  · exact h
  · exact h
  · rename_i hlive hidle hclosing
    refine ⟨fun w hw => Nat.lt_succ_of_lt (h.past w hw), fun time htime => ?_, fun time htime w hw => ?_, fun hover => ?_⟩
    · rcases htime with htime | htime
      · cases htime
        exact Nat.le_succ _
      · exact Nat.le_succ_of_le (h.known time (Or.inr htime))
    · cases htime
      exact h.past w hw
    · rcases hover with hover | hover
      · exact absurd hover hidle
      · exact absurd hover hclosing

theorem Inv.close (h : st.Inv) (ended : DrainEnd) (hexcused : ∀ w ∈ st.waiting, (st.close ended).Excused w)
    (hknown : ∀ time, ended = .cancelled time → time ≤ st.now) : (st.close ended).Inv := by
  refine ⟨h.past, fun time htime => ?_, nofun, fun _ => ⟨rfl, hexcused⟩⟩
  rcases htime with htime | htime
  · cases htime
  · exact hknown time (Option.some.inj htime)

theorem Inv.loop (h : st.Inv) (hstep : st.step .loop = some st') : st'.Inv := by
  simp only [DrainState.step] at hstep
  split at hstep
  · rename_i hphase
    split at hstep
    · split at hstep
      · rename_i time haborted
        obtain rfl := Option.some.inj hstep
        exact h.close _ (h.early time haborted) (fun _ heq => by cases heq; exact h.known time (Or.inl haborted))
      · rename_i haborted
        have hkept : ∀ w ∈ st.inbox.claim.2.nextTurn ++ st.inbox.claim.2.nextStep, w ∈ st.waiting := by
          intro w hw
          simp only [Queues.claim, List.append_nil] at hw
          exact List.mem_append_left _ (List.mem_of_mem_drop hw)
        rename_i hpending _
        split at hstep
        · rename_i hnothing
          rw [Queues.claim_isEmpty hpending] at hnothing
          cases hnothing
        · obtain rfl := Option.some.inj hstep
          refine ⟨fun w hw => h.past w (hkept w hw), h.known, fun time htime => ?_, fun hover => ?_⟩
          · cases haborted.symm.trans htime
          · rcases hover with hover | hover <;> cases hover
    · rename_i hempty
      obtain rfl := Option.some.inj hstep
      refine h.close _ (fun w hw => absurd (List.ne_nil_of_mem hw) (fun hne => ?_)) nofun
      exact hempty ((Queues.hasPending_iff _).mpr hne)
  · cases hstep

theorem Inv.step (h : st.Inv) {a : DrainAction} (hok : st.InTime a) (hstep : st.step a = some st') : st'.Inv := by
  cases a with
  | insert target message =>
    obtain rfl := Option.some.inj hstep
    exact h.insert target message hok
  | cancel =>
    obtain rfl := Option.some.inj hstep
    exact h.cancel
  | loop => exact h.loop hstep
  | start =>
    simp only [DrainState.step, Option.ite_none_right_eq_some, Option.some.injEq] at hstep
    obtain ⟨hphase, rfl⟩ := hstep
    exact ⟨h.past, h.known, h.early, fun hover => by rcases hover with hover | hover <;> cases hover⟩
  | turnOver =>
    simp only [DrainState.step, Option.ite_none_right_eq_some, Option.some.injEq] at hstep
    obtain ⟨hphase, rfl⟩ := hstep
    exact ⟨h.past, h.known, h.early, fun hover => by rcases hover with hover | hover <;> cases hover⟩
  | fail =>
    simp only [DrainState.step] at hstep
    split at hstep
    · obtain rfl := Option.some.inj hstep
      refine ⟨h.past, fun time htime => ?_, nofun, fun _ => ⟨rfl, fun _ _ => trivial⟩⟩
      rcases htime with htime | htime <;> cases htime
    · obtain rfl := Option.some.inj hstep
      exact h.close _ (fun _ _ => trivial) nofun
    · obtain rfl := Option.some.inj hstep
      exact h.close _ (fun _ _ => trivial) nofun
    · cases hstep
  | done =>
    simp only [DrainState.step, Option.ite_none_right_eq_some, Option.some.injEq] at hstep
    obtain ⟨hphase, rfl⟩ := hstep
    exact ⟨h.past, h.known, h.early, fun _ => h.settled (Or.inr hphase)⟩

/-- A drain at its loop whose activity is aborted leaves what was inserted since. -/
theorem lost_of_looping {time : Nat} (hphase : st.phase = .looping) (haborted : st.aborted = some time) {w : Waiting}
    (hw : w ∈ st.waiting) (hlate : time ≤ w.since) :
    ∃ st', Machine.exec DrainState.step st [.loop, .done] = some st' ∧ ¬st'.Delivered := by
  have hpending : st.inbox.hasPending = true := (Queues.hasPending_iff _).mpr (List.ne_nil_of_mem hw)
  refine ⟨{ st.close (.cancelled time) with phase := .idle }, ?_, fun hdelivered => ?_⟩
  · simp [Machine.exec, DrainState.step, hphase, hpending, haborted, DrainState.close]
  · have hexcused : w.since < time := hdelivered rfl w hw
    omega

/-- What is not inserted in time is lost when the drain goes on to its end. -/
theorem Inv.lost (h : st.Inv) {target : Target} {message : Message} (hlate : ¬st.InTime (.insert target message)) :
    ∃ as st', Machine.exec DrainState.step (st.insert target message) as = some st' ∧ ¬st'.Delivered := by
  have hw : (⟨message, st.now⟩ : Waiting) ∈ (st.insert target message).waiting :=
    (mem_waiting_insert target message).mpr (Or.inr rfl)
  have hbusy : st.phase ≠ .idle := by
    intro hidle
    refine hlate ⟨(h.settled (Or.inl hidle)).1, fun hclosing => ?_⟩
    cases hidle.symm.trans hclosing
  obtain ⟨hphase, haborted⟩ : (st.insert target message).phase = st.phase ∧ (st.insert target message).aborted = st.aborted := by
    rcases st.insert_drain target message with ⟨hidle, -⟩ | ⟨-, hphase, haborted⟩
    · exact absurd hidle hbusy
    · exact ⟨hphase, haborted⟩
  cases hlive : st.aborted with
  | none =>
    -- the loop is over and did not fail: the drain ends as it is
    have hclosing : st.phase = .closing ∧ st.ended ≠ some .failed := by
      by_contra hnot
      exact hlate ⟨hlive, fun hclosing => by_contra (fun hended => hnot ⟨hclosing, hended⟩)⟩
    refine ⟨[.done], { st.insert target message with phase := .idle }, ?_, fun hdelivered => ?_⟩
    · simp [Machine.exec, DrainState.step, hphase, hclosing.1]
    · have hexcused : (st.insert target message).Excused ⟨message, st.now⟩ := hdelivered rfl _ hw
      unfold Excused at hexcused
      rw [insert_ended] at hexcused
      split at hexcused
      · rename_i hended
        exact hclosing.2 hended
      · rename_i time hended
        exact Nat.not_lt_of_le (h.known time (Or.inr hended)) hexcused
      · exact hexcused
  | some time =>
    -- the next test of the loop finds the abort, and the message inserted since
    have hknown := h.known time (Or.inl hlive)
    rw [hlive] at haborted
    cases hat : st.phase with
    | idle => exact absurd hat hbusy
    | closing => cases hlive.symm.trans (h.settled (Or.inr hat)).1
    | looping =>
      obtain ⟨st', hrun, hlost⟩ := lost_of_looping (hphase.trans hat) haborted hw hknown
      exact ⟨_, st', hrun, hlost⟩
    | scheduled =>
      have hlooping : DrainState.phase { st.insert target message with phase := .looping } = .looping := rfl
      obtain ⟨st', hrun, hlost⟩ := lost_of_looping hlooping haborted hw hknown
      refine ⟨[.start, .loop, .done], st', ?_, hlost⟩
      simpa [Machine.exec, DrainState.step, hphase, hat] using hrun
    | inTurn =>
      have hlooping : DrainState.phase { st.insert target message with phase := .looping } = .looping := rfl
      obtain ⟨st', hrun, hlost⟩ := lost_of_looping hlooping haborted hw hknown
      refine ⟨[.turnOver, .loop, .done], st', ?_, hlost⟩
      simpa [Machine.exec, DrainState.step, hphase, hat] using hrun

end DrainState

/-- In every run in which what is inserted is inserted in time, no message waits while no drain is running, unless the last drain
failed or was cancelled after the message had been inserted; and what is then not inserted in time is lost if the drain goes on to
its end. -/
theorem no_lost_wakeup {st : DrainState} (h : Machine.Reach DrainState.step DrainState.InTime {} st) :
    st.Delivered ∧ ∀ target message, ¬st.InTime (.insert target message) →
      ∃ as st', Machine.exec DrainState.step (st.insert target message) as = some st' ∧ ¬st'.Delivered := by
  have hstart : DrainState.Inv {} :=
    ⟨nofun, fun _ htime => htime.elim nofun nofun, nofun, fun _ => ⟨rfl, nofun⟩⟩
  have hinv := h.invariant hstart (fun _ _ _ hinv hok hstep => hinv.step hok hstep)
  exact ⟨hinv.delivered, fun _ _ => hinv.lost⟩

namespace DrainRuns

/-- A user message. -/
def say (id : String) : Message := createUserMessage id [.text "go"]

/-- A turn for one message. -/
def oneTurn : List DrainAction := [.insert .nextTurn (say "m1"), .start, .loop, .turnOver, .loop, .done]

/-- A listener hears that the agent is idle, and inserts. -/
def insertWhenIdle : List DrainAction :=
  [.insert .nextTurn (say "m1"), .start, .loop, .turnOver, .loop, .insert .nextTurn (say "m2"), .done]

/-- A message inserted after a cancel and before its drain is over. -/
def insertAfterCancel : List DrainAction :=
  [.insert .nextTurn (say "m1"), .start, .loop, .cancel, .insert .nextTurn (say "m2"), .turnOver, .loop, .done]

/-- No drain is running, and a message waits that was inserted after the last drain was cancelled, or that it left as it finished. -/
def lost (st : DrainState) : Bool :=
  match st.ended with
  | some .finished => st.phase == .idle && !st.waiting.isEmpty
  | some (.cancelled time) => st.phase == .idle && st.waiting.any (fun w => time ≤ w.since)
  | _ => false

theorem not_delivered_of_lost {st : DrainState} (h : lost st = true) : ¬st.Delivered := by
  intro hdelivered
  unfold lost at h
  split at h
  · rename_i hended
    simp only [Bool.and_eq_true, beq_iff_eq, Bool.not_eq_true', List.isEmpty_eq_false_iff_exists_mem] at h
    obtain ⟨hidle, w, hw⟩ := h
    have hexcused := hdelivered hidle w hw
    simp [DrainState.Excused, hended] at hexcused
  · rename_i time hended
    simp only [Bool.and_eq_true, beq_iff_eq, List.any_eq_true, decide_eq_true_eq] at h
    obtain ⟨hidle, w, hw, hlate⟩ := h
    have hexcused := hdelivered hidle w hw
    simp only [DrainState.Excused, hended] at hexcused
    omega
  · cases h

end DrainRuns

open DrainRuns in
theorem no_lost_wakeup_one_turn :
    ∃ st, Machine.Reach DrainState.step DrainState.InTime {} st ∧ st.phase = .idle ∧ st.ended = some .finished ∧
      st.Delivered := by
  have hrun : (Machine.execIf DrainState.step DrainState.InTime {} oneTurn).map (fun st => (st.phase, st.ended)) =
      some (.idle, some .finished) := by decide +kernel
  obtain ⟨st, hst, heq⟩ := Option.map_eq_some_iff.mp hrun
  obtain ⟨hphase, hended⟩ := Prod.mk.inj heq
  have hreach := Machine.Reach.execIf .start hst
  exact ⟨st, hreach, hphase, hended, (no_lost_wakeup hreach).1⟩

open DrainRuns in
/-- What a status listener inserts when it hears that the agent is idle waits without a drain; and so does what is inserted between a
cancel and the end of the drain it cancels. -/
theorem lost_wakeup :
    (∃ st, Machine.Reach DrainState.step Machine.anyStep {} st ∧ ¬st.Delivered) ∧
    ∃ st, Machine.Reach DrainState.step Machine.anyStep {} st ∧ ¬st.Delivered := by
  constructor
  · have hrun : (Machine.exec DrainState.step {} insertWhenIdle).map lost = some true := by decide +kernel
    obtain ⟨st, hst, hlost⟩ := Option.map_eq_some_iff.mp hrun
    exact ⟨st, Machine.Reach.start.exec hst, not_delivered_of_lost hlost⟩
  · have hrun : (Machine.exec DrainState.step {} insertAfterCancel).map lost = some true := by decide +kernel
    obtain ⟨st, hst, hlost⟩ := Option.map_eq_some_iff.mp hrun
    exact ⟨st, Machine.Reach.start.exec hst, not_delivered_of_lost hlost⟩

end Pydsh
