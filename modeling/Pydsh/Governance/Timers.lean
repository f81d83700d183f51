import Mathlib.Algebra.Order.Ring.Rat
import Mathlib.Tactic.Linarith
import Pydsh.Governance.Schedule
import Pydsh.Lib.Dict
import Pydsh.Lib.Result

/-!
# The timers of the reminders

`governance/schedule.py` over a store of sessions: the service keeps one timer for an id, and arms it anew where it changes a log itself:
on `create`, `delete` and after a delivery. But the store does not tell it what is resumed or removed, and a delivery that was under way
arms after the unmount. `timers_follow_iff` says exactly which runs keep the timers as the logs ask.
A session is an object; its number tells it from others of the same id. What is resumed is a log of the service's own changes. A call
reads the clock as often as the code does; times are in milliseconds, and a timer may be run by the loop at any time.
-/

namespace Pydsh

/-- `MAX_TIMER_SECONDS`. -/
def maxTimerSeconds : Int := 300

/-- What became of a timer of the loop. -/
inductive TimerState where
  | armed | fired | cancelled
  deriving DecidableEq

/-- A timer of the loop: the session it is for, what the clock read when it was armed, and when it is due by that. -/
structure TimerHandle where
  session : Nat
  armedAt : Int
  due : Rat
  state : TimerState := .armed

/-- `handle.cancel`. -/
def TimerHandle.cancel (timer : TimerHandle) : TimerHandle :=
  { timer with state := if timer.state = .armed then .cancelled else timer.state }

/-- A session that the storage gives back: its reminders are what the service wrote. -/
structure StoredReminders where
  run : ScheduleRun
  kept : run.Inv

/-- The service and the store: the sessions, which of them is live under an id, the timers of the loop, which of them stands under an id,
the sessions whose `_on_timer` is to run, and whether the service was unmounted. -/
structure ScheduleRuntime where
  sessions : List ScheduleRun := []
  live : Dict String Nat := .empty
  handles : List TimerHandle := []
  timers : Dict String Nat := .empty
  wakes : List Nat := []
  unmounted : Bool := false

/-- What happens: the store creates, resumes or removes a session; other code appends to one; a reminder is created or deleted; the loop
runs a timer, and then what that made; the service is unmounted. A call that arms reads the clock twice more. -/
inductive TimerAction where
  | «open» (id : String) (header : SessionHeader)
  | resume (stored : StoredReminders)
  | remove (id : String)
  | append (n : Nat) (call : AppendCall)
  | create (n : Nat) (spec : PyDict) (now : Int) (id : ScheduleId) (time : Rat) (read later : Int)
  | delete (n : Nat) (id : String) (now : Int) (time : Rat) (read later : Int)
  | fire (h : Nat)
  | wake (place : Nat) (now : Int) (messageId : String → String) (time : Rat) (read later : Int)
  | unmount

/-- The id of a session. -/
def ScheduleRun.id (run : ScheduleRun) : String := run.session.id

/-- `list`: the reminders that are overdue or active, whatever the clock reads. -/
def ScheduleRun.reminders (run : ScheduleRun) : List ScheduleRecord :=
  match scheduleState run.session 0 with
  | .ok folded => folded.overdue ++ folded.active
  | .error _ => []

/-- `create`: the session after it, and whether it goes on to arm. -/
def ScheduleRun.created (run : ScheduleRun) (spec : PyDict) (now : Int) (id : ScheduleId) (time : Rat) : ScheduleRun × Bool :=
  let result := createSchedule run.session spec now id time
  (run.ends (fun record => [.created record]) result, result.1.isOk)

/-- `delete`: the session after it, and whether it goes on to arm. -/
def ScheduleRun.deleted (run : ScheduleRun) (id : String) (now : Int) (time : Rat) : ScheduleRun × Bool :=
  let result := deleteSchedule run.session id now time
  (run.ends (fun deleted => if deleted then [.deleted id] else []) result, result.1.toOption.getD false)

/-- `_on_timer`: it arms also where the tick raised. -/
def ScheduleRun.woken (clock : FloatClock) (run : ScheduleRun) (now : Int) (messageId : String → String) (time : Rat) :
    ScheduleRun × Bool :=
  (run.ends (fun delivered => delivered.map (fun d => .delivered d now)) (tick clock run.session now messageId time), true)

/-- How long a timer waits, in milliseconds; `none` where there is no reminder. -/
def timerDelay (folded : Schedules) (later : Int) : Option Rat :=
  match folded.overdue, folded.active with
  | _ :: _, _ => some 0
  | [], record :: _ => record.scheduledAt.instant?.map (fun at_ => if at_ ≤ (later : Rat) then 0 else at_ - (later : Rat))
  | [], [] => none

/-- The timer that `call_later` makes; it waits so long at most. -/
def newTimer (n : Nat) (later : Int) (delay : Rat) : TimerHandle :=
  { session := n
    armedAt := later
    due := later + if delay ≤ maxTimerSeconds * 1000 then delay else maxTimerSeconds * 1000 }

namespace ScheduleRuntime

/-- A session as it is now. -/
def put (s : ScheduleRuntime) (n : Nat) (run : ScheduleRun) : ScheduleRuntime := { s with sessions := s.sessions.set n run }

/-- `_disarm`. -/
def disarm (s : ScheduleRuntime) (id : String) : ScheduleRuntime :=
  match s.timers.get? id with
  | none => s
  | some h => { s with handles := s.handles.modify h TimerHandle.cancel, timers := s.timers.pop id }

/-- A timer of a session is armed under its id. -/
def arms (s : ScheduleRuntime) (id : String) (timer : TimerHandle) : ScheduleRuntime :=
  { s with handles := s.handles ++ [timer], timers := s.timers.set id s.handles.length }

/-- `arm`. -/
def arm (s : ScheduleRuntime) (n : Nat) (run : ScheduleRun) (read later : Int) : ScheduleRuntime :=
  match scheduleState run.session read with
  | .error _ => s.disarm run.id
  | .ok folded =>
    match timerDelay folded later with
    | none => s.disarm run.id
    | some delay => (s.disarm run.id).arms run.id (newTimer n later delay)

/-- After a call on a session. -/
def settle (s : ScheduleRuntime) (n : Nat) (after : ScheduleRun × Bool) (read later : Int) : ScheduleRuntime :=
  if after.2 then (s.put n after.1).arm n after.1 read later else s.put n after.1

/-- `_disarm_all`, at the unmount. -/
def disarmAll (s : ScheduleRuntime) : ScheduleRuntime :=
  { s with
    handles := s.handles.mapIdx (fun h timer => if h ∈ s.timers.entries.map (·.2) then timer.cancel else timer)
    timers := .empty
    unmounted := true }

/-- What an action does; `none` where it cannot happen. -/
def step (clock : FloatClock) (s : ScheduleRuntime) : TimerAction → Option ScheduleRuntime
  | .open id header =>
    match s.live.get? id with
    | some _ => some s
    | none => some { s with sessions := s.sessions ++ [.start id header], live := s.live.set id s.sessions.length }
  | .resume stored =>
    match s.live.get? stored.run.id with
    | some _ => some s
    | none => some { s with sessions := s.sessions ++ [stored.run], live := s.live.set stored.run.id s.sessions.length }
  | .remove id => some { s with live := s.live.pop id }
  | .append n call => (s.sessions[n]?).bind fun run => (run.step clock (.append call)).map (s.put n)
  | .create n spec now id time read later => (s.sessions[n]?).map fun run => s.settle n (run.created spec now id time) read later
  | .delete n id now time read later => (s.sessions[n]?).map fun run => s.settle n (run.deleted id now time) read later
  | .fire h =>
    match s.handles[h]? with
    | some timer =>
      if timer.state = .armed then
        some { s with handles := s.handles.modify h ({ · with state := .fired }), wakes := s.wakes ++ [timer.session] }
      else none
    | none => none
  | .wake place now messageId time read later =>
    (s.wakes[place]?).bind fun n => (s.sessions[n]?).map fun run =>
      { s with wakes := s.wakes.eraseIdx place }.settle n (run.woken clock now messageId time) read later
  | .unmount => some s.disarmAll

/-- A timer of the loop that is armed. -/
structure Armed (s : ScheduleRuntime) (h : Nat) (timer : TimerHandle) : Prop where
  is : s.handles[h]? = some timer
  armed : timer.state = .armed

end ScheduleRuntime

/-- A timer is due no later than a reminder, or at once, and not later than the longest timer. -/
def TimerHandle.Serves (timer : TimerHandle) (record : ScheduleRecord) : Prop :=
  timer.due ≤ timer.armedAt + maxTimerSeconds * 1000 ∧
    ∀ at_, record.scheduledAt.instant? = some at_ → timer.due ≤ at_ ∨ timer.due ≤ timer.armedAt

namespace ScheduleRuntime

/-- The timers are as the logs ask: while the service is mounted a timer serves each reminder of a live session, or a timer of the session
fired and what that made is to run; of one id at most one timer is armed; the session of an armed timer has a reminder, and is the live
one of its id if there is one; and where the service was unmounted no timer is armed. -/
structure Follows (s : ScheduleRuntime) : Prop where
  armed : s.unmounted = false → ∀ id n run, s.live.get? id = some n → s.sessions[n]? = some run → ∀ record ∈ run.reminders,
    n ∈ s.wakes ∨ ∃ h timer, s.Armed h timer ∧ timer.session = n ∧ timer.Serves record
  one : ∀ h timer run h' timer' run', s.Armed h timer → s.sessions[timer.session]? = some run → s.Armed h' timer' →
    s.sessions[timer'.session]? = some run' → run.id = run'.id → h = h'
  none : ∀ h timer, s.Armed h timer → ∃ run, s.sessions[timer.session]? = some run ∧ run.reminders ≠ [] ∧
    ∀ n, s.live.get? run.id = some n → n = timer.session
  gone : s.unmounted = true → ∀ h timer, ¬ s.Armed h timer

/-- No timer is armed for a session of an id. -/
def Unarmed (s : ScheduleRuntime) (id : String) : Prop :=
  ∀ timer ∈ s.handles, timer.state = .armed → ∀ run ∈ s.sessions[timer.session]?, run.id ≠ id

/-- A call that arms does so for a session with reminders only while the service is mounted, and if the session is the live one of its id
or that has none; and for one without any only if the live one of its id needs no timer, or what its own timer made is to run. -/
def MayArm (s : ScheduleRuntime) (n : Nat) (after : ScheduleRun × Bool) : Prop :=
  after.2 = true →
    (after.1.reminders ≠ [] → s.unmounted = false ∧ ∀ n' ∈ s.live.get? after.1.id, n' = n) ∧
    (s.unmounted = false → ∀ n' ∈ s.live.get? after.1.id, n' ≠ n → ∀ run' ∈ s.sessions[n']?, run'.reminders ≠ [] → n' ∈ s.wakes)

/-- What comes to life has no reminder while the service is mounted, and no timer stands for its id; and a call may arm. -/
def Tended (clock : FloatClock) (s : ScheduleRuntime) : TimerAction → Prop
  | .open id _ => s.live.get? id = none → s.Unarmed id
  | .resume stored => s.live.get? stored.run.id = none → (s.unmounted = false → stored.run.reminders = []) ∧ s.Unarmed stored.run.id
  | .create n spec now id time _ _ => ∀ run ∈ s.sessions[n]?, s.MayArm n (run.created spec now id time)
  | .delete n id now time _ _ => ∀ run ∈ s.sessions[n]?, s.MayArm n (run.deleted id now time)
  | .wake place now messageId time _ _ => ∀ n ∈ s.wakes[place]?, ∀ run ∈ s.sessions[n]?,
    { s with wakes := s.wakes.eraseIdx place }.MayArm n (run.woken clock now messageId time)
  | _ => True

instance (s : ScheduleRuntime) (id : String) : Decidable (s.Unarmed id) :=
  inferInstanceAs (Decidable (∀ timer ∈ s.handles, _ → ∀ run ∈ s.sessions[timer.session]?, _))

instance (s : ScheduleRuntime) (n : Nat) (after : ScheduleRun × Bool) : Decidable (s.MayArm n after) :=
  inferInstanceAs (Decidable (_ → (_ → _ ∧ ∀ n' ∈ s.live.get? after.1.id, _) ∧
    (_ → ∀ n' ∈ s.live.get? after.1.id, _ → ∀ run' ∈ s.sessions[n']?, _ → _)))

instance (clock : FloatClock) (s : ScheduleRuntime) : ∀ a, Decidable (s.Tended clock a)
  | .open _ _ | .resume _ => inferInstanceAs (Decidable (_ → _))
  | .create n _ _ _ _ _ _ | .delete n _ _ _ _ _ => inferInstanceAs (Decidable (∀ run ∈ s.sessions[n]?, _))
  | .wake place _ _ _ _ _ => inferInstanceAs (Decidable (∀ n ∈ s.wakes[place]?, ∀ run ∈ s.sessions[n]?, _))
  | .remove _ | .append _ _ | .fire _ | .unmount => inferInstanceAs (Decidable True)

end ScheduleRuntime

/-! ## A session -/

variable {clock : FloatClock} {run run' : ScheduleRun}

theorem mem_reminders {active : Dict String ScheduleRecord} (h : Kept run.session run.history active) {record : ScheduleRecord} :
    record ∈ run.reminders ↔ active.get? record.id = some record := by
  obtain ⟨folded, hstate, hof⟩ := h.state 0
  rw [ScheduleRun.reminders, hstate]
  simp only [List.mem_append, hof.overdue, hof.active]
  constructor
  · rintro (⟨hget, -⟩ | ⟨hget, -⟩) <;> exact hget
  · intro hget
    obtain ⟨-, i, hi⟩ := h.keyed record.id record hget
    by_cases hdue : i ≤ 0
    · exact Or.inl ⟨hget, i, hi, hdue⟩
    · exact Or.inr ⟨hget, i, hi, Int.not_le.mp hdue⟩

theorem reminders_of_changes (h : scheduleChanges run'.session = scheduleChanges run.session) : run'.reminders = run.reminders := by
  rw [ScheduleRun.reminders, ScheduleRun.reminders, scheduleState, scheduleState, h]

theorem append_id (session : Session) (call : AppendCall) : (session.append call).2.id = session.id := by
  rcases append_log session call with heq | ⟨-, -, -, -, hid, -⟩
  · rw [heq]
  · exact hid

theorem createSchedule_id (session : Session) (spec : PyDict) (now : Int) (id : ScheduleId) (time : Rat) :
    (createSchedule session spec now id time).2.id = session.id := by
  unfold createSchedule
  split
  · rfl
  · rename_i record _
    have hid := append_id session (scheduleCall (createChange record) time)
    split <;> rename_i happend <;> rw [happend] at hid <;> exact hid

theorem deleteSchedule_id (session : Session) (id : String) (now : Int) (time : Rat) :
    (deleteSchedule session id now time).2.id = session.id := by
  unfold deleteSchedule
  split
  · rfl
  · split
    · have hid := append_id session (scheduleCall (deleteChange id) time)
      split <;> rename_i happend <;> rw [happend] at hid <;> exact hid
    · rfl

theorem deliverAll_id (stamp : Int) (messageId : String → String) (time : Rat) (records : List ScheduleRecord) (session : Session) :
    (deliverAll clock stamp messageId time records session).2.id = session.id := by
  induction records generalizing session with
  | nil => rfl
  | cons record rest ih =>
    unfold deliverAll
    split
    · exact ih session
    · have hid := append_id session (userCall (deliveryOf clock stamp (messageId record.id) record).message time)
      split <;> rename_i s₁ happend <;> rw [happend] at hid
      · exact hid
      · have hid' := append_id s₁ (scheduleCall (firedChange record.id stamp (nextAt record.rule stamp)) time)
        split <;> rename_i s₂ happend' <;> rw [happend'] at hid'
        · exact hid'.trans hid
        · have hrest := ih s₂
          split <;> rename_i hdelivered <;> rw [hdelivered] at hrest <;> exact hrest.trans (hid'.trans hid)

theorem tick_id (session : Session) (stamp : Int) (messageId : String → String) (time : Rat) :
    (tick clock session stamp messageId time).2.id = session.id := by
  unfold tick
  split
  · rfl
  · exact deliverAll_id stamp messageId time _ session

theorem ends_session {α : Type} (did : α → List Done) (result : Except ScheduleError α × Session) :
    (run.ends did result).session = result.2 := by
  obtain ⟨answer, session⟩ := result
  cases answer <;> rfl

/-- What a call on a session leaves: a session of the service, of the same id, with the same reminders where the call does not arm. -/
structure Leaves (run : ScheduleRun) (after : ScheduleRun × Bool) : Prop where
  inv : after.1.Inv
  id : after.1.id = run.id
  same : after.2 = false → after.1.reminders = run.reminders

theorem leaves_created (clock : FloatClock) (h : run.Inv) (spec : PyDict) (now : Int) (id : ScheduleId) (time : Rat) :
    Leaves run (run.created spec now id time) := by
  have hstep : run.step clock (.create spec now id time) = some (run.created spec now id time).1 := rfl
  refine ⟨h.step hstep, ?_, ?_⟩
  · rw [ScheduleRun.id, ScheduleRun.created, ends_session]
    exact createSchedule_id ..
  · intro hnot
    obtain ⟨active, hkept⟩ := h
    rcases hkept.create spec now id time with ⟨e, hcall⟩ | ⟨record, session, active', hcall, -⟩
    · exact reminders_of_changes (by rw [ScheduleRun.created, hcall]; rfl)
    · rw [ScheduleRun.created, hcall] at hnot
      cases hnot

theorem leaves_deleted (clock : FloatClock) (h : run.Inv) (id : String) (now : Int) (time : Rat) :
    Leaves run (run.deleted id now time) := by
  have hstep : run.step clock (.delete id now time) = some (run.deleted id now time).1 := rfl
  refine ⟨h.step hstep, ?_, ?_⟩
  · rw [ScheduleRun.id, ScheduleRun.deleted, ends_session]
    exact deleteSchedule_id ..
  · intro hnot
    obtain ⟨active, hkept⟩ := h
    rcases hkept.delete id now time with hcall | ⟨session, active', hcall, -⟩
    · exact reminders_of_changes (by rw [ScheduleRun.deleted, hcall]; rfl)
    · rw [ScheduleRun.deleted, hcall] at hnot
      cases hnot

theorem leaves_woken (clock : FloatClock) (h : run.Inv) (now : Int) (messageId : String → String) (time : Rat) :
    Leaves run (run.woken clock now messageId time) := by
  have hstep : run.step clock (.tick now messageId time) = some (run.woken clock now messageId time).1 := rfl
  refine ⟨h.step hstep, ?_, nofun⟩
  rw [ScheduleRun.id, ScheduleRun.woken, ends_session]
  exact tick_id ..

theorem leaves_appended (h : run.Inv) {call : AppendCall} (happend : run.step clock (.append call) = some run') :
    Leaves run (run', false) := by
  have hinv := h.step happend
  simp only [ScheduleRun.step] at happend
  split at happend
  · cases happend
  · rename_i hother
    cases happend
    obtain ⟨active, hkept⟩ := h
    have hfolds := (ScheduleRun.kept_append hkept hother).written.trans hkept.written.symm
    exact ⟨hinv, append_id _ _, fun _ => reminders_of_changes hfolds⟩

/-! ## A timer -/

theorem sooner_trans (x y z : Rat × ScheduleRecord) (h : sooner x y = true) (h' : sooner y z = true) : sooner x z = true := by
  simp only [sooner, Bool.or_eq_true, Bool.and_eq_true, decide_eq_true_eq] at h h' ⊢
  rcases h with h | ⟨h, hid⟩
  · rcases h' with h' | ⟨h', -⟩
    · exact Or.inl (lt_trans h h')
    · exact Or.inl (h' ▸ h)
  · rcases h' with h' | ⟨h', hid'⟩
    · exact Or.inl (h ▸ h')
    · exact Or.inr ⟨h.trans h', String.le_trans hid hid'⟩

theorem sooner_total (x y : Rat × ScheduleRecord) : (sooner x y || sooner y x) = true := by
  simp only [sooner, Bool.or_eq_true, Bool.and_eq_true, decide_eq_true_eq]
  rcases lt_trichotomy x.1 y.1 with h | h | h
  · exact Or.inl (Or.inl h)
  · rcases String.le_total x.2.id y.2.id with hid | hid
    · exact Or.inl (Or.inr ⟨h, hid⟩)
    · exact Or.inr (Or.inr ⟨h.symm, hid⟩)
  · exact Or.inr (Or.inl h)

theorem le_of_sooner {x y : Rat × ScheduleRecord} (h : sooner x y = true) : x.1 ≤ y.1 := by
  simp only [sooner, Bool.or_eq_true, Bool.and_eq_true, decide_eq_true_eq] at h
  rcases h with h | ⟨h, -⟩
  · exact le_of_lt h
  · exact le_of_eq h

theorem foldSchedules_first {changes : List Json} {now : Int} {folded : Schedules} (h : foldSchedules changes now = .ok folded)
    {first : ScheduleRecord} {rest : List ScheduleRecord} (hactive : folded.active = first :: rest) {record : ScheduleRecord}
    (hrecord : record ∈ folded.active) : ∃ soonest time, first.scheduledAt.instant? = some soonest ∧
      record.scheduledAt.instant? = some time ∧ soonest ≤ time := by
  obtain ⟨active, -, h⟩ := Except.bind_eq_ok_iff.mp h
  obtain ⟨records, hrecords, h⟩ := Except.bind_eq_ok_iff.mp h
  cases h
  -- each timed record has its point in time
  have htimed : ∀ x ∈ records.mergeSort sooner, x.2.scheduledAt.instant? = some x.1 := by
    intro x hx
    obtain ⟨entry, -, hentry⟩ := Except.mem_of_mapM_eq_ok hrecords ((List.mergeSort_perm records sooner).mem_iff.mp hx)
    unfold timed at hentry
    split at hentry
    · rename_i time htime
      cases hentry
      exact htime
    · cases hentry
  have hsorted := (List.pairwise_mergeSort sooner_trans sooner_total records).filter (fun x => decide ((now : Rat) < x.1))
  obtain ⟨later, hlater, rfl⟩ := List.mem_map.mp hrecord
  simp only [List.map_eq_cons_iff] at hactive
  obtain ⟨soonest, others, hfilter, rfl, -⟩ := hactive
  have hmem : soonest ∈ (records.mergeSort sooner).filter (fun x => decide ((now : Rat) < x.1)) := by
    rw [hfilter]
    exact List.mem_cons_self
  refine ⟨soonest.1, later.1, htimed _ (List.mem_of_mem_filter hmem), htimed _ (List.mem_of_mem_filter hlater), ?_⟩
  rw [hfilter] at hsorted hlater
  rcases List.mem_cons.mp hlater with rfl | hother
  · exact le_refl _
  · exact le_of_sooner ((List.pairwise_cons.mp hsorted).1 later hother)
/-- A timer that waits no longer than to the instant of a reminder, or not at all, serves it. -/
theorem newTimer_serves {n : Nat} {later : Int} {delay : Rat} {record : ScheduleRecord}
    (hdelay : ∀ at_, record.scheduledAt.instant? = some at_ → later + delay ≤ at_ ∨ delay ≤ 0) :
    (newTimer n later delay).Serves record := by
  have hle : (newTimer n later delay).due ≤ later + delay ∧ (newTimer n later delay).due ≤ later + maxTimerSeconds * 1000 := by
    unfold newTimer
    simp only
    split
    · exact ⟨le_refl _, by linarith⟩
    · exact ⟨by linarith, le_refl _⟩
  refine ⟨hle.2, ?_⟩
  intro at_ hat
  rcases hdelay at_ hat with h | h
  · exact Or.inl (hle.1.trans h)
  · refine Or.inr (hle.1.trans ?_)
    have harmed : (newTimer n later delay).armedAt = later := rfl
    rw [harmed]
    linarith

/-- The timer that `arm` makes serves each reminder; it makes none where there is no reminder. -/
theorem timerDelay_serves (h : run.Inv) (n : Nat) (read later : Int) : ∃ folded, scheduleState run.session read = .ok folded ∧
    (run.reminders = [] ∧ timerDelay folded later = none ∨
      run.reminders ≠ [] ∧ ∃ delay, timerDelay folded later = some delay ∧
        ∀ record ∈ run.reminders, (newTimer n later delay).Serves record) := by
  obtain ⟨active, hkept⟩ := h
  obtain ⟨folded, hstate, hof⟩ := hkept.state read
  have hreminders : ∀ record, record ∈ run.reminders ↔ record ∈ folded.overdue ∨ record ∈ folded.active := by
    intro record
    rw [mem_reminders hkept, hof.overdue, hof.active]
    constructor
    · intro hget
      obtain ⟨-, i, hi⟩ := hkept.keyed record.id record hget
      by_cases hdue : i ≤ read
      · exact Or.inl ⟨hget, i, hi, hdue⟩
      · exact Or.inr ⟨hget, i, hi, Int.not_le.mp hdue⟩
    · rintro (⟨hget, -⟩ | ⟨hget, -⟩) <;> exact hget
  refine ⟨folded, hstate, ?_⟩
  cases hoverdue : folded.overdue with
  | cons first rest =>
    refine Or.inr ⟨?_, 0, by simp [timerDelay, hoverdue], ?_⟩
    · exact List.ne_nil_of_mem ((hreminders first).mpr (Or.inl (by rw [hoverdue]; exact List.mem_cons_self)))
    · intro record _
      exact newTimer_serves (fun _ _ => Or.inr (le_refl _))
  | nil =>
    cases hactive : folded.active with
    | nil =>
      refine Or.inl ⟨?_, by simp [timerDelay, hoverdue, hactive]⟩
      rw [List.eq_nil_iff_forall_not_mem]
      intro record hmem
      simpa [hoverdue, hactive] using (hreminders record).mp hmem
    | cons first rest =>
      have hfirst : first ∈ folded.active := by rw [hactive]; exact List.mem_cons_self
      obtain ⟨soonest, -, hsoonest, -, -⟩ := foldSchedules_first hstate hactive hfirst
      refine Or.inr ⟨List.ne_nil_of_mem ((hreminders first).mpr (Or.inr hfirst)),
        if soonest ≤ (later : Rat) then 0 else soonest - (later : Rat), by simp [timerDelay, hoverdue, hactive, hsoonest], ?_⟩
      intro record hrecord
      have hlater : record ∈ folded.active := by simpa [hoverdue] using (hreminders record).mp hrecord
      obtain ⟨soonest', time, hsoonest', htime, hle⟩ := foldSchedules_first hstate hactive hlater
      obtain rfl : soonest = soonest' := Option.some.inj (hsoonest.symm.trans hsoonest')
      refine newTimer_serves ?_
      intro at_ hat
      obtain rfl : time = at_ := Option.some.inj (htime.symm.trans hat)
      split
      · exact Or.inr (le_refl _)
      · exact Or.inl (by linarith)

/-! ## The table of the timers -/

namespace ScheduleRuntime

variable {s s' : ScheduleRuntime} {n : Nat}

/-- The sessions are the service's, those that are live stand under their ids, and the timers that are armed under the ids of their
sessions. -/
structure Sound (s : ScheduleRuntime) : Prop where
  inv : ∀ (n : Nat) run, s.sessions[n]? = some run → run.Inv
  live : ∀ id n, s.live.get? id = some n → ∃ run, s.sessions[n]? = some run ∧ run.id = id
  wakes : ∀ n ∈ s.wakes, n < s.sessions.length
  handles : ∀ timer ∈ s.handles, timer.session < s.sessions.length
  table : ∀ h timer run, s.Armed h timer → s.sessions[timer.session]? = some run → s.timers.get? run.id = some h
  named : ∀ id h, s.timers.get? id = some h →
    ∃ timer run, s.handles[h]? = some timer ∧ s.sessions[timer.session]? = some run ∧ run.id = id

theorem not_armed_cancel (timer : TimerHandle) : timer.cancel.state ≠ .armed := by
  unfold TimerHandle.cancel
  simp only
  split
  · nofun
  · rename_i hnot
    exact hnot

/-- A timer of a session of another id. -/
def Other (s : ScheduleRuntime) (id : String) (timer : TimerHandle) : Prop :=
  ∀ run, s.sessions[timer.session]? = some run → run.id ≠ id

/-- `_disarm` of an id: the timers of other ids are left. -/
theorem armed_disarm (hs : s.Sound) (id : String) {h : Nat} {timer : TimerHandle} :
    (s.disarm id).Armed h timer ↔ s.Armed h timer ∧ s.Other id timer := by
  unfold disarm
  split
  · rename_i hnone
    refine ⟨fun harmed => ⟨harmed, ?_⟩, fun harmed => harmed.1⟩
    rintro run hrun rfl
    exact absurd ((hs.table h timer run harmed hrun).symm.trans hnone) (by simp)
  · rename_i h₀ hget
    constructor
    · rintro ⟨his, hstate⟩
      simp only [List.getElem?_modify] at his
      obtain ⟨old, hold, rfl⟩ := Option.map_eq_some_iff.mp his
      by_cases heq : h₀ = h
      · rw [if_pos heq] at hstate
        exact absurd hstate (not_armed_cancel old)
      · rw [if_neg heq] at hstate ⊢
        refine ⟨⟨hold, hstate⟩, ?_⟩
        rintro run hrun rfl
        exact heq (Option.some.inj (hget.symm.trans (hs.table h old run ⟨hold, hstate⟩ hrun)))
    · rintro ⟨⟨his, hstate⟩, hother⟩
      have hne : h₀ ≠ h := by
        rintro rfl
        obtain ⟨timer', run, htimer', hrun, hid⟩ := hs.named id h₀ hget
        cases htimer'.symm.trans his
        exact hother run hrun hid
      refine ⟨?_, hstate⟩
      simp [hne, his]

theorem Sound.disarm (hs : s.Sound) (id : String) : (s.disarm id).Sound ∧ (s.disarm id).timers.get? id = none := by
  unfold ScheduleRuntime.disarm
  split
  · rename_i hnone
    exact ⟨hs, hnone⟩
  · rename_i h₀ hget
    have hcancel : ∀ (h : Nat) (timer : TimerHandle), (s.handles.modify h₀ TimerHandle.cancel)[h]? = some timer →
        ∃ old : TimerHandle, s.handles[h]? = some old ∧ old.session = timer.session := by
      intro h timer hh
      rw [List.getElem?_modify] at hh
      obtain ⟨old, hold, rfl⟩ := Option.map_eq_some_iff.mp hh
      refine ⟨old, hold, ?_⟩
      split <;> rfl
    refine ⟨⟨hs.inv, hs.live, hs.wakes, ?_, ?_, ?_⟩, Dict.get?_pop_self ..⟩
    · intro timer hmem
      obtain ⟨h, hh⟩ := List.mem_iff_getElem?.mp hmem
      obtain ⟨old, hold, hsession⟩ := hcancel h timer hh
      rw [← hsession]
      exact hs.handles old (List.mem_of_getElem? hold)
    · intro h timer run harmed hrun
      have hdisarmed : (s.disarm id).Armed h timer := by
        unfold ScheduleRuntime.disarm
        rw [hget]
        exact harmed
      obtain ⟨hbefore, hother⟩ := (armed_disarm hs id).mp hdisarmed
      exact (Dict.get?_pop_of_ne _ (hother run hrun)).trans (hs.table h timer run hbefore hrun)
    · intro id' h hh
      by_cases hid : id' = id
      · rw [hid] at hh
        cases (Dict.get?_pop_self s.timers id).symm.trans hh
      · obtain ⟨timer, run, htimer, hrun, hrid⟩ := hs.named id' h ((Dict.get?_pop_of_ne _ hid).symm.trans hh)
        refine ⟨if h₀ = h then timer.cancel else timer, run, ?_, ?_, hrid⟩
        · simp only [List.getElem?_modify, htimer]
          split <;> rfl
        · split <;> exact hrun

theorem getElem?_concat {α : Type} (xs : List α) (x : α) (i : Nat) (y : α) :
    (xs ++ [x])[i]? = some y ↔ xs[i]? = some y ∨ i = xs.length ∧ y = x := by
  rw [List.getElem?_append]
  split
  · rename_i hlt
    refine ⟨Or.inl, ?_⟩
    rintro (h | ⟨rfl, -⟩)
    · exact h
    · exact absurd hlt (Nat.lt_irrefl _)
  · rename_i hge
    constructor
    · intro h
      obtain ⟨hi, h⟩ := List.getElem?_eq_some_iff.mp h
      have hi' : i = xs.length := by
        simp only [List.length_singleton] at hi
        omega
      subst hi'
      simp only [Nat.sub_self, List.getElem_cons_zero] at h
      exact Or.inr ⟨rfl, h.symm⟩
    · rintro (h | ⟨rfl, rfl⟩)
      · exact absurd (List.getElem?_eq_some_iff.mp h).1 hge
      · simp

/-- A timer is armed for a session under whose id none stands. -/
theorem Sound.arms (hs : s.Sound) {run : ScheduleRun} {timer : TimerHandle} (hrun : s.sessions[timer.session]? = some run)
    (hnone : s.timers.get? run.id = none) : (s.arms run.id timer).Sound := by
  have hlt : timer.session < s.sessions.length := (List.getElem?_eq_some_iff.mp hrun).1
  have hset : ∀ id, (s.arms run.id timer).timers.get? id = if id = run.id then some s.handles.length else s.timers.get? id :=
    fun id => Dict.get?_set ..
  refine ⟨hs.inv, hs.live, hs.wakes, ?_, ?_, ?_⟩
  · intro timer' hmem
    rcases List.mem_append.mp hmem with hmem | hmem
    · exact hs.handles timer' hmem
    · rw [List.mem_singleton.mp hmem]
      exact hlt
  · intro h timer' run' harmed hrun'
    rw [hset]
    rcases (getElem?_concat ..).mp harmed.is with hold | ⟨rfl, rfl⟩
    · have hget := hs.table h timer' run' ⟨hold, harmed.armed⟩ hrun'
      rw [if_neg, hget]
      intro hid
      rw [hid, hnone] at hget
      cases hget
    · rw [Option.some.inj (hrun'.symm.trans hrun), if_pos rfl]
  · intro id h hh
    rw [hset] at hh
    split at hh
    · rename_i hid
      cases hh
      exact ⟨timer, run, (getElem?_concat ..).mpr (Or.inr ⟨rfl, rfl⟩), hrun, hid.symm⟩
    · obtain ⟨timer', run', htimer', hrun', hid'⟩ := hs.named id h hh
      exact ⟨timer', run', (getElem?_concat ..).mpr (Or.inl htimer'), hrun', hid'⟩

theorem armed_arms {id : String} {timer : TimerHandle} (hstate : timer.state = .armed) {h : Nat} {timer' : TimerHandle} :
    (s.arms id timer).Armed h timer' ↔ s.Armed h timer' ∨ h = s.handles.length ∧ timer' = timer := by
  constructor
  · rintro ⟨his, harmed⟩
    rcases (getElem?_concat ..).mp his with hold | hnew
    · exact Or.inl ⟨hold, harmed⟩
    · exact Or.inr hnew
  · rintro (harmed | ⟨rfl, rfl⟩)
    · exact ⟨(getElem?_concat ..).mpr (Or.inl harmed.is), harmed.armed⟩
    · exact ⟨(getElem?_concat ..).mpr (Or.inr ⟨rfl, rfl⟩), hstate⟩

/-- What is not about the timers. -/
structure SameStore (s s' : ScheduleRuntime) : Prop where
  sessions : s'.sessions = s.sessions
  live : s'.live = s.live
  wakes : s'.wakes = s.wakes
  unmounted : s'.unmounted = s.unmounted

theorem sameStore_disarm (s : ScheduleRuntime) (id : String) : SameStore s (s.disarm id) := by
  unfold ScheduleRuntime.disarm
  split <;> exact ⟨rfl, rfl, rfl, rfl⟩

/-- What `arm` leaves: the timers of other ids, and one for the session if it has a reminder, which serves each of them. -/
theorem arm_spec (hs : s.Sound) {run : ScheduleRun} (hrun : s.sessions[n]? = some run) (read later : Int) :
    (s.arm n run read later).Sound ∧ SameStore s (s.arm n run read later) ∧ ∃ New : Nat → TimerHandle → Prop,
      (∀ h timer, (s.arm n run read later).Armed h timer ↔ s.Armed h timer ∧ s.Other run.id timer ∨ New h timer) ∧
      (∀ h timer, New h timer → timer.session = n ∧ run.reminders ≠ [] ∧ ∀ record ∈ run.reminders, timer.Serves record) ∧
      (run.reminders ≠ [] → ∃ h timer, New h timer) := by
  obtain ⟨folded, hstate, hcases⟩ := timerDelay_serves (hs.inv n run hrun) n read later
  obtain ⟨hsound, hnone⟩ := hs.disarm run.id
  have hsame := sameStore_disarm s run.id
  unfold ScheduleRuntime.arm
  rw [hstate]
  rcases hcases with ⟨hempty, hdelay⟩ | ⟨hsome, delay, hdelay, hserves⟩
  · simp only [hdelay]
    refine ⟨hsound, hsame, fun _ _ => False, ?_, fun _ _ h => h.elim, fun h => absurd hempty h⟩
    intro h timer
    rw [armed_disarm hs run.id, or_false]
  · simp only [hdelay]
    have hrun' : (s.disarm run.id).sessions[(newTimer n later delay).session]? = some run := by
      rw [hsame.sessions]
      exact hrun
    refine ⟨hsound.arms hrun' hnone, ⟨hsame.sessions, hsame.live, hsame.wakes, hsame.unmounted⟩,
      fun h timer => h = (s.disarm run.id).handles.length ∧ timer = newTimer n later delay, ?_, ?_, fun _ => ⟨_, _, rfl, rfl⟩⟩
    · intro h timer
      rw [armed_arms rfl, armed_disarm hs run.id]
    · rintro h timer ⟨-, rfl⟩
      exact ⟨rfl, hsome, hserves⟩

/-! ## A call on a session -/

theorem getElem?_put {run : ScheduleRun} {run' : ScheduleRun} (hrun : s.sessions[n]? = some run) (m : Nat) :
    (s.put n run').sessions[m]? = if m = n then some run' else s.sessions[m]? := by
  have hlt : n < s.sessions.length := (List.getElem?_eq_some_iff.mp hrun).1
  rw [ScheduleRuntime.put, List.getElem?_set]
  by_cases h : m = n
  · simp [h, hlt]
  · simp [h, Ne.symm h]

theorem armed_put {run : ScheduleRun} {h : Nat} {timer : TimerHandle} : (s.put n run).Armed h timer ↔ s.Armed h timer :=
  ⟨fun harmed => ⟨harmed.is, harmed.armed⟩, fun harmed => ⟨harmed.is, harmed.armed⟩⟩

/-- The session after a call, with the ids of the sessions as before. -/
theorem id_put {run : ScheduleRun} {after : ScheduleRun × Bool} (hrun : s.sessions[n]? = some run) (hl : Leaves run after) {m : Nat}
    {run' : ScheduleRun} (hrun' : (s.put n after.1).sessions[m]? = some run') :
    ∃ before, s.sessions[m]? = some before ∧ before.id = run'.id ∧ (m ≠ n → before = run') := by
  rw [getElem?_put hrun] at hrun'
  split at hrun'
  · rename_i hm
    cases hrun'
    exact ⟨run, hm ▸ hrun, hl.id.symm, fun hne => absurd hm hne⟩
  · exact ⟨run', hrun', rfl, fun _ => rfl⟩

theorem Sound.put (hs : s.Sound) {run : ScheduleRun} {after : ScheduleRun × Bool} (hrun : s.sessions[n]? = some run)
    (hl : Leaves run after) : (s.put n after.1).Sound := by
  have hlength : (s.put n after.1).sessions.length = s.sessions.length := List.length_set ..
  have hthere : ∀ (m : Nat) (before : ScheduleRun), s.sessions[m]? = some before →
      ∃ run' : ScheduleRun, (s.put n after.1).sessions[m]? = some run' ∧ run'.id = before.id := by
    intro m before hm
    rw [getElem?_put hrun]
    split
    · rename_i heq
      rw [heq, hrun] at hm
      cases hm
      exact ⟨_, rfl, hl.id⟩
    · exact ⟨before, hm, rfl⟩
  refine ⟨?_, ?_, ?_, ?_, ?_, ?_⟩
  · intro m run' hrun'
    rw [getElem?_put hrun] at hrun'
    split at hrun'
    · cases hrun'
      exact hl.inv
    · exact hs.inv m run' hrun'
  · intro id m hm
    obtain ⟨before, hbefore, rfl⟩ := hs.live id m hm
    exact hthere m before hbefore
  · intro m hm
    rw [hlength]
    exact hs.wakes m hm
  · intro timer hm
    rw [hlength]
    exact hs.handles timer hm
  · intro h timer run' harmed hrun'
    obtain ⟨before, hbefore, hid, -⟩ := id_put hrun hl hrun'
    rw [← hid]
    exact hs.table h timer before ⟨harmed.is, harmed.armed⟩ hbefore
  · intro id h hh
    obtain ⟨timer, before, htimer, hbefore, rfl⟩ := hs.named id h hh
    obtain ⟨run', hrun', hid⟩ := hthere timer.session before hbefore
    exact ⟨timer, run', htimer, hrun', hid⟩

/-- What follows is true but for the timers that a session needs. -/
structure FollowsBut (s : ScheduleRuntime) (n : Nat) : Prop where
  armed : s.unmounted = false → ∀ id m run, s.live.get? id = some m → m ≠ n → s.sessions[m]? = some run → ∀ record ∈ run.reminders,
    m ∈ s.wakes ∨ ∃ h timer, s.Armed h timer ∧ timer.session = m ∧ timer.Serves record
  none : ∀ h timer, s.Armed h timer → ∃ run, s.sessions[timer.session]? = some run ∧ run.reminders ≠ [] ∧
    ∀ m, s.live.get? run.id = some m → m = timer.session
  gone : s.unmounted = true → ∀ h timer, ¬ s.Armed h timer

theorem Follows.but (h : s.Follows) (n : Nat) : s.FollowsBut n :=
  ⟨fun hmounted id m run hlive _ hrun => h.armed hmounted id m run hlive hrun, h.none, h.gone⟩

theorem Sound.one (hs : s.Sound) : ∀ h timer run h' timer' run', s.Armed h timer → s.sessions[timer.session]? = some run →
    s.Armed h' timer' → s.sessions[timer'.session]? = some run' → run.id = run'.id → h = h' := by
  intro h timer run h' timer' run' harmed hrun harmed' hrun' hid
  have hget := hs.table h timer run harmed hrun
  rw [hid, hs.table h' timer' run' harmed' hrun'] at hget
  exact (Option.some.inj hget).symm

theorem other_put {run : ScheduleRun} {after : ScheduleRun × Bool} (hrun : s.sessions[n]? = some run) (hl : Leaves run after)
    (id : String) (timer : TimerHandle) : (s.put n after.1).Other id timer ↔ s.Other id timer := by
  constructor
  · intro hother before hbefore
    by_cases hm : timer.session = n
    · have hrun' : (s.put n after.1).sessions[timer.session]? = some after.1 := by rw [getElem?_put hrun, if_pos hm]
      rw [hm, hrun] at hbefore
      cases hbefore
      rw [← hl.id]
      exact hother _ hrun'
    · exact hother before (by rw [getElem?_put hrun, if_neg hm, hbefore])
  · intro hother run' hrun'
    obtain ⟨before, hbefore, hid, -⟩ := id_put hrun hl hrun'
    rw [← hid]
    exact hother before hbefore

/-- A call that arms leaves the timers as the logs ask exactly if it may. -/
theorem settle_follows_iff (hs : s.Sound) (hf : s.FollowsBut n) {run after : ScheduleRun} (hrun : s.sessions[n]? = some run)
    (hl : Leaves run (after, true)) (read later : Int) :
    (s.settle n (after, true) read later).Sound ∧ ((s.settle n (after, true) read later).Follows ↔ s.MayArm n (after, true)) := by
  have hput := hs.put hrun hl
  have hrunPut : (s.put n after).sessions[n]? = some after := by rw [getElem?_put hrun, if_pos rfl]
  obtain ⟨hsound, hsame, New, hnew, hmade, hneeded⟩ := arm_spec hput hrunPut read later
  have hsettle : s.settle n (after, true) read later = (s.put n after).arm n after read later := if_pos rfl
  rw [hsettle]
  refine ⟨hsound, ?_⟩
  generalize (s.put n after).arm n after read later = s' at hsound hsame hnew ⊢
  have hsessions : ∀ m, s'.sessions[m]? = if m = n then some after else s.sessions[m]? := by
    intro m
    rw [hsame.sessions, getElem?_put hrun]
  have harms : ∀ h timer, s'.Armed h timer ↔ s.Armed h timer ∧ s.Other after.id timer ∨ New h timer := by
    intro h timer
    rw [hnew, other_put hrun hl, armed_put]
  constructor
  · intro hfollows _
    constructor
    · intro hsome
      obtain ⟨h₀, timer₀, hn⟩ := hneeded hsome
      have harmed := (harms h₀ timer₀).mpr (Or.inr hn)
      obtain ⟨hsession, -, -⟩ := hmade h₀ timer₀ hn
      constructor
      · by_contra hmounted
        have hunmounted : s.unmounted = true := by simpa using hmounted
        exact hfollows.gone (hsame.unmounted.trans hunmounted) h₀ timer₀ harmed
      · intro n' hn'
        obtain ⟨run', hrun', -, honly⟩ := hfollows.none h₀ timer₀ harmed
        rw [hsession, hsessions, if_pos rfl] at hrun'
        cases hrun'
        exact (honly n' (by rw [hsame.live]; exact hn')).trans hsession
    · intro hmounted n' hn' hne run' hrun' hsome
      obtain ⟨record, hrecord⟩ := List.exists_mem_of_ne_nil _ hsome
      have hthere : s'.sessions[n']? = some run' := by
        rw [hsessions, if_neg hne]
        exact hrun'
      rcases hfollows.armed (hsame.unmounted.trans hmounted) after.id n' run' (by rw [hsame.live]; exact hn') hthere record hrecord with
        hwake | ⟨h, timer, harmed, hsession, -⟩
      · rw [hsame.wakes] at hwake
        exact hwake
      · rcases (harms h timer).mp harmed with ⟨-, hother⟩ | hn
        · obtain ⟨before, hbefore, hid⟩ := hs.live after.id n' hn'
          exact absurd hid (hother before (by rw [hsession]; exact hbefore))
        · exact absurd (hsession.symm.trans (hmade h timer hn).1) hne
  · intro hmay
    obtain ⟨hwith, hwithout⟩ := hmay rfl
    refine ⟨?_, hsound.one, ?_, ?_⟩
    · intro hmounted id m run' hlive hrun' record hrecord
      rw [hsame.unmounted] at hmounted
      rw [hsame.live] at hlive
      rw [hsame.wakes]
      rw [hsessions] at hrun'
      by_cases hm : m = n
      · rw [if_pos hm] at hrun'
        cases hrun'
        obtain ⟨h₀, timer₀, hn⟩ := hneeded (List.ne_nil_of_mem hrecord)
        obtain ⟨hsession, -, hserves⟩ := hmade h₀ timer₀ hn
        exact Or.inr ⟨h₀, timer₀, (harms h₀ timer₀).mpr (Or.inr hn), hsession.trans hm.symm, hserves record hrecord⟩
      · rw [if_neg hm] at hrun'
        rcases hf.armed hmounted id m run' hlive hm hrun' record hrecord with hwake | ⟨h, timer, harmed, hsession, hserves⟩
        · exact Or.inl hwake
        · by_cases hid : id = after.id
          · exact Or.inl (hwithout hmounted m (by rw [← hid]; exact hlive) hm run' hrun' (List.ne_nil_of_mem hrecord))
          · refine Or.inr ⟨h, timer, (harms h timer).mpr (Or.inl ⟨harmed, ?_⟩), hsession, hserves⟩
            intro before hbefore
            obtain ⟨live, hthere, rfl⟩ := hs.live id m hlive
            rw [hsession, hthere] at hbefore
            cases hbefore
            exact hid
    · intro h timer harmed
      rcases (harms h timer).mp harmed with ⟨hold, hother⟩ | hn
      · obtain ⟨run₀, hrun₀, hsome, honly⟩ := hf.none h timer hold
        have hne : timer.session ≠ n := by
          intro heq
          rw [heq, hrun] at hrun₀
          cases hrun₀
          exact hother run (by rw [heq]; exact hrun) hl.id.symm
        refine ⟨run₀, by rw [hsessions, if_neg hne]; exact hrun₀, hsome, ?_⟩
        rw [hsame.live]
        exact honly
      · obtain ⟨hsession, hsome, -⟩ := hmade h timer hn
        refine ⟨after, by rw [hsessions, if_pos hsession], hsome, ?_⟩
        intro m hm
        rw [hsame.live] at hm
        exact ((hwith hsome).2 m hm).trans hsession.symm
    · intro hunmounted h timer harmed
      rw [hsame.unmounted] at hunmounted
      rcases (harms h timer).mp harmed with ⟨hold, -⟩ | hn
      · exact hf.gone hunmounted h timer hold
      · exact absurd (hunmounted.symm.trans (hwith (hmade h timer hn).2.1).1) (by decide)

/-- A call that does not arm leaves the timers as the logs ask. -/
theorem Follows.put (hf : s.Follows) (hs : s.Sound) {run after : ScheduleRun} (hrun : s.sessions[n]? = some run)
    (hl : Leaves run (after, false)) : (s.put n after).Follows := by
  have hreminders : ∀ (m : Nat) (run' : ScheduleRun), (s.put n after).sessions[m]? = some run' →
      ∃ before : ScheduleRun, s.sessions[m]? = some before ∧ before.id = run'.id ∧ run'.reminders = before.reminders := by
    intro m run' hrun'
    rw [getElem?_put hrun] at hrun'
    split at hrun'
    · rename_i hm
      cases hrun'
      exact ⟨run, hm ▸ hrun, hl.id.symm, hl.same rfl⟩
    · exact ⟨run', hrun', rfl, rfl⟩
  refine ⟨?_, (hs.put hrun hl).one, ?_, ?_⟩
  · intro hmounted id m run' hlive hrun' record hrecord
    obtain ⟨before, hbefore, -, hsame⟩ := hreminders m run' hrun'
    simp only [armed_put]
    exact hf.armed hmounted id m before hlive hbefore record (hsame ▸ hrecord)
  · intro h timer harmed
    obtain ⟨before, hbefore, hsome, honly⟩ := hf.none h timer ⟨harmed.is, harmed.armed⟩
    by_cases hm : timer.session = n
    · rw [hm, hrun] at hbefore
      cases hbefore
      have hafter : (s.put n after).sessions[timer.session]? = some after := by rw [getElem?_put hrun, if_pos hm]
      have hid : after.id = run.id := hl.id
      have hsame : after.reminders = run.reminders := hl.same rfl
      refine ⟨after, hafter, hsame ▸ hsome, ?_⟩
      rw [hid]
      exact honly
    · exact ⟨before, by rw [getElem?_put hrun, if_neg hm]; exact hbefore, hsome, honly⟩
  · intro hunmounted h timer harmed
    exact hf.gone hunmounted h timer ⟨harmed.is, harmed.armed⟩

/-! ## A step -/

/-- What is kept. -/
structure Good (s : ScheduleRuntime) : Prop where
  sound : s.Sound
  follows : s.Follows

theorem not_armed_empty (h : Nat) (timer : TimerHandle) : ¬ ({} : ScheduleRuntime).Armed h timer := by
  intro harmed
  cases harmed.is

theorem good_empty : ({} : ScheduleRuntime).Good := by
  constructor
  · refine ⟨?_, ?_, ?_, ?_, fun h timer _ harmed => absurd harmed (not_armed_empty h timer), ?_⟩
    · intro n run hrun
      cases hrun
    · intro id n hlive
      cases hlive
    · intro n hn
      cases hn
    · intro timer hmem
      cases hmem
    · intro id h hget
      cases hget
  · refine ⟨?_, fun h timer _ _ _ _ harmed => absurd harmed (not_armed_empty h timer),
      fun h timer harmed => absurd harmed (not_armed_empty h timer), fun _ => not_armed_empty⟩
    intro _ id n run hlive
    cases hlive

/-- A call leaves the timers as the logs ask exactly if it may arm, where it does. -/
theorem Good.settle (h : s.Good) {run : ScheduleRun} {after : ScheduleRun × Bool} (hrun : s.sessions[n]? = some run)
    (hl : Leaves run after) (read later : Int) :
    (s.settle n after read later).Sound ∧ ((s.settle n after read later).Follows ↔ s.MayArm n after) := by
  obtain ⟨after, arms⟩ := after
  cases arms with
  | true => exact settle_follows_iff h.sound (h.follows.but n) hrun hl read later
  | false =>
    have hsettle : s.settle n (after, false) read later = s.put n after := if_neg Bool.false_ne_true
    rw [hsettle]
    exact ⟨h.sound.put hrun hl, iff_of_true (h.follows.put h.sound hrun hl) nofun⟩

/-- A delivery leaves the timers as the logs ask exactly if it may arm. -/
theorem Good.wake (h : s.Good) {place : Nat} (hplace : s.wakes[place]? = some n) {run after : ScheduleRun}
    (hrun : s.sessions[n]? = some run) (hl : Leaves run (after, true)) (read later : Int) :
    ({ s with wakes := s.wakes.eraseIdx place }.settle n (after, true) read later).Sound ∧
      (({ s with wakes := s.wakes.eraseIdx place }.settle n (after, true) read later).Follows ↔
        { s with wakes := s.wakes.eraseIdx place }.MayArm n (after, true)) := by
  have hsound : { s with wakes := s.wakes.eraseIdx place }.Sound := by
    refine ⟨h.sound.inv, h.sound.live, ?_, h.sound.handles, ?_, h.sound.named⟩
    · intro m hm
      exact h.sound.wakes m (List.mem_of_mem_eraseIdx hm)
    · intro h' timer run' harmed hrun'
      exact h.sound.table h' timer run' ⟨harmed.is, harmed.armed⟩ hrun'
  have hbut : { s with wakes := s.wakes.eraseIdx place }.FollowsBut n := by
    refine ⟨?_, ?_, ?_⟩
    · intro hmounted id m run' hlive hne hrun' record hrecord
      rcases h.follows.armed hmounted id m run' hlive hrun' record hrecord with hwake | ⟨h', timer, harmed, hserves⟩
      · refine Or.inl (List.mem_eraseIdx_iff_getElem?.mpr ?_)
        obtain ⟨i, hi⟩ := List.mem_iff_getElem?.mp hwake
        refine ⟨i, ?_, hi⟩
        rintro rfl
        exact hne (Option.some.inj (hi.symm.trans hplace))
      · exact Or.inr ⟨h', timer, ⟨harmed.is, harmed.armed⟩, hserves⟩
    · intro h' timer harmed
      exact h.follows.none h' timer ⟨harmed.is, harmed.armed⟩
    · intro hunmounted h' timer harmed
      exact h.follows.gone hunmounted h' timer ⟨harmed.is, harmed.armed⟩
  exact settle_follows_iff hsound hbut hrun hl read later

/-- A session comes to life: the timers are as the logs ask exactly if it has no reminder, while the service is mounted, and no timer is
armed for its id. -/
theorem Good.enroll (h : s.Good) {run : ScheduleRun} (hinv : run.Inv) :
    { s with sessions := s.sessions ++ [run], live := s.live.set run.id s.sessions.length }.Sound ∧
      ({ s with sessions := s.sessions ++ [run], live := s.live.set run.id s.sessions.length }.Follows ↔
        (s.unmounted = false → run.reminders = []) ∧ s.Unarmed run.id) := by
  have hlive : ∀ id, (s.live.set run.id s.sessions.length).get? id = if id = run.id then some s.sessions.length else s.live.get? id :=
    fun id => Dict.get?_set ..
  have hold : ∀ (m : Nat) (run' : ScheduleRun), m < s.sessions.length →
      ((s.sessions ++ [run])[m]? = some run' ↔ s.sessions[m]? = some run') := by
    intro m run' hlt
    rw [List.getElem?_append_left hlt]
  have hlast : (s.sessions ++ [run])[s.sessions.length]? = some run := (getElem?_concat ..).mpr (Or.inr ⟨rfl, rfl⟩)
  have hbelow : ∀ h' timer, s.Armed h' timer → timer.session < s.sessions.length :=
    fun h' timer harmed => h.sound.handles timer (List.mem_of_getElem? harmed.is)
  generalize hs' : ({ s with sessions := s.sessions ++ [run], live := s.live.set run.id s.sessions.length } : ScheduleRuntime) = s'
  have harms : ∀ h' timer, s'.Armed h' timer ↔ s.Armed h' timer := by
    intro h' timer
    subst hs'
    exact ⟨fun harmed => ⟨harmed.is, harmed.armed⟩, fun harmed => ⟨harmed.is, harmed.armed⟩⟩
  have hsound : s'.Sound := by
    subst hs'
    refine ⟨?_, ?_, ?_, ?_, ?_, ?_⟩
    · intro m run' hrun'
      rcases (getElem?_concat ..).mp hrun' with hrun' | ⟨-, rfl⟩
      · exact h.sound.inv m run' hrun'
      · exact hinv
    · intro id m hm
      simp only [hlive] at hm
      split at hm
      · rename_i hid
        cases hm
        exact ⟨run, hlast, hid.symm⟩
      · obtain ⟨run', hrun', hid⟩ := h.sound.live id m hm
        exact ⟨run', (getElem?_concat ..).mpr (Or.inl hrun'), hid⟩
    · intro m hm
      exact Nat.lt_of_lt_of_le (h.sound.wakes m hm) (by simp)
    · intro timer hmem
      exact Nat.lt_of_lt_of_le (h.sound.handles timer hmem) (by simp)
    · intro h' timer run' harmed hrun'
      have harmed' := (harms h' timer).mp harmed
      exact h.sound.table h' timer run' harmed' ((hold _ _ (hbelow h' timer harmed')).mp hrun')
    · intro id h' hh
      obtain ⟨timer, run', htimer, hrun', hid⟩ := h.sound.named id h' hh
      exact ⟨timer, run', htimer, (getElem?_concat ..).mpr (Or.inl hrun'), hid⟩
  refine ⟨hsound, ?_⟩
  have hsessions : s'.sessions = s.sessions ++ [run] := by subst hs'; rfl
  have hlives : s'.live = s.live.set run.id s.sessions.length := by subst hs'; rfl
  have hwakes : s'.wakes = s.wakes := by subst hs'; rfl
  have hmounts : s'.unmounted = s.unmounted := by subst hs'; rfl
  constructor
  · intro hfollows
    constructor
    · intro hmounted
      by_contra hsome
      obtain ⟨record, hrecord⟩ := List.exists_mem_of_ne_nil _ hsome
      rcases hfollows.armed (hmounts.trans hmounted) run.id s.sessions.length run (by rw [hlives, hlive, if_pos rfl])
          (by rw [hsessions, hlast]) record hrecord with hwake | ⟨h', timer, harmed, hsession, -⟩
      · rw [hwakes] at hwake
        exact absurd (h.sound.wakes _ hwake) (Nat.lt_irrefl _)
      · have hlt := hbelow h' timer ((harms h' timer).mp harmed)
        omega
    · rintro timer hmem hstate run' hrun' hid
      obtain ⟨h', hh⟩ := List.mem_iff_getElem?.mp hmem
      have harmed : s.Armed h' timer := ⟨hh, hstate⟩
      obtain ⟨run₀, hrun₀, -, honly⟩ := hfollows.none h' timer ((harms h' timer).mpr harmed)
      rw [hsessions, hold _ _ (hbelow h' timer harmed)] at hrun₀
      cases hrun₀.symm.trans hrun'
      have hlen := honly s.sessions.length (by rw [hlives, hlive, if_pos hid])
      have hlt := hbelow h' timer harmed
      omega
  · rintro ⟨hnone, hunarmed⟩
    refine ⟨?_, hsound.one, ?_, ?_⟩
    · intro hmounted id m run' hm hrun' record hrecord
      rw [hlives, hlive] at hm
      rw [hmounts] at hmounted
      simp only [harms, hwakes]
      split at hm
      · cases hm
        rw [hsessions, hlast] at hrun'
        cases hrun'
        rw [hnone hmounted] at hrecord
        cases hrecord
      · obtain ⟨before, hbefore, -⟩ := h.sound.live id m hm
        rw [hsessions, hold _ _ (List.getElem?_eq_some_iff.mp hbefore).1] at hrun'
        exact h.follows.armed hmounted id m run' hm hrun' record hrecord
    · intro h' timer harmed
      have harmed' := (harms h' timer).mp harmed
      obtain ⟨run₀, hrun₀, hsome, honly⟩ := h.follows.none h' timer harmed'
      refine ⟨run₀, by rw [hsessions, hold _ _ (hbelow h' timer harmed')]; exact hrun₀, hsome, ?_⟩
      intro m hm
      rw [hlives, hlive, if_neg (hunarmed timer (List.mem_of_getElem? harmed'.is) harmed'.armed run₀ hrun₀)] at hm
      exact honly m hm
    · intro hunmounted h' timer harmed
      exact h.follows.gone (hmounts.symm.trans hunmounted) h' timer ((harms h' timer).mp harmed)

theorem Good.fire (h : s.Good) {k : Nat} {timer : TimerHandle} (hk : s.Armed k timer) :
    { s with handles := s.handles.modify k ({ · with state := .fired }), wakes := s.wakes ++ [timer.session] }.Good := by
  generalize hs' : ({ s with
    handles := s.handles.modify k ({ · with state := .fired })
    wakes := s.wakes ++ [timer.session] } : ScheduleRuntime) = s'
  have harms : ∀ h' timer', s'.Armed h' timer' ↔ s.Armed h' timer' ∧ h' ≠ k := by
    intro h' timer'
    subst hs'
    constructor
    · rintro ⟨his, hstate⟩
      simp only [List.getElem?_modify] at his
      obtain ⟨old, hold, rfl⟩ := Option.map_eq_some_iff.mp his
      by_cases heq : k = h'
      · rw [if_pos heq] at hstate
        cases hstate
      · rw [if_neg heq] at hstate ⊢
        exact ⟨⟨hold, hstate⟩, fun he => heq he.symm⟩
    · rintro ⟨⟨his, hstate⟩, hne⟩
      exact ⟨by simp [Ne.symm hne, his], hstate⟩
  have hsessions : s'.sessions = s.sessions := by subst hs'; rfl
  have hlives : s'.live = s.live := by subst hs'; rfl
  have hwakes : s'.wakes = s.wakes ++ [timer.session] := by subst hs'; rfl
  have hmounts : s'.unmounted = s.unmounted := by subst hs'; rfl
  have htimers : s'.timers = s.timers := by subst hs'; rfl
  have hhandles : ∀ (i : Nat) (old : TimerHandle), s.handles[i]? = some old →
      ∃ new : TimerHandle, s'.handles[i]? = some new ∧ new.session = old.session := by
    intro i old hold
    subst hs'
    refine ⟨if k = i then { old with state := .fired } else old, by simp only [List.getElem?_modify, hold]; rfl, ?_⟩
    split <;> rfl
  have hlength : s'.handles.length = s.handles.length := by subst hs'; exact List.length_modify ..
  have hsound : s'.Sound := by
    refine ⟨?_, ?_, ?_, ?_, ?_, ?_⟩
    · rw [hsessions]
      exact h.sound.inv
    · rw [hsessions, hlives]
      exact h.sound.live
    · intro m hm
      rw [hwakes] at hm
      rw [hsessions]
      rcases List.mem_append.mp hm with hm | hm
      · exact h.sound.wakes m hm
      · rw [List.mem_singleton.mp hm]
        exact h.sound.handles timer (List.mem_of_getElem? hk.is)
    · intro new hmem
      obtain ⟨i, hi⟩ := List.mem_iff_getElem?.mp hmem
      have hlt : i < s.handles.length := hlength ▸ (List.getElem?_eq_some_iff.mp hi).1
      obtain ⟨new', hnew', hsession⟩ := hhandles i s.handles[i] (List.getElem?_eq_getElem hlt)
      cases hi.symm.trans hnew'
      rw [hsessions, hsession]
      exact h.sound.handles _ (List.getElem_mem hlt)
    · intro h' timer' run harmed hrun
      rw [htimers]
      rw [hsessions] at hrun
      exact h.sound.table h' timer' run ((harms h' timer').mp harmed).1 hrun
    · intro id h' hh
      rw [htimers] at hh
      obtain ⟨old, run, hold, hrun, hid⟩ := h.sound.named id h' hh
      obtain ⟨new, hnew, hsession⟩ := hhandles h' old hold
      exact ⟨new, run, hnew, by rw [hsessions, hsession]; exact hrun, hid⟩
  refine ⟨hsound, ?_, hsound.one, ?_, ?_⟩
  · intro hmounted id m run hlive hrun record hrecord
    rw [hlives] at hlive
    rw [hsessions] at hrun
    rw [hwakes]
    rcases h.follows.armed (hmounts.symm.trans hmounted) id m run hlive hrun record hrecord with
      hwake | ⟨h', timer', harmed, hsession, hserves⟩
    · exact Or.inl (List.mem_append_left _ hwake)
    · by_cases heq : h' = k
      · subst heq
        cases harmed.is.symm.trans hk.is
        exact Or.inl (List.mem_append_right _ (by rw [hsession]; exact List.mem_singleton_self m))
      · exact Or.inr ⟨h', timer', (harms h' timer').mpr ⟨harmed, heq⟩, hsession, hserves⟩
  · intro h' timer' harmed
    rw [hsessions, hlives]
    exact h.follows.none h' timer' ((harms h' timer').mp harmed).1
  · intro hunmounted h' timer' harmed
    exact h.follows.gone (hmounts.symm.trans hunmounted) h' timer' ((harms h' timer').mp harmed).1

theorem Good.remove (h : s.Good) (id : String) : { s with live := s.live.pop id }.Good := by
  have hpop : ∀ id' m, (s.live.pop id).get? id' = some m → s.live.get? id' = some m := by
    intro id' m hm
    rw [Dict.get?_pop] at hm
    split at hm
    · cases hm
    · exact hm
  have hsound : { s with live := s.live.pop id }.Sound :=
    ⟨h.sound.inv, fun id' m hm => h.sound.live id' m (hpop id' m hm), h.sound.wakes, h.sound.handles,
      fun h' timer run harmed => h.sound.table h' timer run ⟨harmed.is, harmed.armed⟩, h.sound.named⟩
  refine ⟨hsound, ?_, hsound.one, ?_, ?_⟩
  · intro hmounted id' m run hlive hrun record hrecord
    rcases h.follows.armed hmounted id' m run (hpop id' m hlive) hrun record hrecord with hwake | ⟨h', timer, harmed, hserves⟩
    · exact Or.inl hwake
    · exact Or.inr ⟨h', timer, ⟨harmed.is, harmed.armed⟩, hserves⟩
  · intro h' timer harmed
    obtain ⟨run, hrun, hsome, honly⟩ := h.follows.none h' timer ⟨harmed.is, harmed.armed⟩
    exact ⟨run, hrun, hsome, fun m hm => honly m (hpop run.id m hm)⟩
  · intro hunmounted h' timer harmed
    exact h.follows.gone hunmounted h' timer ⟨harmed.is, harmed.armed⟩

/-- The unmount disarms all: each timer that is armed stands in the table. -/
theorem Good.disarmAll (h : s.Good) : s.disarmAll.Good := by
  generalize hs' : s.disarmAll = s'
  have hbefore : ∀ (k : Nat) (timer : TimerHandle), s'.handles[k]? = some timer →
      ∃ old : TimerHandle, s.handles[k]? = some old ∧ old.session = timer.session ∧
        timer = if k ∈ s.timers.entries.map (·.2) then old.cancel else old := by
    intro k timer hk
    subst hs'
    simp only [ScheduleRuntime.disarmAll, List.getElem?_mapIdx] at hk
    obtain ⟨old, hold, rfl⟩ := Option.map_eq_some_iff.mp hk
    refine ⟨old, hold, ?_, rfl⟩
    split <;> rfl
  have hnone : ∀ k timer, ¬ s'.Armed k timer := by
    rintro k timer ⟨his, hstate⟩
    obtain ⟨old, hold, -, htimer⟩ := hbefore k timer his
    split at htimer
    · exact not_armed_cancel old (htimer ▸ hstate)
    · rename_i hnot
      subst htimer
      obtain ⟨run, hrun, -⟩ := h.follows.none k timer ⟨hold, hstate⟩
      have hget := h.sound.table k timer run ⟨hold, hstate⟩ hrun
      exact hnot (List.mem_map_of_mem (Dict.get?_eq_some.mp hget))
  have hunmounted : s'.unmounted = true := by subst hs'; rfl
  have htimers : s'.timers = .empty := by subst hs'; rfl
  have hstore : s'.sessions = s.sessions ∧ s'.live = s.live ∧ s'.wakes = s.wakes := by subst hs'; exact ⟨rfl, rfl, rfl⟩
  obtain ⟨hsessions, hlives, hwakes⟩ := hstore
  constructor
  · refine ⟨by rw [hsessions]; exact h.sound.inv, by rw [hsessions, hlives]; exact h.sound.live,
      by rw [hsessions, hwakes]; exact h.sound.wakes, ?_, fun k timer _ harmed => absurd harmed (hnone k timer), ?_⟩
    · intro timer hmem
      obtain ⟨k, hk⟩ := List.mem_iff_getElem?.mp hmem
      obtain ⟨old, hold, hsession, -⟩ := hbefore k timer hk
      rw [hsessions, ← hsession]
      exact h.sound.handles old (List.mem_of_getElem? hold)
    · intro id k hk
      rw [htimers] at hk
      cases hk
  · refine ⟨?_, fun k timer _ _ _ _ harmed => absurd harmed (hnone k timer), fun k timer harmed => absurd harmed (hnone k timer),
      fun _ => hnone⟩
    intro hmounted
    rw [hunmounted] at hmounted
    cases hmounted

theorem forall_mem_some {α : Type} {x : α} {p : α → Prop} {o : Option α} (h : o = some x) : (∀ y ∈ o, p y) ↔ p x := by
  simp [h]

/-- Nothing is done to an id that is live, and nothing is asked of the step. -/
theorem Good.live_already (h : s.Good) {id : String} {n : Nat} (hget : s.live.get? id = some n) {P : Prop} :
    s.Sound ∧ (s.Follows ↔ (s.live.get? id = none → P)) := by
  refine ⟨h.sound, iff_of_true h.follows (fun hnone => ?_)⟩
  rw [hnone] at hget
  contradiction

/-- What a step leaves is sound, and the timers are as the logs ask exactly if the step is tended. -/
theorem Good.step (h : s.Good) {a : TimerAction} (hstep : s.step clock a = some s') : s'.Sound ∧ (s'.Follows ↔ s.Tended clock a) := by
  cases a with
  | «open» id header =>
    simp only [ScheduleRuntime.step] at hstep
    split at hstep
    · rename_i n hget
      obtain rfl := Option.some.inj hstep
      exact h.live_already hget
    · rename_i hnone
      obtain rfl := Option.some.inj hstep
      have hkept : (ScheduleRun.start id header).Inv := ⟨.empty, Kept.start id header⟩
      obtain ⟨hsound, hiff⟩ := h.enroll hkept
      refine ⟨hsound, hiff.trans ?_⟩
      have hempty : (ScheduleRun.start id header).reminders = [] := by
        rw [List.eq_nil_iff_forall_not_mem]
        intro record hrecord
        cases (mem_reminders (Kept.start id header)).mp hrecord
      exact ⟨fun hboth _ => hboth.2, fun hunarmed => ⟨fun _ => hempty, hunarmed hnone⟩⟩
  | resume stored =>
    simp only [ScheduleRuntime.step] at hstep
    split at hstep
    · rename_i n hget
      obtain rfl := Option.some.inj hstep
      exact h.live_already hget
    · rename_i hnone
      obtain rfl := Option.some.inj hstep
      obtain ⟨hsound, hiff⟩ := h.enroll stored.kept
      exact ⟨hsound, hiff.trans ⟨fun hboth _ => hboth, fun hboth => hboth hnone⟩⟩
  | remove id =>
    obtain rfl := Option.some.inj hstep
    exact ⟨(h.remove id).sound, iff_of_true (h.remove id).follows trivial⟩
  | append n call =>
    obtain ⟨run, hrun, hstep⟩ := Option.bind_eq_some_iff.mp hstep
    obtain ⟨run', happend, rfl⟩ := Option.map_eq_some_iff.mp hstep
    have hl := leaves_appended (h.sound.inv n run hrun) happend
    exact ⟨h.sound.put hrun hl, iff_of_true (h.follows.put h.sound hrun hl) trivial⟩
  | create n spec now id time read later =>
    obtain ⟨run, hrun, rfl⟩ := Option.map_eq_some_iff.mp hstep
    have hl := leaves_created clock (h.sound.inv n run hrun) spec now id time
    obtain ⟨hsound, hiff⟩ := h.settle hrun hl read later
    refine ⟨hsound, ?_⟩
    rw [Tended, forall_mem_some hrun]
    exact hiff
  | delete n id now time read later =>
    obtain ⟨run, hrun, rfl⟩ := Option.map_eq_some_iff.mp hstep
    have hl := leaves_deleted clock (h.sound.inv n run hrun) id now time
    obtain ⟨hsound, hiff⟩ := h.settle hrun hl read later
    refine ⟨hsound, ?_⟩
    rw [Tended, forall_mem_some hrun]
    exact hiff
  | fire k =>
    simp only [ScheduleRuntime.step] at hstep
    split at hstep
    · rename_i timer hk
      split at hstep
      · rename_i hstate
        obtain rfl := Option.some.inj hstep
        have hfired := h.fire ⟨hk, hstate⟩
        exact ⟨hfired.sound, iff_of_true hfired.follows trivial⟩
      · cases hstep
    · cases hstep
  | wake place now messageId time read later =>
    obtain ⟨n, hplace, hstep⟩ := Option.bind_eq_some_iff.mp hstep
    obtain ⟨run, hrun, rfl⟩ := Option.map_eq_some_iff.mp hstep
    have hl := leaves_woken clock (h.sound.inv n run hrun) now messageId time
    obtain ⟨hsound, hiff⟩ := h.wake hplace hrun hl read later
    refine ⟨hsound, ?_⟩
    rw [Tended, forall_mem_some hplace, forall_mem_some hrun]
    exact hiff
  | unmount =>
    obtain rfl := Option.some.inj hstep
    exact ⟨h.disarmAll.sound, iff_of_true h.disarmAll.follows trivial⟩

end ScheduleRuntime

open ScheduleRuntime in
/-- In a run of the service the timers are as the logs ask in each state exactly if each session that comes to life, and each call that
arms, is as `Tended` says. -/
theorem timers_follow_iff (clock : FloatClock) (as : List TimerAction) (s : ScheduleRuntime)
    (hrun : Machine.exec (ScheduleRuntime.step clock) {} as = some s) :
    Machine.Always (ScheduleRuntime.step clock) Follows {} as ↔ Machine.Meets (ScheduleRuntime.step clock) (Tended clock) {} as :=
  Machine.always_iff_meets (I := Good) (fun _ h => h.follows)
    (fun _ _ _ h hstep htended => ⟨(h.step hstep).1, (h.step hstep).2.mpr htended⟩)
    (fun _ _ _ h hstep hfollows => (h.step hstep).2.mp hfollows) good_empty hrun

/-- A reminder every five minutes. -/
def everyFive : PyDict := [(.str "prompt", .str "drink"), (.str "every_seconds", .int 300)]

theorem a1_ne_empty : "a1" ≠ "" := by decide

/-- A reminder is created, delivered once and deleted, and the service is unmounted. -/
def remindedOnce : List TimerAction :=
  [.open "s" {}, .create 0 everyFive 0 ⟨"a1", a1_ne_empty⟩ 0 0 0, .fire 0, .wake 0 300000 (fun id => id) 0 300000 300000,
    .delete 0 "a1" 300001 0 300001 300001, .unmount]

/-- The timers are as the log asks all the time: one is armed and fires, the next is cancelled. -/
theorem timers_follow_iff_remindedOnce : ∃ s, Machine.exec (ScheduleRuntime.step exactClock) {} remindedOnce = some s ∧
    Machine.Always (ScheduleRuntime.step exactClock) ScheduleRuntime.Follows {} remindedOnce ∧
    s.handles.map (fun timer => (timer.due, timer.state)) = [(300000, .fired), (600000, .cancelled)] := by
  have hruns : (Machine.execIf (ScheduleRuntime.step exactClock) (ScheduleRuntime.Tended exactClock) {} remindedOnce).map
      (fun s => s.handles.map (fun timer => (timer.due, timer.state))) = some [(300000, .fired), (600000, .cancelled)] := by
    decide +kernel
  obtain ⟨s, hexecIf, hhandles⟩ := Option.map_eq_some_iff.mp hruns
  obtain ⟨hexec, hmeets⟩ := Machine.meets_of_execIf hexecIf
  exact ⟨s, hexec, (timers_follow_iff exactClock remindedOnce s hexec).mpr hmeets, hhandles⟩

/-- A stored session with the reminder. -/
def storedFive : StoredReminders where
  run := ((ScheduleRun.start "s" {}).created everyFive 0 ⟨"a1", a1_ne_empty⟩ 0).1
  kept := (leaves_created exactClock ⟨.empty, Kept.start "s" {}⟩ everyFive 0 ⟨"a1", a1_ne_empty⟩ 0).inv

/-- The service is unmounted between the end of a timer and the delivery. -/
def unmountedDelivery : List TimerAction :=
  [.open "s" {}, .create 0 everyFive 0 ⟨"a1", a1_ne_empty⟩ 0 0 0, .fire 0, .unmount, .wake 0 300000 (fun id => id) 0 300000 300000]

/-- A session with a reminder is removed, and another comes under its id. -/
def reusedId : List TimerAction :=
  [.open "s" {}, .create 0 everyFive 0 ⟨"a1", a1_ne_empty⟩ 0 0 0, .remove "s", .open "s" {}]

theorem getElem?_of_map {α β : Type} {f : α → β} {xs : List α} {ys : List β} (h : xs.map f = ys) {i : Nat} {y : β}
    (hy : ys[i]? = some y) : ∃ x, xs[i]? = some x ∧ f x = y := by
  rw [← h, List.getElem?_map] at hy
  exact Option.map_eq_some_iff.mp hy

/-- A session that is resumed with a reminder has no timer; a timer is armed after the unmount; and one stands for the id of a session
that has no reminder. -/
theorem timers_not_followed :
    (∃ s, Machine.exec (ScheduleRuntime.step exactClock) {} [.resume storedFive] = some s ∧ s.live.get? "s" = some 0 ∧
      s.sessions.map (fun run => run.reminders.length) = [1] ∧ s.handles.map (·.state) = [] ∧ ¬ s.Follows) ∧
    (∃ s, Machine.exec (ScheduleRuntime.step exactClock) {} unmountedDelivery = some s ∧ s.unmounted = true ∧
      s.handles.map (·.state) = [.fired, .armed] ∧ ¬ s.Follows) ∧
    ∃ s, Machine.exec (ScheduleRuntime.step exactClock) {} reusedId = some s ∧ s.live.get? "s" = some 1 ∧
      s.handles.map (fun timer => (timer.session, timer.state)) = [(0, .armed)] ∧ ¬ s.Follows := by
  refine ⟨?_, ?_, ?_⟩
  · have hruns : (Machine.exec (ScheduleRuntime.step exactClock) {} [.resume storedFive]).map (fun s => (s.unmounted, s.wakes,
        s.live.get? "s", s.sessions.map (fun run => run.reminders.length), s.handles.map (·.state))) =
        some (false, [], some 0, [1], []) := by decide +kernel
    obtain ⟨s, hs, hfacts⟩ := Option.map_eq_some_iff.mp hruns
    simp only [Prod.mk.injEq] at hfacts
    obtain ⟨hmounted, hwakes, hlive, hreminders, hhandles⟩ := hfacts
    refine ⟨s, hs, hlive, hreminders, hhandles, ?_⟩
    intro h
    obtain ⟨run, hrun, hone⟩ := getElem?_of_map (i := 0) hreminders rfl
    obtain ⟨record, hrecord⟩ := List.exists_mem_of_length_pos (by omega : 0 < run.reminders.length)
    rcases h.armed hmounted "s" 0 run hlive hrun record hrecord with hwake | ⟨k, timer, harmed, -⟩
    · rw [hwakes] at hwake
      cases hwake
    · have his := harmed.is
      rw [List.map_eq_nil_iff.mp hhandles] at his
      cases his
  · have hruns : (Machine.exec (ScheduleRuntime.step exactClock) {} unmountedDelivery).map (fun s => (s.unmounted,
        s.handles.map (·.state))) = some (true, [.fired, .armed]) := by decide +kernel
    obtain ⟨s, hs, hfacts⟩ := Option.map_eq_some_iff.mp hruns
    simp only [Prod.mk.injEq] at hfacts
    obtain ⟨hunmounted, hhandles⟩ := hfacts
    refine ⟨s, hs, hunmounted, hhandles, ?_⟩
    intro h
    obtain ⟨timer, htimer, hstate⟩ := getElem?_of_map (i := 1) hhandles rfl
    exact h.gone hunmounted 1 timer ⟨htimer, hstate⟩
  · have hruns : (Machine.exec (ScheduleRuntime.step exactClock) {} reusedId).map (fun s => (s.live.get? "s",
        s.sessions.map ScheduleRun.id, s.handles.map (fun timer => (timer.session, timer.state)))) =
        some (some 1, ["s", "s"], [(0, .armed)]) := by decide +kernel
    obtain ⟨s, hs, hfacts⟩ := Option.map_eq_some_iff.mp hruns
    simp only [Prod.mk.injEq] at hfacts
    obtain ⟨hlive, hids, hhandles⟩ := hfacts
    refine ⟨s, hs, hlive, hhandles, ?_⟩
    intro h
    obtain ⟨timer, htimer, hboth⟩ := getElem?_of_map (i := 0) hhandles rfl
    obtain ⟨hsession, hstate⟩ := Prod.mk.injEq _ _ _ _ ▸ hboth
    obtain ⟨run, hrun, -, honly⟩ := h.none 0 timer ⟨htimer, hstate⟩
    obtain ⟨run', hrun', hid⟩ := getElem?_of_map (i := 0) hids rfl
    rw [hsession, hrun'] at hrun
    cases hrun
    have hzero := honly 1 (by rw [hid]; exact hlive)
    rw [hsession] at hzero
    cases hzero

end Pydsh
