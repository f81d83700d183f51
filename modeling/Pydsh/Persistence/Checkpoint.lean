import Pydsh.Lib.Dict
import Pydsh.Persistence.Watermark

/-!
# Checkpoints by turns

`session/checkpoint.py` over the store and the backend: a turn's end counts for the id of its session, and every so many a flush of the
session is asked for, which waits for the lock and writes what the log has by then.

In a run whose steps are `Untouched`, fewer than `every_turns` of the turns that ended in a live session are missing from storage when
none of its flushes is under way and none failed (`checkpoints_bounded`). The three ways out are the watermark of a dropped object that
a new one inherits, a write over another object's rows, and a removed session whose turns still count for the id, so that it takes the
checkpoint from the live one.
-/

namespace Pydsh

/-! ## The policy -/

/-- `CheckpointPolicy`, as far as its configuration goes. -/
structure CheckpointPolicy where
  everyTurns : Nat
  positive : 1 ≤ everyTurns

/-- Why a policy is not made. -/
inductive CheckpointPolicyError where
  /-- `TypeError`: `every_turns` is no int. -/
  | notInteger (value : PyValue)
  /-- `ValueError` -/
  | notPositive (value : Int)

/-- `CheckpointPolicy.__init__`. -/
def CheckpointPolicy.new (config : List (String × PyValue)) : Except CheckpointPolicyError CheckpointPolicy :=
  match (field? config "every_turns").getD (.int 5) with
  | .int n => if h : 1 ≤ n.toNat then .ok ⟨n.toNat, h⟩ else .error (.notPositive n)
  | value => .error (.notInteger value)

/-! ## The machine -/

/-- The backend, the live session object of each id, the turns counted for each id, and the calls of `resume` that have read their
session. For the statements: the seq of each object when it was made, its seq when its last checkpoint was asked for, and whether one of
its flushes failed. -/
structure Checkpoints where
  backend : Backend
  live : Dict String Nat := .empty
  turns : Dict String Nat := .empty
  loading : List (Nat × String) := []
  since : Nat → Nat := fun _ => 0
  mark : Nat → Nat := fun _ => 0
  failed : Nat → Bool := fun _ => false

/-- What can happen next. `resume` is a `load` of the session, at any time after the store was asked, and an `install`. -/
inductive CheckpointAction where
  | create (pid : Nat) (id : String) (createdAt : Rat) (cwd : Option String)
  | load (pid : Nat) (id : String)
  | install (pid : Nat) (id : String)
  | remove (id : String)
  | drop (pid : Nat)
  | append (pid : Nat) (c : AppendCall)
  | flush (pid : Nat)
  | start (n : Nat)
  | commit
  | fail
  | record

namespace Checkpoints

/-- How many turns were counted for an id. -/
def count (st : Checkpoints) (id : String) : Nat := (st.turns.get? id).getD 0

/-- Nobody has the object that a `resume` is to install. -/
def held (st : Checkpoints) (pid : Nat) : Bool := st.loading.any (fun load => load.1 == pid)

/-- A new object, with a seq. -/
def born (st : Checkpoints) (pid seq : Nat) : Checkpoints :=
  { st with
    since := Function.update st.since pid seq
    mark := Function.update st.mark pid seq
    failed := Function.update st.failed pid false }

variable (loadsText : String → Option (List (PyKey × PyValue))) (policy : CheckpointPolicy)

/-- The backend takes a step. -/
def advance (st : Checkpoints) (a : BackendAction) : Option Checkpoints :=
  (st.backend.step loadsText a).map (fun backend => { st with backend })

/-- `_on_event`, with a backend attached and a loop running. -/
def onEvent (st : Checkpoints) (pid : Nat) (s : Session) (event : SessionEvent) : Option Checkpoints :=
  if event.type ≠ .turnEnd then some st
  else
    let st := { st with turns := st.turns.set s.id (st.count s.id + 1) }
    if st.count s.id % policy.everyTurns ≠ 0 then some st
    -- `_schedule`
    else advance loadsText { st with mark := Function.update st.mark pid s.seq } (.flush pid false)

/-- `append`, and the broadcast of the event it has put into the log. A removed session broadcasts, too. -/
def append (st : Checkpoints) (pid : Nat) (c : AppendCall) : Option Checkpoints :=
  (st.backend.objects pid).bind fun s =>
    (st.advance loadsText (.append pid c)).bind fun st =>
      match s.append c with
      | (.ok event, s) => st.onEvent loadsText policy pid s event
      | (.error _, _) => some st

/-- One step; `none` where the action cannot happen. -/
def step (st : Checkpoints) : CheckpointAction → Option Checkpoints
  | .create pid id createdAt cwd =>
    match st.live.get? id with
    | some _ => none
    | none => advance loadsText { st.born pid 0 with live := st.live.set id pid } (.create pid id createdAt cwd)
  | .load pid id =>
    match st.backend.db.load loadsText id with
    | .ok (some s) => advance loadsText { st.born pid s.seq with loading := st.loading ++ [(pid, id)] } (.resume pid id)
    | _ => none
  | .install pid id =>
    if (pid, id) ∈ st.loading then
      some { st with loading := st.loading.erase (pid, id), live := st.live.set id pid }
    else none
  | .remove id => some { st with live := st.live.pop id }
  | .drop pid =>
    if st.held pid || st.live.entries.any (fun entry => entry.2 == pid) then none else st.advance loadsText (.drop pid)
  | .append pid c => if st.held pid then none else st.append loadsText policy pid c
  | .flush pid => if st.held pid then none else st.advance loadsText (.flush pid false)
  | .start n => st.advance loadsText (.start n)
  | .commit => st.advance loadsText .commit
  | .fail =>
    match st.backend.phase.call? with
    | none => none
    | some f => advance loadsText { st with failed := Function.update st.failed f.pid true } .fail
  | .record => st.advance loadsText .record

/-- A process that has just opened a database. -/
def opened (db : Database) : Checkpoints := { backend := .opened db }

end Checkpoints

/-! ## The bound -/

/-- The turns that ended in a session after a seq. -/
def Session.turnsAfter (s : Session) (seq : Nat) : List SessionEvent :=
  s.events.filter (fun e => decide (e.type = .turnEnd ∧ seq < e.seq))

namespace Checkpoints

variable (loadsText : String → Option (List (PyKey × PyValue))) (policy : CheckpointPolicy)

open Classical in
/-- The turns that ended in an object since it was made, and that are not stored. -/
noncomputable def missing (st : Checkpoints) (pid : Nat) (s : Session) : List SessionEvent :=
  (s.turnsAfter (st.since pid)).filter (fun e => ¬st.backend.db.Stores loadsText s.id e)

/-- A flush of the object waits for the lock or holds it. -/
def InFlight (st : Checkpoints) (pid : Nat) : Prop :=
  ∃ f, (f ∈ st.backend.waiting ∨ st.backend.phase.call? = some f) ∧ f.pid = pid

/-- Of a live session with no flush in flight, whose flushes succeeded, fewer than `every_turns` turns are missing. -/
def Bounded (st : Checkpoints) : Prop :=
  ∀ id pid s, st.live.get? id = some pid → st.backend.objects pid = some s → ¬st.InFlight pid → st.failed pid = false →
    (st.missing loadsText pid s).length < policy.everyTurns

/-- A new object has no watermark above its seq; a write puts no other event in the place of a turn's end that the watermark of the live
session covers; and the checkpoint is asked for by the live session of the id, or it has no turn since its last one. -/
def Untouched (st : Checkpoints) : CheckpointAction → Prop
  | .create pid _ _ _ => st.backend.persisted pid = 0
  | .load pid id => ∀ s, st.backend.db.load loadsText id = .ok (some s) → st.backend.persisted pid ≤ s.seq
  | .commit => ∀ f snapshot, st.backend.phase = .writing f snapshot →
    ∀ pid s, st.live.get? snapshot.id = some pid → pid ≠ f.pid → st.backend.objects pid = some s →
      ∀ e ∈ s.turnsAfter (st.since pid), e.seq ≤ st.backend.persisted pid →
        ∀ e' ∈ f.events st.backend.persisted snapshot, e'.seq = e.seq → e' = e
  | .append pid c => ∀ s event, st.backend.objects pid = some s → (s.append c).1 = .ok event → event.type = .turnEnd →
    (st.count s.id + 1) % policy.everyTurns = 0 →
      ∀ other s', st.live.get? s.id = some other → other ≠ pid → st.backend.objects other = some s' →
        s'.turnsAfter (st.mark other) = []
  | _ => True

end Checkpoints

variable {loadsText : String → Option (List (PyKey × PyValue))} {policy : CheckpointPolicy}

/-! ## Turns -/

theorem Session.mem_turnsAfter {s : Session} {seq : Nat} {e : SessionEvent} :
    e ∈ s.turnsAfter seq ↔ e ∈ s.events ∧ e.type = .turnEnd ∧ seq < e.seq := by
  simp only [Session.turnsAfter, List.mem_filter, decide_eq_true_eq]

theorem Session.Filed.turnsAfter_eq_nil {s : Session} (h : s.Filed) {seq : Nat} (hle : s.seq ≤ seq) : s.turnsAfter seq = [] := by
  refine List.eq_nil_iff_forall_not_mem.mpr (fun e he => ?_)
  obtain ⟨he, -, hlt⟩ := Session.mem_turnsAfter.mp he
  have := h.bounded e he
  omega

/-- An event that is put at the end is a turn more, or it is not. -/
theorem Session.turnsAfter_of_events {s s' : Session} {event : SessionEvent} (hevents : s'.events = s.events ++ [event])
    (seq : Nat) : s'.turnsAfter seq =
      if event.type = .turnEnd ∧ seq < event.seq then s.turnsAfter seq ++ [event] else s.turnsAfter seq := by
  unfold Session.turnsAfter
  rw [hevents, List.filter_append]
  by_cases hturn : event.type = .turnEnd ∧ seq < event.seq
  · rw [if_pos hturn, List.filter_cons_of_pos (by simpa using hturn), List.filter_nil]
  · rw [if_neg hturn, List.filter_cons_of_neg (by simpa using hturn), List.filter_nil, List.append_nil]

/-- An append puts a turn's end into the log and returns it, or leaves the turns as they were. -/
theorem append_turns (s : Session) (c : AppendCall) :
    (∃ event s', s.append c = (.ok event, s') ∧ event.type = .turnEnd ∧ s'.events = s.events ++ [event] ∧ event.seq = s.seq + 1 ∧
      s'.seq = s.seq + 1 ∧ s'.id = s.id) ∨
    (∀ seq, (s.append c).2.turnsAfter seq = s.turnsAfter seq) ∧
      ∀ event s', s.append c = (.ok event, s') → event.type ≠ .turnEnd := by
  by_cases hturn : c.eventType = .turnEnd
  · have hreplace : ∀ j, c.Admits j → c.surfaceOp.isReplace = false := by
      intro j hj
      by_contra hreplace
      have hsurface := hj.surface (by simpa using hreplace)
      rw [hturn] at hsurface
      cases hsurface
    rcases append_cases s c with ⟨-, e, happ⟩ | ⟨j, hj, -, happ⟩ | ⟨j, first, last, hj, hr, -, happ⟩ | ⟨j, e, hj, hno, happ⟩
    · rw [happ]
      exact Or.inr ⟨fun _ => rfl, fun event s' h => by cases h⟩
    · obtain ⟨hev, hid, -⟩ := append_ok_events happ
      exact Or.inl ⟨_, _, happ, hturn, hev, rfl, Session.addEvent_seq s _, hid⟩
    · rw [hreplace j hj] at hr
      cases hr
    · have hr := hno.1
      rw [hreplace j hj] at hr
      cases hr
  · right
    have hother : ∀ j seq, ¬((c.event s j).type = .turnEnd ∧ seq < (c.event s j).seq) := fun j seq h => hturn h.1
    rcases append_cases s c with ⟨-, e, happ⟩ | ⟨j, -, -, happ⟩ | ⟨j, first, last, -, -, -, happ⟩ | ⟨j, e, -, -, happ⟩
    · rw [happ]
      exact ⟨fun _ => rfl, fun event s' h => by cases h⟩
    · obtain ⟨hev, -, -⟩ := append_ok_events happ
      rw [happ]
      refine ⟨fun seq => ?_, fun event s' h => by cases h; exact hturn⟩
      rw [Session.turnsAfter_of_events hev, if_neg (hother j seq)]
    · obtain ⟨hev, -, -⟩ := append_ok_events happ
      rw [happ]
      refine ⟨fun seq => ?_, fun event s' h => by cases h; exact hturn⟩
      rw [Session.turnsAfter_of_events hev, if_neg (hother j seq)]
    · rw [happ]
      have hev : (s.commit (c.event s j)).events = s.events ++ [c.event s j] := rfl
      refine ⟨fun seq => ?_, fun event s' h => by cases h⟩
      rw [Session.turnsAfter_of_events hev, if_neg (hother j seq)]

/-! ## Flushes under way -/

/-- The seq a call returns is the last it has written of the session it read, or its watermark. -/
theorem FlushCall.le_written {f : FlushCall} (hf : f.whole = false) {persisted : Nat → Nat} {snapshot : Session}
    (hs : snapshot.Filed) : persisted f.pid ≤ f.written persisted snapshot ∧
      ∀ e ∈ snapshot.events, e.seq ≤ f.written persisted snapshot := by
  have hmem : ∀ e, e ∈ f.events persisted snapshot ↔ e ∈ snapshot.events ∧ persisted f.pid < e.seq := by
    intro e
    simp only [FlushCall.events, hf, freshEvents, Bool.false_eq_true, if_false, List.mem_filter, decide_eq_true_eq]
  have hincreasing := hs.increasing.sublist (f.events_sublist persisted snapshot)
  have hbelow : ∀ e ∈ snapshot.events, e ∉ f.events persisted snapshot → e.seq ≤ persisted f.pid :=
    fun e he hnot => Nat.le_of_not_lt (fun hlt => hnot ((hmem e).mpr ⟨he, hlt⟩))
  unfold FlushCall.written writtenSeq
  rw [hf]
  cases hlast : (f.events persisted snapshot).getLast? with
  | none =>
    rw [List.getLast?_eq_none_iff] at hlast
    exact ⟨Nat.le_refl _, fun e he => hbelow e he (by rw [hlast]; exact List.not_mem_nil)⟩
  | some last =>
    obtain ⟨front, hfront⟩ := List.getLast?_eq_some_iff.mp hlast
    have hlt : persisted f.pid < last.seq := ((hmem last).mp (by rw [hfront]; simp)).2
    refine ⟨Nat.le_of_lt hlt, fun e he => ?_⟩
    by_cases hin : e ∈ f.events persisted snapshot
    · rw [hfront] at hin hincreasing
      rcases List.mem_append.mp hin with hin | hin
      · exact Nat.le_of_lt ((List.pairwise_append.mp hincreasing).2.2 e hin last List.mem_cons_self)
      · rw [List.mem_singleton.mp hin]
        exact Nat.le_refl _
    · exact Nat.le_trans (hbelow e he hin) (Nat.le_of_lt hlt)

/-- The steps that leave the objects as they are, but for a call that writes everything. -/
def BackendAction.still : BackendAction → Bool
  | .flush _ whole => !whole
  | .start _ => true
  | .commit => true
  | .fail => true
  | .record => true
  | _ => false

namespace Backend

/-- The calls under way write what is above the watermark, and the watermark does not go back. -/
structure Incremental (st : Backend) : Prop where
  calls : ∀ f, f ∈ st.waiting ∨ st.phase.call? = some f → f.whole = false
  forward : ∀ f seq, st.phase = .written f seq → st.persisted f.pid ≤ seq

/-- The event is at or below the watermark of the object, or will be when the calls under way have returned. -/
inductive Covers (st : Backend) (pid : Nat) (e : SessionEvent) : Prop where
  | done (hle : e.seq ≤ st.persisted pid) : Covers st pid e
  | waiting {f : FlushCall} (hf : f ∈ st.waiting) (hpid : f.pid = pid) : Covers st pid e
  | writing {f : FlushCall} {snapshot : Session} (hphase : st.phase = .writing f snapshot) (hpid : f.pid = pid)
      (he : e ∈ snapshot.events) : Covers st pid e
  | written {f : FlushCall} {seq : Nat} (hphase : st.phase = .written f seq) (hpid : f.pid = pid) (hle : e.seq ≤ seq) :
      Covers st pid e

variable {st st' : Backend} {a : BackendAction}

theorem objects_of_still (hstill : a.still = true) (hstep : st.step loadsText a = some st') : st'.objects = st.objects := by
  cases does_of_step hstep with
  | creates | resumes | appends | drops => exact absurd hstill Bool.false_ne_true
  | queues | starts | commits | fails | records => rfl

theorem ne_flush_of_still (hstill : a.still = true) (pid : Nat) : a ≠ .flush pid true := by
  rintro rfl
  exact absurd hstill Bool.false_ne_true

theorem Incremental.opened (db : Database) : (Backend.opened db).Incremental := by
  refine ⟨fun f hf => ?_, fun f seq hphase => by cases hphase⟩
  rcases hf with hf | hf
  · cases hf
  · cases hf

theorem Incremental.step (h : st.Incremental) {stored : Nat → String → SessionEvent → Prop} (hkeeps : st.Keeps stored)
    (hstep : st.step loadsText a = some st') (hwhole : ∀ pid, a ≠ .flush pid true) : st'.Incremental := by
  cases does_of_step hstep with
  | creates _ => exact ⟨h.calls, h.forward⟩
  | resumes _ _ => exact ⟨h.calls, h.forward⟩
  | appends _ => exact ⟨h.calls, h.forward⟩
  | drops _ _ => exact ⟨h.calls, h.forward⟩
  | @queues pid whole s hs =>
    refine ⟨fun f hf => ?_, h.forward⟩
    rcases hf with hf | hf
    · rcases List.mem_append.mp hf with hf | hf
      · exact h.calls f (Or.inl hf)
      · rw [List.mem_singleton.mp hf]
        exact Bool.eq_false_iff.mpr (fun htrue => hwhole pid (by rw [← htrue]))
    · exact h.calls f (Or.inr hf)
  | @starts n f s hf hs =>
    refine ⟨fun f' hf' => ?_, fun f' seq hphase => by cases hphase⟩
    rcases hf' with hf' | hf'
    · exact h.calls f' (Or.inl (List.mem_of_mem_eraseIdx hf'))
    · cases hf'
      exact h.calls f (Or.inl (List.mem_of_getElem? hf))
  | @commits f snapshot db hphase hwrite =>
    have hf : f.whole = false := h.calls f (Or.inr (by rw [hphase]; rfl))
    have hok := hkeeps.phase
    unfold PhaseOk at hok
    rw [hphase] at hok
    obtain ⟨hfiled, -⟩ := hok
    refine ⟨fun f' hf' => ?_, fun f' seq hphase' => ?_⟩
    · rcases hf' with hf' | hf'
      · exact h.calls f' (Or.inl hf')
      · cases hf'
        exact hf
    · cases hphase'
      exact (FlushCall.le_written hf hfiled).1
  | fails =>
    refine ⟨fun f hf => ?_, fun f seq hphase => by cases hphase⟩
    rcases hf with hf | hf
    · exact h.calls f (Or.inl hf)
    · cases hf
  | records _ =>
    refine ⟨fun f hf => ?_, fun f seq hphase => by cases hphase⟩
    rcases hf with hf | hf
    · exact h.calls f (Or.inl hf)
    · cases hf

theorem Covers.mono {pid : Nat} {e : SessionEvent} (h : st.Covers pid e) (hpersisted : st'.persisted = st.persisted)
    (hwaiting : ∀ f ∈ st.waiting, f ∈ st'.waiting) (hphase : st'.phase = st.phase) : st'.Covers pid e := by
  cases h with
  | done hle => exact .done (by rw [hpersisted]; exact hle)
  | waiting hf hpid => exact .waiting (hwaiting _ hf) hpid
  | writing hwriting hpid he => exact .writing (hphase.trans hwriting) hpid he
  | written hwritten hpid hle => exact .written (hphase.trans hwritten) hpid hle

theorem idle_of_start {n : Nat} (hstep : st.step loadsText (.start n) = some st') : st.phase = .idle := by
  simp only [Backend.step] at hstep
  split at hstep
  · assumption
  · cases hstep

/-- An event of an object that is covered stays so, unless a call of the object fails. -/
theorem Covers.step {pid : Nat} {e : SessionEvent} (h : st.Covers pid e) (hinc : st.Incremental)
    {stored : Nat → String → SessionEvent → Prop} (hkeeps : st.Keeps stored) {s : Session} (hs : st.objects pid = some s)
    (he : e ∈ s.events) (hstep : st.step loadsText a = some st')
    (hfail : a = .fail → ∀ f, st.phase.call? = some f → f.pid ≠ pid) : st'.Covers pid e := by
  cases does_of_step hstep with
  | creates _ => exact h.mono rfl (fun _ hf => hf) rfl
  | resumes _ _ => exact h.mono rfl (fun _ hf => hf) rfl
  | appends _ => exact h.mono rfl (fun _ hf => hf) rfl
  | drops _ _ => exact h.mono rfl (fun _ hf => hf) rfl
  | queues _ => exact h.mono rfl (fun _ hf => List.mem_append_left _ hf) rfl
  | @starts n f s' hf hs' =>
    by_cases hpid : f.pid = pid
    · subst hpid
      cases hs.symm.trans hs'
      exact .writing rfl rfl he
    · cases h with
      | done hle => exact .done hle
      | @waiting f' hf' hpid' =>
        obtain ⟨i, hi⟩ := List.mem_iff_getElem?.mp hf'
        refine .waiting (List.mem_eraseIdx_iff_getElem?.mpr ⟨i, fun hin => hpid ?_, hi⟩) hpid'
        rw [hin, hf] at hi
        cases hi
        exact hpid'
      | writing hphase _ _ => cases hphase.symm.trans (idle_of_start hstep)
      | written hphase _ _ => cases hphase.symm.trans (idle_of_start hstep)
  | @commits f snapshot db hphase hwrite =>
    have hf : f.whole = false := hinc.calls f (Or.inr (by rw [hphase]; rfl))
    have hok := hkeeps.phase
    unfold PhaseOk at hok
    rw [hphase] at hok
    obtain ⟨hfiled, -⟩ := hok
    cases h with
    | done hle => exact .done hle
    | waiting hf hpid => exact .waiting hf hpid
    | writing hphase' hpid he =>
      cases hphase.symm.trans hphase'
      exact .written rfl hpid ((FlushCall.le_written hf hfiled).2 e he)
    | written hphase' _ _ => cases hphase.symm.trans hphase'
  | fails =>
    cases h with
    | done hle => exact .done hle
    | waiting hf hpid => exact .waiting hf hpid
    | writing hphase hpid _ => exact absurd hpid (hfail rfl _ (by rw [hphase]; rfl))
    | written hphase hpid _ => exact absurd hpid (hfail rfl _ (by rw [hphase]; rfl))
  | @records f seq hphase =>
    have hforward := hinc.forward f seq hphase
    cases h with
    | done hle =>
      refine .done ?_
      by_cases hpid : pid = f.pid
      · subst hpid
        simp only [Function.update_self]
        exact Nat.le_trans hle hforward
      · simpa only [Function.update_of_ne hpid] using hle
    | waiting hf hpid => exact .waiting hf hpid
    | writing hphase' _ _ => cases hphase.symm.trans hphase'
    | written hphase' hpid hle =>
      cases hphase.symm.trans hphase'
      subst hpid
      exact .done (by simpa only [Function.update_self] using hle)

end Backend

/-! ## The invariant -/

namespace Checkpoints

/-- What the watermark of an object vouches for, if it is the live one of the id or is to be: the turns that ended since it was made. -/
def Vouched (loadsText : String → Option (List (PyKey × PyValue))) (st : Checkpoints) (pid : Nat) (id : String) (e : SessionEvent) :
    Prop :=
  st.live.get? id = some pid ∨ (pid, id) ∈ st.loading → e.type = .turnEnd → st.since pid < e.seq → st.backend.db.Stores loadsText id e

/-- The backend keeps what the watermarks vouch for, the objects in the tables are there, and the turns up to the last checkpoint of an
object whose flushes did not fail are covered. -/
structure Sound (loadsText : String → Option (List (PyKey × PyValue))) (st : Checkpoints) : Prop where
  keeps : st.backend.Keeps (st.Vouched loadsText)
  incremental : st.backend.Incremental
  live : ∀ id pid, st.live.get? id = some pid → ∃ s, st.backend.objects pid = some s ∧ s.id = id
  loading : ∀ pid id, (pid, id) ∈ st.loading →
    ∃ s, st.backend.objects pid = some s ∧ s.id = id ∧ s.seq ≤ st.since pid ∧ s.seq ≤ st.mark pid
  marked : ∀ pid s, st.backend.objects pid = some s → st.mark pid ≤ s.seq
  covered : ∀ pid s, st.backend.objects pid = some s → st.failed pid = false → ∀ e ∈ s.turnsAfter (st.since pid),
    e.seq ≤ st.mark pid → st.backend.Covers pid e

/-- The turns since the last checkpoint of a live session are no more than the count of its id is past a multiple of `every_turns`. -/
def Counted (policy : CheckpointPolicy) (st : Checkpoints) : Prop :=
  ∀ id pid s, st.live.get? id = some pid → st.backend.objects pid = some s →
    (s.turnsAfter (st.mark pid)).length ≤ st.count id % policy.everyTurns

variable {st st' : Checkpoints} {pid : Nat} {a : BackendAction} {backend : Backend}

theorem Sound.bounded (h : st.Sound loadsText) (hcounted : st.Counted policy) : st.Bounded loadsText policy := by
  intro id pid s hlive hs hflight hfailed
  obtain ⟨s', hs', hid⟩ := h.live id pid hlive
  cases hs.symm.trans hs'
  have hsub : (st.missing loadsText pid s).Sublist (s.turnsAfter (st.mark pid)) := by
    refine List.sublist_filter_iff.mpr ⟨st.missing loadsText pid s, List.filter_sublist.trans List.filter_sublist, ?_⟩
    refine (List.filter_eq_self.mpr (fun e he => decide_eq_true ?_)).symm
    obtain ⟨hafter, hnot⟩ := List.mem_filter.mp he
    obtain ⟨he, hturn, hsince⟩ := Session.mem_turnsAfter.mp hafter
    refine ⟨hturn, Nat.lt_of_not_le (fun hle => ?_)⟩
    rcases h.covered pid s hs hfailed e hafter hle with hdone | ⟨hf, hpid⟩ | ⟨hphase, hpid, -⟩ | ⟨hphase, hpid, -⟩
    · have hstored := (h.keeps.object pid s hs).2.2 e he hdone (Or.inl (hid ▸ hlive)) hturn hsince
      simp [hstored] at hnot
    · exact hflight ⟨_, Or.inl hf, hpid⟩
    · exact hflight ⟨_, Or.inr (by rw [hphase]; rfl), hpid⟩
    · exact hflight ⟨_, Or.inr (by rw [hphase]; rfl), hpid⟩
  calc (st.missing loadsText pid s).length ≤ (s.turnsAfter (st.mark pid)).length := hsub.length_le
    _ ≤ st.count id % policy.everyTurns := hcounted id pid s hlive hs
    _ < policy.everyTurns := Nat.mod_lt _ policy.positive

/-- A backend step that is no commit: objects that were there keep what is vouched for, and nothing is vouched for of a new one. -/
theorem Sound.keeps_step (h : st.Sound loadsText) (hcommit : a ≠ .commit) (hstep : st.backend.step loadsText a = some st'.backend)
    (hthere : ∀ pid s, st.backend.objects pid = some s → st'.since pid = st.since pid ∧
      (st'.live.get? s.id = some pid ∨ (pid, s.id) ∈ st'.loading → st.live.get? s.id = some pid ∨ (pid, s.id) ∈ st.loading))
    (hnew : ∀ pid s, st.backend.objects pid = none → st'.backend.objects pid = some s →
      st.backend.persisted pid ≤ s.seq ∧ ∀ e ∈ s.events, e.seq ≤ st'.since pid) : st'.backend.Keeps (st'.Vouched loadsText) := by
  have hdb := Backend.db_step hcommit hstep
  have hmono : st.backend.Keeps (st'.Vouched loadsText) := by
    refine h.keeps.mono (fun pid s e hs hvouched hmine hturn hsince => ?_)
    obtain ⟨hsame, hmines⟩ := hthere pid s hs
    rw [hdb]
    exact hvouched (hmines hmine) hturn (hsame ▸ hsince)
  refine hmono.step hcommit hstep (fun pid s hnone hs => ?_)
  obtain ⟨hle, hevents⟩ := hnew pid s hnone hs
  refine ⟨hle, fun e he _ _ hsince => ?_⟩
  have := hevents e he
  omega

/-- The objects stay, and if a flush fails its object is marked. -/
theorem Sound.moves (h : st.Sound loadsText) {failed : Nat → Bool} (hstep : st.backend.step loadsText a = some backend)
    (hstill : a.still = true) (hkeeps : backend.Keeps (Vouched loadsText { st with backend, failed }))
    (hfailed : ∀ pid, failed pid = false → st.failed pid = false ∧
      (a = .fail → ∀ f, st.backend.phase.call? = some f → f.pid ≠ pid)) :
    Sound loadsText { st with backend, failed } := by
  have hobjects := Backend.objects_of_still hstill hstep
  refine ⟨hkeeps, h.incremental.step h.keeps hstep (Backend.ne_flush_of_still hstill), ?_, ?_, ?_, ?_⟩
  · simpa only [hobjects] using h.live
  · simpa only [hobjects] using h.loading
  · simpa only [hobjects] using h.marked
  · intro pid s hs hfine e he hle
    have hs : st.backend.objects pid = some s := hobjects ▸ hs
    obtain ⟨hold, hfail⟩ := hfailed pid hfine
    exact (h.covered pid s hs hold e he hle).step h.incremental h.keeps hs (Session.mem_turnsAfter.mp he).1 hstep hfail

/-- A step makes an object, with no watermark above its seq, that is the live one of its id or is to be. -/
structure Births (loadsText : String → Option (List (PyKey × PyValue))) (st : Checkpoints) (a : BackendAction) (pid : Nat) (s : Session)
    (backend : Backend) (live : Dict String Nat) (loading : List (Nat × String)) : Prop where
  step : st.backend.step loadsText a = some backend
  commit : a ≠ .commit
  fail : a ≠ .fail
  flush : ∀ pid, a ≠ .flush pid true
  fresh : st.backend.objects pid = none
  objects : backend.objects = Function.update st.backend.objects pid (some s)
  filed : s.Filed
  below : st.backend.persisted pid ≤ s.seq
  live : ∀ id p, live.get? id = some p → p = pid ∧ s.id = id ∨ st.live.get? id = some p
  loading : ∀ p id, (p, id) ∈ loading → p = pid ∧ s.id = id ∨ (p, id) ∈ st.loading

theorem births_of_create {id : String} {createdAt : Rat} {cwd : Option String} (hnone : st.backend.persisted pid = 0)
    (hstep : st.backend.step loadsText (.create pid id createdAt cwd) = some backend) :
    st.Births loadsText (.create pid id createdAt cwd) pid (Session.new id { id, createdAt, cwd }) backend (st.live.set id pid)
      st.loading := by
  have hsession : (Session.new id { id, createdAt, cwd }).Live loadsText := .create id createdAt cwd
  refine ⟨hstep, by simp, by simp, by simp, ?_, ?_, hsession.filed, by simp [hnone], fun id' p hp => ?_, fun p id hp => Or.inr hp⟩
  · cases Backend.does_of_step hstep with
    | creates hfresh => exact hfresh
  · cases Backend.does_of_step hstep
    rfl
  · rw [Dict.get?_set] at hp
    split at hp
    · rename_i heq
      exact Or.inl ⟨(Option.some.inj hp).symm, heq.symm⟩
    · exact Or.inr hp

theorem births_of_load {id : String} {s : Session} (hload : st.backend.db.load loadsText id = .ok (some s))
    (hbelow : st.backend.persisted pid ≤ s.seq) (hstep : st.backend.step loadsText (.resume pid id) = some backend) :
    st.Births loadsText (.resume pid id) pid s backend st.live (st.loading ++ [(pid, id)]) := by
  have hresumes : st.backend.objects pid = none ∧ backend.objects = Function.update st.backend.objects pid (some s) := by
    cases Backend.does_of_step hstep with
    | resumes hfresh hload' =>
      obtain rfl := Option.some.inj (Except.ok.inj (hload.symm.trans hload'))
      exact ⟨hfresh, rfl⟩
  obtain ⟨-, -, hid, -⟩ := load_eq_some hload
  have hsession : s.Live loadsText := .resume st.backend.db id s hload
  refine ⟨hstep, by simp, by simp, by simp, hresumes.1, hresumes.2, hsession.filed, hbelow, fun id p hp => Or.inr hp,
    fun p id' hp => ?_⟩
  rcases List.mem_append.mp hp with hp | hp
  · exact Or.inr hp
  · obtain ⟨rfl, rfl⟩ := Prod.mk.inj (List.mem_singleton.mp hp)
    exact Or.inl ⟨rfl, hid⟩

theorem Sound.births (h : st.Sound loadsText) {s : Session} {live : Dict String Nat} {loading : List (Nat × String)}
    (hbirth : st.Births loadsText a pid s backend live loading) :
    Sound loadsText { st.born pid s.seq with backend, live, loading } := by
  obtain ⟨hstep, hcommit, hfail, hwhole, hnone, hobjects, hfiled, hbelow, hlive, hloading⟩ := hbirth
  have hold : ∀ p s, st.backend.objects p = some s → p ≠ pid := by
    rintro p s hs rfl
    cases hnone.symm.trans hs
  have hself : backend.objects pid = some s := by rw [hobjects, Function.update_self]
  have hother : ∀ p, p ≠ pid → backend.objects p = st.backend.objects p := fun p hp => by
    rw [hobjects, Function.update_of_ne hp]
  refine ⟨?_, h.incremental.step h.keeps hstep hwhole, ?_, ?_, ?_, ?_⟩
  · refine h.keeps_step hcommit hstep (fun p s' hs' => ?_) (fun p s' hp hs' => ?_)
    · have hp := hold p s' hs'
      refine ⟨Function.update_of_ne hp _ _, fun hmine => ?_⟩
      rcases hmine with hmine | hmine
      · exact Or.inl ((hlive _ _ hmine).resolve_left (fun hself => hp hself.1))
      · exact Or.inr ((hloading _ _ hmine).resolve_left (fun hself => hp hself.1))
    · by_cases hpid : p = pid
      · subst hpid
        cases hself.symm.trans hs'
        refine ⟨hbelow, fun e he => ?_⟩
        simpa only [born, Function.update_self] using hfiled.bounded e he
      · rw [show Checkpoints.backend { st.born pid s.seq with backend, live, loading } = backend from rfl, hother p hpid, hp] at hs'
        cases hs'
  · intro id p hp
    rcases hlive id p hp with ⟨rfl, hid⟩ | hp
    · exact ⟨s, hself, hid⟩
    · obtain ⟨s', hs', hid⟩ := h.live id p hp
      exact ⟨s', (hother p (hold p s' hs')).trans hs', hid⟩
  · intro p id hp
    simp only [born]
    rcases hloading p id hp with ⟨rfl, hid⟩ | hp
    · exact ⟨s, hself, hid, by rw [Function.update_self], by rw [Function.update_self]⟩
    · obtain ⟨s', hs', hid, hsince, hmark⟩ := h.loading p id hp
      have hne := hold p s' hs'
      refine ⟨s', (hother p hne).trans hs', hid, ?_, ?_⟩
      · rwa [Function.update_of_ne hne]
      · rwa [Function.update_of_ne hne]
  · intro p s' hs'
    simp only [born]
    by_cases hpid : p = pid
    · subst hpid
      cases hself.symm.trans hs'
      rw [Function.update_self]
    · rw [Function.update_of_ne hpid]
      exact h.marked p s' ((hother p hpid).symm.trans hs')
  · intro p s' hs' hfine e he hle
    simp only [born] at hfine he hle
    by_cases hpid : p = pid
    · subst hpid
      rw [Function.update_self] at he hle
      have := (Session.mem_turnsAfter.mp he).2.2
      omega
    · rw [Function.update_of_ne hpid] at hfine he hle
      have hs' := (hother p hpid).symm.trans hs'
      exact (h.covered p s' hs' hfine e he hle).step h.incremental h.keeps hs' (Session.mem_turnsAfter.mp he).1 hstep
        (fun hf => absurd hf hfail)

/-- The tables change: a session becomes live that was to be, or one is live no more. -/
theorem Sound.tables (h : st.Sound loadsText) {live turns : Dict String Nat} {loading : List (Nat × String)}
    (hlive : ∀ id p, live.get? id = some p → st.live.get? id = some p ∨ (p, id) ∈ st.loading)
    (hloading : ∀ p id, (p, id) ∈ loading → (p, id) ∈ st.loading) : Sound loadsText { st with live, turns, loading } := by
  refine ⟨h.keeps.mono (fun p s e _ hvouched hmine => hvouched ?_), h.incremental, fun id p hp => ?_,
    fun p id hp => h.loading p id (hloading p id hp), h.marked, h.covered⟩
  · rcases hmine with hmine | hmine
    · exact hlive _ _ hmine
    · exact Or.inr (hloading _ _ hmine)
  · rcases hlive id p hp with hp | hp
    · exact h.live id p hp
    · obtain ⟨s, hs, hid, -⟩ := h.loading p id hp
      exact ⟨s, hs, hid⟩

theorem Sound.drops (h : st.Sound loadsText) (hstep : st.backend.step loadsText (.drop pid) = some backend)
    (hlive : ∀ id, st.live.get? id ≠ some pid) (hloading : ∀ id, (pid, id) ∉ st.loading) :
    Sound loadsText { st with backend } := by
  have hobjects : backend.objects = Function.update st.backend.objects pid none := by
    cases Backend.does_of_step hstep
    rfl
  have hother : ∀ p, p ≠ pid → backend.objects p = st.backend.objects p := fun p hp => by
    rw [hobjects, Function.update_of_ne hp]
  have hthere : ∀ p s, backend.objects p = some s → st.backend.objects p = some s := by
    intro p s hs
    by_cases hp : p = pid
    · rw [hobjects, hp, Function.update_self] at hs
      cases hs
    · exact (hother p hp).symm.trans hs
  refine ⟨?_, h.incremental.step h.keeps hstep (by simp), ?_, ?_, fun p s hs => h.marked p s (hthere p s hs), ?_⟩
  · refine h.keeps_step (by simp) hstep (fun p s _ => ⟨rfl, id⟩) (fun p s hnone hs => ?_)
    cases hnone.symm.trans (hthere p s hs)
  · intro id p hp
    obtain ⟨s, hs, hid⟩ := h.live id p hp
    exact ⟨s, (hother p (fun heq => hlive id (heq ▸ hp))).trans hs, hid⟩
  · intro p id hp
    obtain ⟨s, hs, hrest⟩ := h.loading p id hp
    exact ⟨s, (hother p (fun heq => hloading id (heq ▸ hp))).trans hs, hrest⟩
  · intro p s hs hfine e he hle
    have hs := hthere p s hs
    exact (h.covered p s hs hfine e he hle).step h.incremental h.keeps hs (Session.mem_turnsAfter.mp he).1 hstep (by simp)

theorem Sound.appends (h : st.Sound loadsText) {c : AppendCall} {s : Session} (hs : st.backend.objects pid = some s)
    (hstep : st.backend.step loadsText (.append pid c) = some backend) (hloading : ∀ id, (pid, id) ∉ st.loading) :
    Sound loadsText { st with backend } := by
  have hobjects : backend.objects = Function.update st.backend.objects pid (some (s.append c).2) := by
    cases Backend.does_of_step hstep with
    | appends hs' =>
      cases hs.symm.trans hs'
      rfl
  have hext := s.extends_append c
  have hgrown : ∀ p s', backend.objects p = some s' → ∃ s, st.backend.objects p = some s ∧ s.Extends s' := by
    intro p s' hs'
    by_cases hp : p = pid
    · subst hp
      rw [hobjects, Function.update_self] at hs'
      cases hs'
      exact ⟨s, hs, hext⟩
    · rw [hobjects, Function.update_of_ne hp] at hs'
      exact ⟨s', hs', .refl s'⟩
  refine ⟨?_, h.incremental.step h.keeps hstep (by simp), ?_, ?_, ?_, ?_⟩
  · refine h.keeps_step (by simp) hstep (fun p s _ => ⟨rfl, id⟩) (fun p s' hnone hs' => ?_)
    obtain ⟨s, hs, -⟩ := hgrown p s' hs'
    cases hnone.symm.trans hs
  · intro id p hp
    obtain ⟨s', hs', hid⟩ := h.live id p hp
    by_cases hpid : p = pid
    · subst hpid
      cases hs.symm.trans hs'
      exact ⟨_, by rw [hobjects, Function.update_self], hext.id.trans hid⟩
    · exact ⟨s', by rw [hobjects, Function.update_of_ne hpid]; exact hs', hid⟩
  · intro p id hp
    obtain ⟨s', hs', hrest⟩ := h.loading p id hp
    have hpid : p ≠ pid := fun heq => hloading id (heq ▸ hp)
    exact ⟨s', by rw [hobjects, Function.update_of_ne hpid]; exact hs', hrest⟩
  · intro p s' hs'
    obtain ⟨s, hs, hext⟩ := hgrown p s' hs'
    exact Nat.le_trans (h.marked p s hs) hext.seq
  · intro p s' hs' hfine e he hle
    obtain ⟨s, hs, hext⟩ := hgrown p s' hs'
    obtain ⟨he, hturn, hsince⟩ := Session.mem_turnsAfter.mp he
    -- the event is not the new one, which is above the mark
    have he := hext.mem_of_le he (Nat.le_trans hle (h.marked p s hs))
    exact (h.covered p s hs hfine e (Session.mem_turnsAfter.mpr ⟨he, hturn, hsince⟩) hle).step h.incremental h.keeps hs he hstep
      (by simp)

theorem Sound.asks (h : st.Sound loadsText) {s : Session} (hs : st.backend.objects pid = some s)
    (hstep : st.backend.step loadsText (.flush pid false) = some backend) :
    Sound loadsText { st with backend, mark := Function.update st.mark pid s.seq } := by
  have hmoved : Sound loadsText { st with backend } := by
    have hobjects := Backend.objects_of_still rfl hstep
    refine h.moves hstep rfl ?_ (fun p hfine => ⟨hfine, by simp⟩)
    refine h.keeps_step (by simp) hstep (fun p s _ => ⟨rfl, id⟩) (fun p s hnone hs => ?_)
    rw [← hobjects] at hnone
    cases hnone.symm.trans hs
  have hqueued : backend.objects = st.backend.objects ∧ ∃ f ∈ backend.waiting, f.pid = pid := by
    cases Backend.does_of_step hstep
    exact ⟨rfl, _, List.mem_append_right _ List.mem_cons_self, rfl⟩
  obtain ⟨hobjects, f, hf, hfpid⟩ := hqueued
  refine ⟨hmoved.keeps, hmoved.incremental, hmoved.live, ?_, ?_, ?_⟩
  · intro p id hp
    obtain ⟨s', hs', hid, hsince, hmark⟩ := hmoved.loading p id hp
    refine ⟨s', hs', hid, hsince, ?_⟩
    by_cases hpid : p = pid
    · subst hpid
      cases hs.symm.trans (hobjects ▸ hs' : st.backend.objects p = some s')
      simp only [Function.update_self, Nat.le_refl]
    · simpa only [Function.update_of_ne hpid] using hmark
  · intro p s' hs'
    by_cases hpid : p = pid
    · subst hpid
      cases hs.symm.trans (hobjects ▸ hs' : st.backend.objects p = some s')
      simp only [Function.update_self, Nat.le_refl]
    · simpa only [Function.update_of_ne hpid] using hmoved.marked p s' hs'
  · intro p s' hs' hfine e he hle
    by_cases hpid : p = pid
    · exact .waiting hf (hfpid.trans hpid.symm)
    · simp only [Function.update_of_ne hpid] at hle
      exact hmoved.covered p s' hs' hfine e he hle

/-- A session that has no turn since its last checkpoint, or the turns and the place it had before, keeps to the count of its id. -/
theorem Counted.mono (h : st.Counted policy) (hturns : st'.turns = st.turns)
    (hsame : ∀ id p s', st'.live.get? id = some p → st'.backend.objects p = some s' → s'.turnsAfter (st'.mark p) = [] ∨
      st.live.get? id = some p ∧ ∃ s, st.backend.objects p = some s ∧ s'.turnsAfter (st'.mark p) = s.turnsAfter (st.mark p)) :
    st'.Counted policy := by
  intro id p s' hp hs'
  unfold count
  rw [hturns]
  rcases hsame id p s' hp hs' with hnil | ⟨hp, s, hs, heq⟩
  · rw [hnil]
    exact Nat.zero_le _
  · rw [heq]
    exact h id p s hp hs

/-- What every run keeps whose steps are untouched. -/
structure Inv (loadsText : String → Option (List (PyKey × PyValue))) (policy : CheckpointPolicy) (st : Checkpoints) : Prop where
  sound : st.Sound loadsText
  counted : st.Counted policy

theorem Inv.opened (db : Database) : (opened db).Inv loadsText policy := by
  refine ⟨⟨.opened _ db, .opened db, ?_, ?_, ?_, ?_⟩, fun id p s hp => ?_⟩
  · intro id p hp
    cases hp
  · intro p id hp
    cases hp
  · intro p s hs
    cases hs
  · intro p s hs
    cases hs
  · cases hp

theorem Inv.moves (h : st.Inv loadsText policy) {failed : Nat → Bool} (hstep : st.backend.step loadsText a = some backend)
    (hstill : a.still = true) (hkeeps : a ≠ .commit ∨ backend.Keeps (Vouched loadsText { st with backend, failed }))
    (hfailed : ∀ pid, failed pid = false → st.failed pid = false ∧
      (a = .fail → ∀ f, st.backend.phase.call? = some f → f.pid ≠ pid)) :
    Inv loadsText policy { st with backend, failed } := by
  have hobjects := Backend.objects_of_still hstill hstep
  refine ⟨h.sound.moves hstep hstill ?_ hfailed, h.counted.mono rfl (fun id p s' hp hs' => ?_)⟩
  · rcases hkeeps with hcommit | hkeeps
    · refine h.sound.keeps_step hcommit hstep (fun p s _ => ⟨rfl, id⟩) (fun p s hnone hs => ?_)
      rw [← hobjects] at hnone
      cases hnone.symm.trans hs
    · exact hkeeps
  · exact Or.inr ⟨hp, s', hobjects ▸ hs', rfl⟩

theorem Inv.births (h : st.Inv loadsText policy) {s : Session} {live : Dict String Nat} {loading : List (Nat × String)}
    (hbirth : st.Births loadsText a pid s backend live loading) :
    Inv loadsText policy { st.born pid s.seq with backend, live, loading } := by
  refine ⟨h.sound.births hbirth, h.counted.mono rfl (fun id p s' hp hs' => ?_)⟩
  simp only [born, hbirth.objects] at hs' ⊢
  by_cases hpid : p = pid
  · subst hpid
    rw [Function.update_self] at hs' ⊢
    cases hs'
    exact Or.inl (hbirth.filed.turnsAfter_eq_nil (Nat.le_refl _))
  · rw [Function.update_of_ne hpid] at hs' ⊢
    exact Or.inr ⟨(hbirth.live id p hp).resolve_left (fun hself => hpid hself.1), s', hs', rfl⟩

theorem Inv.tables (h : st.Inv loadsText policy) {live : Dict String Nat} {loading : List (Nat × String)}
    (hlive : ∀ id p, live.get? id = some p → st.live.get? id = some p ∨ (p, id) ∈ st.loading)
    (hloading : ∀ p id, (p, id) ∈ loading → (p, id) ∈ st.loading) : Inv loadsText policy { st with live, loading } := by
  refine ⟨h.sound.tables hlive hloading, h.counted.mono rfl (fun id p s hp hs => ?_)⟩
  rcases hlive id p hp with hp | hp
  · exact Or.inr ⟨hp, s, hs, rfl⟩
  · obtain ⟨s', hs', -, -, hmark⟩ := h.sound.loading p id hp
    cases hs.symm.trans hs'
    exact Or.inl ((h.sound.keeps.object p s hs).1.turnsAfter_eq_nil hmark)

theorem Inv.commit (h : st.Inv loadsText policy) (hok : st.Untouched loadsText policy .commit)
    (hstep : st.backend.step loadsText .commit = some backend) : Inv loadsText policy { st with backend } := by
  have hdone := Backend.does_of_step hstep
  refine h.moves hstep rfl (Or.inr ?_) (fun p hfine => ⟨hfine, by simp⟩)
  cases hdone with
  | @commits f snapshot db hphase hwrite =>
    have hok' := h.sound.keeps.phase
    unfold Backend.PhaseOk at hok'
    rw [hphase] at hok'
    obtain ⟨hfiled, -, -, -, s, hs, hext⟩ := hok'
    have hsub := f.events_sublist st.backend.persisted snapshot
    have hnodup := hfiled.seqs_nodup hsub
    refine h.sound.keeps.commit hphase db (fun e he _ _ _ => stores_written hwrite hnodup he) ?_
    intro p s' hs' e he hseq hvouched hmine hturn hsince
    refine stores_kept hwrite hnodup (hvouched hmine hturn hsince) (fun hid e' he' hseq' => ?_)
    by_cases hp : p = f.pid
    · -- the session's own log has one event for a seq
      subst hp
      cases hs.symm.trans hs'
      exact (h.sound.keeps.object f.pid s hs).1.event_unique (hext.mem (hsub.subset he')) he hseq'
    · rcases hmine with hmine | hmine
      · exact hok f snapshot hphase p s' (hid ▸ hmine) hp hs' e (Session.mem_turnsAfter.mpr ⟨he, hturn, hsince⟩) hseq e' he' hseq'
      · -- nothing was appended to a session that is to be installed
        obtain ⟨s'', hs'', -, hle, -⟩ := h.sound.loading p s'.id hmine
        cases hs'.symm.trans hs''
        have := (h.sound.keeps.object p s' hs').1.bounded e he
        have hsince : st.since p < e.seq := hsince
        omega

theorem not_held : ¬st.held pid = true ↔ ∀ id, (pid, id) ∉ st.loading := by
  simp only [held, List.any_eq_true, beq_iff_eq, not_exists, not_and, Prod.forall]
  exact ⟨fun h id hmem => h pid id hmem rfl, fun h p id hmem heq => h id (heq ▸ hmem)⟩

theorem count_of_turns (st : Checkpoints) {id : String} {n : Nat} (h : st'.turns = st.turns.set id n) (id' : String) :
    st'.count id' = if id' = id then n else st.count id' := by
  unfold count
  rw [h, Dict.get?_set]
  split
  · rfl
  · rfl

/-- A count that comes to no multiple is one more past the last. -/
theorem succ_mod_of_ne_zero {t n : Nat} (hpos : 1 ≤ n) (h : (t + 1) % n ≠ 0) : (t + 1) % n = t % n + 1 := by
  have hlt : t % n < n := Nat.mod_lt t hpos
  have hmod : (t + 1) % n = (t % n + 1) % n := by rw [Nat.mod_add_mod]
  rcases Nat.lt_or_eq_of_le (Nat.succ_le_of_lt hlt) with hless | heq
  · rw [hmod, Nat.mod_eq_of_lt hless]
  · rw [hmod, show t % n + 1 = n from heq, Nat.mod_self] at h
    exact absurd rfl h

/-- What `append` does: the log has no turn's end more, or has one that counts, or one with which a checkpoint is asked for. -/
inductive Appends (loadsText : String → Option (List (PyKey × PyValue))) (policy : CheckpointPolicy) (st : Checkpoints) (pid : Nat)
    (c : AppendCall) (s : Session) (backend : Backend) : Checkpoints → Prop where
  | quiet (hquiet : ∀ seq, (s.append c).2.turnsAfter seq = s.turnsAfter seq) :
      Appends loadsText policy st pid c s backend { st with backend }
  | counts {event : SessionEvent} (hevents : (s.append c).2.events = s.events ++ [event])
      (hless : (st.count s.id + 1) % policy.everyTurns ≠ 0) :
      Appends loadsText policy st pid c s backend { st with backend, turns := st.turns.set s.id (st.count s.id + 1) }
  | asks {event : SessionEvent} {queued : Backend} (hreturns : (s.append c).1 = .ok event) (hturn : event.type = .turnEnd)
      (hzero : (st.count s.id + 1) % policy.everyTurns = 0)
      (hqueued : backend.step loadsText (.flush pid false) = some queued) :
      Appends loadsText policy st pid c s backend { st with
        backend := queued
        turns := st.turns.set s.id (st.count s.id + 1)
        mark := Function.update st.mark pid (s.append c).2.seq }

theorem appends_of_append {c : AppendCall} (hstep : st.append loadsText policy pid c = some st') :
    ∃ s backend, st.backend.objects pid = some s ∧ st.backend.step loadsText (.append pid c) = some backend ∧
      st.Appends loadsText policy pid c s backend st' := by
  obtain ⟨s, hs, hstep⟩ := Option.bind_eq_some_iff.mp hstep
  obtain ⟨st₁, hadvance, hstep⟩ := Option.bind_eq_some_iff.mp hstep
  obtain ⟨backend, hbackend, rfl⟩ := Option.map_eq_some_iff.mp hadvance
  refine ⟨s, backend, hs, hbackend, ?_⟩
  rcases append_turns s c with ⟨event, s', happ, hturn, hevents, -, -, hid⟩ | ⟨hquiet, hno⟩
  · have hcount : count { st with backend, turns := st.turns.set s.id (st.count s.id + 1) } s.id = st.count s.id + 1 :=
      (count_of_turns _ rfl s.id).trans (if_pos rfl)
    simp only [happ, onEvent, hturn, ne_eq, not_true_eq_false, if_false, hid] at hstep
    split at hstep
    · rename_i hless
      obtain rfl := Option.some.inj hstep
      exact .counts (by rw [happ]; exact hevents) (hcount ▸ hless)
    · rename_i hzero
      obtain ⟨queued, hqueued, rfl⟩ := Option.map_eq_some_iff.mp hstep
      have hasks : st.Appends loadsText policy pid c s backend _ :=
        .asks (by rw [happ]) hturn (hcount ▸ not_not.mp hzero) hqueued
      rwa [happ] at hasks
  · cases happ : s.append c with
    | mk result s' =>
      rw [happ] at hstep
      cases result with
      | error e =>
        obtain rfl := Option.some.inj hstep
        exact .quiet hquiet
      | ok event =>
        simp only [onEvent, ne_eq, hno event s' happ, not_false_eq_true, if_true] at hstep
        obtain rfl := Option.some.inj hstep
        exact .quiet hquiet

theorem Inv.append (h : st.Inv loadsText policy) {c : AppendCall} (hloading : ∀ id, (pid, id) ∉ st.loading)
    (hok : st.Untouched loadsText policy (.append pid c)) (hstep : st.append loadsText policy pid c = some st') :
    st'.Inv loadsText policy := by
  obtain ⟨s, backend, hs, hbackend, happends⟩ := appends_of_append hstep
  have hsound := h.sound.appends hs hbackend hloading
  have hself : backend.objects pid = some (s.append c).2 := by
    cases Backend.does_of_step hbackend with
    | appends hs' =>
      cases hs.symm.trans hs'
      exact Function.update_self ..
  have hother : ∀ p, p ≠ pid → backend.objects p = st.backend.objects p := by
    intro p hp
    cases Backend.does_of_step hbackend
    exact Function.update_of_ne hp ..
  have hid : ∀ id, st.live.get? id = some pid → id = s.id := by
    intro id hp
    obtain ⟨s', hs', hid⟩ := h.sound.live id pid hp
    cases hs.symm.trans hs'
    exact hid.symm
  cases happends with
  | quiet hquiet =>
    refine ⟨hsound, h.counted.mono rfl (fun id p s' hp hs' => ?_)⟩
    by_cases hpid : p = pid
    · subst hpid
      cases hself.symm.trans hs'
      exact Or.inr ⟨hp, s, hs, hquiet _⟩
    · exact Or.inr ⟨hp, s', (hother p hpid).symm.trans hs', rfl⟩
  | @counts event hevents hless =>
    refine ⟨hsound.tables (fun _ _ hp => Or.inl hp) (fun _ _ hp => hp), fun id p s' hp hs' => ?_⟩
    rw [count_of_turns st rfl id]
    by_cases hpid : p = pid
    · subst hpid
      cases hself.symm.trans hs'
      have hold := h.counted id p s hp hs
      rw [hid id hp] at hold
      rw [if_pos (hid id hp), succ_mod_of_ne_zero policy.positive hless, Session.turnsAfter_of_events hevents]
      split
      · rw [List.length_append, List.length_singleton]
        exact Nat.succ_le_succ hold
      · exact Nat.le_succ_of_le hold
    · have hold := h.counted id p s' hp ((hother p hpid).symm.trans hs')
      split
      · rename_i heq
        rw [heq] at hold
        rw [succ_mod_of_ne_zero policy.positive hless]
        exact Nat.le_succ_of_le hold
      · exact hold
  | @asks event queued hreturns hturn hzero hqueued =>
    have hturns : Sound loadsText { st with backend, turns := st.turns.set s.id (st.count s.id + 1) } :=
      hsound.tables (fun _ _ hp => Or.inl hp) (fun _ _ hp => hp)
    refine ⟨hturns.asks hself hqueued, fun id p s' hp hqueue => ?_⟩
    have hobjects := Backend.objects_of_still rfl hqueued
    have hs' : backend.objects p = some s' := hobjects ▸ hqueue
    rw [count_of_turns st rfl id]
    by_cases hpid : p = pid
    · subst hpid
      cases hself.symm.trans hs'
      simp only [Function.update_self, (hsound.keeps.object p _ hself).1.turnsAfter_eq_nil (Nat.le_refl _), List.length_nil,
        Nat.zero_le]
    · simp only [Function.update_of_ne hpid]
      have hs' := (hother p hpid).symm.trans hs'
      split
      · -- the object that was appended to has taken the checkpoint
        rename_i heq
        rw [hok s event hs hreturns hturn hzero p s' (heq ▸ hp) hpid hs']
        exact Nat.zero_le _
      · exact h.counted id p s' hp hs'

theorem Inv.step (h : st.Inv loadsText policy) {a : CheckpointAction} (hok : st.Untouched loadsText policy a)
    (hstep : st.step loadsText policy a = some st') : st'.Inv loadsText policy := by
  cases a with
  | create pid id createdAt cwd =>
    simp only [Checkpoints.step] at hstep
    split at hstep
    · cases hstep
    · obtain ⟨backend, hbackend, rfl⟩ := Option.map_eq_some_iff.mp hstep
      exact h.births (births_of_create hok hbackend)
  | load pid id =>
    simp only [Checkpoints.step] at hstep
    split at hstep
    · rename_i s hload
      obtain ⟨backend, hbackend, rfl⟩ := Option.map_eq_some_iff.mp hstep
      exact h.births (births_of_load hload (hok s hload) hbackend)
    · cases hstep
  | install pid id =>
    simp only [Checkpoints.step] at hstep
    split at hstep
    · rename_i hmem
      obtain rfl := Option.some.inj hstep
      refine h.tables (fun id' p hp => ?_) (fun p id' hp => List.mem_of_mem_erase hp)
      rw [Dict.get?_set] at hp
      split at hp
      · rename_i heq
        cases hp
        exact Or.inr (heq ▸ hmem)
      · exact Or.inl hp
    · cases hstep
  | remove id =>
    obtain rfl := Option.some.inj hstep
    refine h.tables (fun id' p hp => ?_) (fun p id' hp => hp)
    rw [Dict.get?_pop] at hp
    split at hp
    · cases hp
    · exact Or.inl hp
  | drop pid =>
    simp only [Checkpoints.step] at hstep
    split at hstep
    · cases hstep
    · rename_i hfree
      obtain ⟨backend, hbackend, rfl⟩ := Option.map_eq_some_iff.mp hstep
      rw [Bool.or_eq_true, not_or, not_held, List.any_eq_true] at hfree
      obtain ⟨hloading, hfree⟩ := hfree
      have hlive : ∀ id, st.live.get? id ≠ some pid := fun id hp => hfree ⟨_, Dict.get?_eq_some.mp hp, beq_self_eq_true pid⟩
      refine ⟨h.sound.drops hbackend hlive hloading, h.counted.mono rfl (fun id p s hp hs => ?_)⟩
      have hpid : p ≠ pid := fun heq => hlive id (heq ▸ hp)
      cases Backend.does_of_step hbackend
      exact Or.inr ⟨hp, s, by simpa only [Function.update_of_ne hpid] using hs, rfl⟩
  | append pid c =>
    simp only [Checkpoints.step] at hstep
    split at hstep
    · cases hstep
    · rename_i hheld
      exact h.append (not_held.mp hheld) hok hstep
  | flush pid =>
    simp only [Checkpoints.step] at hstep
    split at hstep
    · cases hstep
    · obtain ⟨backend, hbackend, rfl⟩ := Option.map_eq_some_iff.mp hstep
      exact h.moves hbackend rfl (Or.inl (by simp))
        (fun p hfine => ⟨hfine, by simp⟩)
  | start n =>
    obtain ⟨backend, hbackend, rfl⟩ := Option.map_eq_some_iff.mp hstep
    exact h.moves hbackend rfl (Or.inl (by simp))
      (fun p hfine => ⟨hfine, by simp⟩)
  | commit =>
    obtain ⟨backend, hbackend, rfl⟩ := Option.map_eq_some_iff.mp hstep
    exact h.commit hok hbackend
  | fail =>
    simp only [Checkpoints.step] at hstep
    split at hstep
    · cases hstep
    · rename_i f hf
      obtain ⟨backend, hbackend, rfl⟩ := Option.map_eq_some_iff.mp hstep
      refine h.moves hbackend rfl (Or.inl (by simp)) (fun p hfine => ?_)
      have hne : p ≠ f.pid := by
        rintro rfl
        simp only [Function.update_self, Bool.true_eq_false] at hfine
      simp only [Function.update_of_ne hne] at hfine
      refine ⟨hfine, fun _ f' hf' heq => hne ?_⟩
      cases hf.symm.trans hf'
      exact heq.symm
  | record =>
    obtain ⟨backend, hbackend, rfl⟩ := Option.map_eq_some_iff.mp hstep
    exact h.moves hbackend rfl (Or.inl (by simp))
      (fun p hfine => ⟨hfine, by simp⟩)

end Checkpoints

/-- In every run from an opened database in which no new object has a watermark above its seq, no write replaces a turn's end that the
watermark of the live session covers, and no other object of its id takes a checkpoint from a live session that has turns since its last
one: fewer than `every_turns` of the turns that ended in a live session since it was made are missing from storage, when none of its
flushes is in flight and none failed. -/
theorem checkpoints_bounded (policy : CheckpointPolicy) (db : Database) {st : Checkpoints}
    (h : Machine.Reach (Checkpoints.step loadsText policy) (Checkpoints.Untouched loadsText policy) (.opened db) st) :
    st.Bounded loadsText policy :=
  have hinv : st.Inv loadsText policy := h.invariant (.opened db) (fun _ _ _ hinv hok hstep => hinv.step hok hstep)
  hinv.sound.bounded hinv.counted

/-- What is appended to and written is the live session of its id, and a new object has no watermark. -/
def Checkpoints.onlyLive (st : Checkpoints) : CheckpointAction → Bool
  | .create pid _ _ _ => st.backend.persisted pid == 0
  | .load pid _ => st.backend.persisted pid == 0
  | .append pid _ => (st.backend.objects pid).all (fun s => st.live.get? s.id == some pid)
  | .commit =>
    match st.backend.phase with
    | .writing f snapshot => st.live.get? snapshot.id == some f.pid
    | _ => true
  | _ => true

theorem Checkpoints.untouched_of_onlyLive {st : Checkpoints} {a : CheckpointAction} (h : st.onlyLive a = true) :
    st.Untouched loadsText policy a := by
  cases a with
  | create pid id createdAt cwd => exact eq_of_beq h
  | load pid id => exact fun s _ => Nat.le_trans (Nat.le_of_eq (eq_of_beq h)) (Nat.zero_le _)
  | append pid c =>
    intro s event hs _ _ _ other s' hlive hne
    simp only [onlyLive, hs, Option.all_some, beq_iff_eq] at h
    rw [h] at hlive
    exact absurd (Option.some.inj hlive).symm hne
  | commit =>
    intro f snapshot hphase pid s hlive hne
    simp only [onlyLive, hphase, beq_iff_eq] at h
    rw [h] at hlive
    exact absurd (Option.some.inj hlive).symm hne
  | install | remove | drop | flush | start | fail | record => trivial

namespace TurnChain

/-- A turn ends. -/
def turn (time : Rat) : AppendCall := { eventType := .turnEnd, data := (Json.obj [("turn", .int 1)]).loads, time }

/-- A flush is over. -/
def flushed : List CheckpointAction := [.start 0, .commit, .record]

/-- With a checkpoint at every second turn, a session has two, and is flushed; it is removed, resumed as object 2, and has one more. -/
def resumed : List CheckpointAction :=
  [.create 1 "chat-1" 0 none, .append 1 (turn 1), .append 1 (turn 2)] ++ flushed ++
    [.remove "chat-1", .drop 1, .load 2 "chat-1", .install 2 "chat-1", .append 2 (turn 3)]

end TurnChain

open TurnChain SameId in
theorem checkpoints_bounded_resumed : ∃ st, Machine.exec (Checkpoints.step noText ⟨2, by decide⟩) (.opened .empty) resumed = some st ∧
    st.live.get? "chat-1" = some 2 ∧ st.Bounded noText ⟨2, by decide⟩ := by
  have hruns : (Machine.execIf (Checkpoints.step noText ⟨2, by decide⟩) (fun st a => st.onlyLive a = true) (.opened .empty) resumed).any
      (fun st => st.live.get? "chat-1" = some 2) = true := by decide +kernel
  obtain ⟨st, hst, hlive⟩ := (Option.any_eq_true _ _).mp hruns
  refine ⟨st, (Machine.meets_of_execIf hst).1, of_decide_eq_true hlive, checkpoints_bounded ⟨2, by decide⟩ .empty ?_⟩
  exact (Machine.Reach.execIf .start hst).mono (fun _ _ => Checkpoints.untouched_of_onlyLive)

/-! ## Runs with lost turns -/

/-- No flush is in flight and none of the live session failed, there are `every_turns` turns in it, and no row is of the time of one. -/
def Checkpoints.lost (st : Checkpoints) (policy : CheckpointPolicy) (id : String) : Bool :=
  match st.live.get? id with
  | none => false
  | some pid =>
    match st.backend.objects pid with
    | none => false
    | some s =>
      st.backend.waiting.isEmpty && st.backend.phase.call?.isNone && !st.failed pid &&
        decide (policy.everyTurns ≤ (s.turnsAfter (st.since pid)).length) &&
        (s.turnsAfter (st.since pid)).all (fun e =>
          st.backend.db.events.rows.all (fun r => decide (¬(r.sessionId = s.id ∧ r.seq = e.seq ∧ r.time = e.time))))

theorem Checkpoints.missing_eq_of_none_stored {st : Checkpoints} {pid : Nat} {s : Session}
    (h : ∀ e ∈ s.turnsAfter (st.since pid), ¬st.backend.db.Stores loadsText s.id e) :
    st.missing loadsText pid s = s.turnsAfter (st.since pid) := by
  unfold missing
  exact List.filter_eq_self.mpr (fun e he => by simpa using h e he)

theorem Checkpoints.not_bounded_of_lost {st : Checkpoints} {id : String} (h : st.lost policy id = true) :
    ¬st.Bounded loadsText policy := by
  unfold lost at h
  split at h
  · cases h
  · rename_i pid hlive
    split at h
    · cases h
    · rename_i s hs
      simp only [Bool.and_eq_true, List.isEmpty_iff, Option.isNone_iff_eq_none, Bool.not_eq_true', decide_eq_true_eq,
        List.all_eq_true] at h
      obtain ⟨⟨⟨⟨hwaiting, hphase⟩, hfailed⟩, hmany⟩, hrows⟩ := h
      intro hbounded
      have hflight : ¬st.InFlight pid := by
        rintro ⟨f, hf | hf, -⟩
        · rw [hwaiting] at hf
          cases hf
        · rw [hphase] at hf
          cases hf
      have hall : st.missing loadsText pid s = s.turnsAfter (st.since pid) := by
        refine missing_eq_of_none_stored (fun e he hstored => ?_)
        obtain ⟨r, hr, hid, hseq, hrow⟩ := hstored
        refine hrows e he r hr ⟨hid, hseq, ?_⟩
        rcases hrow with hencode | hdecode
        · obtain ⟨cell, -, rfl⟩ := Option.map_eq_some_iff.mp hencode
          rfl
        · exact congrArg SessionEvent.time hdecode
      have := hbounded id pid s hlive hs hflight hfailed
      rw [hall] at this
      omega

namespace LostTurns

open TurnChain

/-- With a checkpoint at every turn: a session is created as object 1, has a turn, is flushed and removed; and the next session object
has its identity, and has a turn. -/
def inherited : List CheckpointAction :=
  [.create 1 "chat-1" 0 none, .append 1 (turn 1)] ++ flushed ++
    [.remove "chat-1", .drop 1, .create 1 "chat-2" 0 none, .append 1 (turn 2)] ++ flushed

/-- With a checkpoint at every second turn: a session is created, removed, and created again; the new one has a turn, and the removed one
has the second, with which it is flushed; and the new one has another. -/
def taken : List CheckpointAction :=
  [.create 1 "chat-1" 0 none, .remove "chat-1", .create 2 "chat-1" 0 none, .append 2 (turn 1), .append 1 (turn 2)] ++ flushed ++
    [.append 2 (turn 3)]

end LostTurns

open LostTurns TurnChain SameId in
/-- Both runs end with no flush in flight and none that failed, and no turn of the live session is stored. -/
theorem checkpoints_not_bounded :
    (∃ policy st, CheckpointPolicy.new [("every_turns", .int 1)] = .ok policy ∧
      Machine.exec (Checkpoints.step noText policy) (.opened .empty) inherited = some st ∧ ¬st.Bounded noText policy) ∧
    ∃ policy st, CheckpointPolicy.new [("every_turns", .int 2)] = .ok policy ∧
      Machine.exec (Checkpoints.step noText policy) (.opened .empty) taken = some st ∧ ¬st.Bounded noText policy := by
  have hinherited : (Machine.exec (Checkpoints.step noText ⟨1, by decide⟩) (.opened .empty) inherited).any
      (fun st => st.lost ⟨1, by decide⟩ "chat-2") = true := by decide +kernel
  have htaken : (Machine.exec (Checkpoints.step noText ⟨2, by decide⟩) (.opened .empty) taken).any
      (fun st => st.lost ⟨2, by decide⟩ "chat-1") = true := by decide +kernel
  obtain ⟨st, hst, hlost⟩ := (Option.any_eq_true _ _).mp hinherited
  obtain ⟨st', hst', hlost'⟩ := (Option.any_eq_true _ _).mp htaken
  exact ⟨⟨_, st, rfl, hst, Checkpoints.not_bounded_of_lost hlost⟩, _, st', rfl, hst', Checkpoints.not_bounded_of_lost hlost'⟩

end Pydsh
