import Pydsh.Lib.Machine
import Pydsh.Session.Append

/-!
# The inbox

`agent/inbox.py`: the two queues of pending input, the splices that change them, and `replay`, which rebuilds the queues from the
splices in a session's log. Every splice is logged before it is applied, and the log's listeners run in between.

An agent begins with empty queues whatever its session's log says, so a resumed agent forgets what was pending
(`forgotten_input`). Where the log replays to empty queues to begin with, the queues stay what the log replays to as long as each
splice that is applied inside the broadcast of others commutes with them (`inbox_replays`).
-/

namespace Pydsh

/-- The keys of `_queues`. -/
inductive Target where
  | nextTurn | nextStep
  deriving DecidableEq

/-- `NEXT_TURN` and `NEXT_STEP`. -/
def Target.value : Target → String
  | .nextTurn => "next-turn"
  | .nextStep => "next-step"

/-- The queue with a name; `none` for a name that is no queue's. -/
def Target.named (name : String) : Option Target :=
  if name = "next-turn" then some .nextTurn else if name = "next-step" then some .nextStep else none

/-- `_queues`. -/
structure Queues (α : Type) where
  nextTurn : List α := []
  nextStep : List α := []

/-- Where a Python slice bound falls in a list. -/
def sliceIndex (length : Nat) (i : Int) : Nat := if i < 0 then (length + i).toNat else min i.toNat length

/-- `xs[start:stop] = ys`. -/
def sliceAssign {α : Type} (xs : List α) (start stop : Int) (ys : List α) : List α :=
  let first := sliceIndex xs.length start
  xs.take first ++ ys ++ xs.drop (max first (sliceIndex xs.length stop))

namespace Queues

variable {α : Type}

/-- `_queues[target]`. -/
def get (q : Queues α) : Target → List α
  | .nextTurn => q.nextTurn
  | .nextStep => q.nextStep

/-- The queues with one of them changed. -/
def modify (q : Queues α) (target : Target) (f : List α → List α) : Queues α :=
  match target with
  | .nextTurn => { q with nextTurn := f q.nextTurn }
  | .nextStep => { q with nextStep := f q.nextStep }

/-- `has_pending`. -/
def hasPending (q : Queues α) : Bool := !(q.nextTurn.isEmpty && q.nextStep.isEmpty)

end Queues

/-- The arguments of one `_splice`. -/
structure InboxSplice where
  target : Target
  start : Nat
  removedCount : Nat
  inserted : List Message

namespace InboxSplice

/-- Nothing in, nothing out. -/
def isNoop (sp : InboxSplice) : Bool := sp.inserted.isEmpty && sp.removedCount == 0

/-- The data of the event that records it. -/
def toJson (sp : InboxSplice) : Json :=
  .obj ([("target", .str sp.target.value), ("start", .int sp.start), ("inserted", .arr (sp.inserted.map Message.toJson))] ++
    (if sp.removedCount = 0 then []
      else ("removedCount", .int sp.removedCount) :: (if sp.inserted.isEmpty then [("outcome", .str "canceled")] else [])))

/-- The change itself. -/
def apply (sp : InboxSplice) (q : Queues PyValue) : Queues PyValue :=
  q.modify sp.target (fun queue => sliceAssign queue sp.start (sp.start + sp.removedCount) (sp.inserted.map Message.toPy))

end InboxSplice

/-! ## Replay -/

/-- Why `Inbox.replay` raises. -/
inductive ReplayError where
  /-- `KeyError`: the event has no such field. -/
  | missing (key : String)
  /-- `KeyError`: a target that is no queue. -/
  | unknownTarget
  /-- `TypeError`: data that is no dict, a target that cannot be a key, a position that is no int, or what is inserted is not
  iterable. -/
  | shape
  /-- What `decode_payload` raises. -/
  | payload (e : PayloadError)

/-- An int in a document; a bool is one. -/
def Json.index? : Json → Option Int
  | .int i => some i
  | .bool b => some b.toNat
  | _ => none

/-- One `agent/inbox/spliced` event, applied. -/
def replaySplice (q : Queues PyValue) : Json → Except ReplayError (Queues PyValue)
  | .obj kvs =>
    match field? kvs "target" with
    | none => .error (.missing "target")
    | some (.str name) =>
      match Target.named name with
      | none => .error .unknownTarget
      | some target =>
        match field? kvs "start" with
        | none => .error (.missing "start")
        | some start =>
          match field? kvs "inserted" with
          | none => .error (.missing "inserted")
          | some inserted =>
            match decodeIter inserted with
            | .error e => .error (.payload e)
            | .ok inserted =>
              match start.index?, ((field? kvs "removedCount").getD (.int 0)).index? with
              | some start, some removedCount =>
                .ok (q.modify target (fun queue => sliceAssign queue start (start + removedCount) inserted))
              | _, _ => .error .shape
    | some (.arr _) => .error .shape
    | some (.obj _) => .error .shape
    | some _ => .error .unknownTarget
  | _ => .error .shape

/-- The splices of some events, applied one after another. -/
def replayFrom (q : Queues PyValue) : List SessionEvent → Except ReplayError (Queues PyValue)
  | [] => .ok q
  | event :: events =>
    if event.type = .inboxSpliced then
      match replaySplice q event.data with
      | .error e => .error e
      | .ok q => replayFrom q events
    else replayFrom q events

/-- `Inbox.replay`. -/
def replay (s : Session) : Except ReplayError (Queues PyValue) := replayFrom {} s.events

theorem decodeList_toJson (ms : List Message) : decodeList (ms.map Message.toJson) = .ok (ms.map Message.toPy) := by
  induction ms with
  | nil => rfl
  | cons m ms ih => simp [decodeList, decodePayload_message, ih, bind, Except.bind, pure, Except.pure]

theorem Target.named_value (target : Target) : Target.named target.value = some target := by
  cases target <;> rfl

theorem replaySplice_toJson (q : Queues PyValue) (sp : InboxSplice) : replaySplice q sp.toJson = .ok (sp.apply q) := by
  have hinserted : decodeIter (.arr (sp.inserted.map Message.toJson)) = .ok (sp.inserted.map Message.toPy) := by
    simp [decodeIter, decodeList_toJson]
  unfold InboxSplice.toJson replaySplice InboxSplice.apply
  by_cases hremoved : sp.removedCount = 0
  · simp [Target.named_value, hinserted, hremoved, Json.index?]
  · by_cases hempty : sp.inserted.isEmpty = true <;>
      simp [Target.named_value, hinserted, hremoved, hempty, Json.index?]

theorem replayFrom_append (q : Queues PyValue) (events : List SessionEvent) (e : SessionEvent) :
    replayFrom q (events ++ [e]) = (replayFrom q events).bind (fun q => replayFrom q [e]) := by
  induction events generalizing q with
  | nil => rfl
  | cons event events ih =>
    simp only [List.cons_append, replayFrom]
    split
    · cases replaySplice q event.data with
      | error e => rfl
      | ok q => exact ih q
    · exact ih q

/-! ## The live inbox -/

/-- What an operation has left to do: the splice it has logged, or its second splice. -/
inductive InboxFrame where
  | logged (sp : InboxSplice)
  | claimTurn
  | clearTurn

/-- The splice that is logged and not applied. -/
def InboxFrame.splice? : InboxFrame → Option InboxSplice
  | .logged sp => some sp
  | _ => none

/-- An inbox over its session: the queues, and the operations in progress, the innermost first. An operation that a listener calls
while another's event is broadcast runs to its end before that one goes on. -/
structure InboxState where
  session : Session
  queues : Queues PyValue := {}
  frames : List InboxFrame := []

/-- The operations of `Inbox`. -/
inductive InboxCall where
  | append (target : String) (message : Message)
  | prepend (target : String) (message : Message)
  | claim (target : String)
  | remove (messageId : String)
  | clear

/-- What happens: an operation begins; the innermost operation goes on; other code appends to the session; or what is no `Exception`
leaves a listener, and with it every operation in progress. -/
inductive InboxAction where
  | call (c : InboxCall) (time : Rat)
  | go (time : Rat)
  | other (c : AppendCall)
  | interrupt

/-- `getattr(m, "id", None) == message_id`. -/
def hasId (messageId : String) : PyValue → Bool
  | .message (.str id) _ _ _ => id == messageId
  | _ => false

namespace InboxState

/-- `_splice` up to its append, which logs it; a no-op is not logged. -/
def log (st : InboxState) (sp : InboxSplice) (rest : List InboxFrame) (time : Rat) : InboxState :=
  if sp.isNoop then { st with frames := rest ++ st.frames }
  else { st with
    session := (st.session.append { eventType := .inboxSpliced, data := sp.toJson.loads, time }).2
    frames := .logged sp :: rest ++ st.frames }

/-- An operation up to its first append. -/
def call (st : InboxState) (c : InboxCall) (time : Rat) : InboxState :=
  match c with
  | .append target message =>
    match Target.named target with
    | none => st
    | some target => st.log ⟨target, (st.queues.get target).length, 0, [message]⟩ [] time
  | .prepend target message =>
    match Target.named target with
    | none => st
    | some target => st.log ⟨target, 0, 0, [message]⟩ [] time
  | .claim target =>
    st.log ⟨.nextStep, 0, st.queues.nextStep.length, []⟩ (if target = Target.nextTurn.value then [.claimTurn] else []) time
  | .remove messageId =>
    match st.queues.nextStep.findIdx? (hasId messageId) with
    | some index => st.log ⟨.nextStep, index, 1, []⟩ [] time
    | none =>
      match st.queues.nextTurn.findIdx? (hasId messageId) with
      | some index => st.log ⟨.nextTurn, index, 1, []⟩ [] time
      | none => st
  | .clear => st.log ⟨.nextStep, 0, st.queues.nextStep.length, []⟩ [.clearTurn] time

/-- The innermost operation goes on: it applies the splice it has logged, or begins its second one. -/
def go (st : InboxState) (time : Rat) : Option InboxState :=
  match st.frames with
  | [] => none
  | .logged sp :: frames => some { st with
      queues := sp.apply st.queues
      frames }
  | .claimTurn :: frames => some ({ st with frames }.log ⟨.nextTurn, 0, 1, []⟩ [] time)
  | .clearTurn :: frames => some ({ st with frames }.log ⟨.nextTurn, 0, st.queues.nextTurn.length, []⟩ [] time)

/-- What an action does; `none` where it cannot happen. -/
def step (st : InboxState) : InboxAction → Option InboxState
  | .call c time => some (st.call c time)
  | .go time => st.go time
  | .other c => some { st with session := (st.session.append c).2 }
  | .interrupt => some { st with frames := [] }

/-- The splices that are logged and not applied, in the order of the log, applied. -/
def settle (frames : List InboxFrame) (q : Queues PyValue) : Queues PyValue :=
  (frames.filterMap InboxFrame.splice?).foldr InboxSplice.apply q

/-- The step keeps the queues in step with the log: a splice that is applied inside the broadcasts of others gives the same queues
before them as after them; no other code logs splices; and no operation is left by what is no `Exception` with its splice logged
and not applied. -/
def Settled (st : InboxState) : InboxAction → Prop
  | .go _ => ∀ sp frames, st.frames = .logged sp :: frames → settle frames (sp.apply st.queues) = sp.apply (settle frames st.queues)
  | .other c => c.eventType ≠ .inboxSpliced
  | .interrupt => st.frames.filterMap InboxFrame.splice? = []
  | .call _ _ => True

/-! ## The queues and the log -/

variable {st st' : InboxState}

/-- The log replays to the queues, with what is logged and not applied. -/
def Replays (st : InboxState) : Prop := replay st.session = .ok (settle st.frames st.queues)

theorem Replays.log (h : st.Replays) (sp : InboxSplice) {rest : List InboxFrame} (hrest : rest.filterMap InboxFrame.splice? = [])
    (time : Rat) : (st.log sp rest time).Replays := by
  unfold InboxState.log
  split
  · simpa [Replays, settle, hrest] using h
  · have happ := append_logOnly st.session (c := { eventType := .inboxSpliced, data := sp.toJson.loads, time }) rfl rfl rfl rfl
    unfold Replays replay at h ⊢
    simp only [happ, Session.commit_events, replayFrom_append, h, Except.bind, replayFrom, AppendCall.event_type,
      AppendCall.event_data, replaySplice_toJson, if_true]
    simp [settle, InboxFrame.splice?, hrest]

theorem Replays.call (h : st.Replays) (c : InboxCall) (time : Rat) : (st.call c time).Replays := by
  cases c with
  | append target message =>
    simp only [InboxState.call]
    split
    · exact h
    · exact h.log _ rfl time
  | prepend target message =>
    simp only [InboxState.call]
    split
    · exact h
    · exact h.log _ rfl time
  | claim target =>
    refine h.log _ ?_ time
    split <;> rfl
  | remove messageId =>
    simp only [InboxState.call]
    split
    · exact h.log _ rfl time
    · split
      · exact h.log _ rfl time
      · exact h
  | clear => exact h.log _ rfl time

theorem Replays.go (h : st.Replays) {time : Rat} (hok : st.Settled (.go time)) (hstep : st.go time = some st') : st'.Replays := by
  unfold InboxState.go at hstep
  split at hstep
  · cases hstep
  · rename_i sp frames hframes
    obtain rfl := Option.some.inj hstep
    have hcommute := hok sp frames hframes
    simp only [Replays, hframes] at h ⊢
    rw [h, hcommute]
    rfl
  · rename_i frames hframes
    obtain rfl := Option.some.inj hstep
    unfold Replays at h
    rw [hframes] at h
    have hbelow : InboxState.Replays { st with frames } := h
    exact hbelow.log _ rfl time
  · rename_i frames hframes
    obtain rfl := Option.some.inj hstep
    unfold Replays at h
    rw [hframes] at h
    have hbelow : InboxState.Replays { st with frames } := h
    exact hbelow.log _ rfl time

theorem Replays.other (h : st.Replays) {c : AppendCall} (hother : c.eventType ≠ .inboxSpliced) :
    InboxState.Replays { st with session := (st.session.append c).2 } := by
  unfold Replays replay at h ⊢
  rcases append_events st.session c with hevents | ⟨j, hevents⟩
  · rw [hevents]
    exact h
  · rw [hevents, replayFrom_append, h]
    simp [Except.bind, replayFrom, hother]

theorem Replays.step (h : st.Replays) {a : InboxAction} (hok : st.Settled a) (hstep : st.step a = some st') : st'.Replays := by
  cases a with
  | call c time =>
    obtain rfl := Option.some.inj hstep
    exact h.call c time
  | go time => exact h.go hok hstep
  | other c =>
    obtain rfl := Option.some.inj hstep
    exact h.other hok
  | interrupt =>
    obtain rfl := Option.some.inj hstep
    have hnone : st.frames.filterMap InboxFrame.splice? = [] := hok
    unfold Replays settle at h ⊢
    rwa [hnone] at h

end InboxState

/-- An agent over a session whose log replays to empty queues: in every run whose steps all keep the queues in step with the log, the
log replays to the queues whenever no operation is in progress. -/
theorem inbox_replays {s : Session} (hs : replay s = .ok {}) {st : InboxState}
    (h : Machine.Reach InboxState.step InboxState.Settled { session := s } st) :
    st.frames = [] → replay st.session = .ok st.queues := by
  have hstart : InboxState.Replays { session := s } := hs
  have hreplays := h.invariant hstart (fun _ _ _ hinv hok hstep => hinv.step hok hstep)
  intro hidle
  unfold InboxState.Replays at hreplays
  rw [hreplays, hidle]
  rfl

namespace InboxRuns

/-- A user message. -/
def say (id : String) : Message := createUserMessage id [.text "go"]

/-- A new session. -/
def session : Session := Session.new "chat-1" { id := "chat-1" }

/-- A session whose log holds one message that was inserted and not claimed. -/
def pending : Session :=
  (session.append { eventType := .inboxSpliced, data := (InboxSplice.toJson ⟨.nextTurn, 0, 0, [say "m1"]⟩).loads }).2

/-- A listener that hears of one insert makes another. -/
def insertedTwice : List InboxAction :=
  [.call (.append "next-turn" (say "m1")) 0, .call (.append "next-turn" (say "m2")) 0, .go 0, .go 0]

/-- The ids of the messages of a queue. -/
def ids (queue : List PyValue) : List String :=
  queue.map (fun v => match v with | .message (.str id) _ _ _ => id | _ => "")

end InboxRuns

open InboxRuns in
/-- An insert and its claim. -/
theorem inbox_replays_claimed :
    ∃ st, Machine.Reach InboxState.step InboxState.Settled { session } st ∧ st.session.events.length = 2 ∧
      replay st.session = .ok st.queues := by
  have hempty : replay session = .ok {} := rfl
  have halone : ∀ st : InboxState, st.frames.length ≤ 1 → st.Settled (.go 0) := by
    intro st hlen sp frames hframes
    rw [hframes] at hlen
    obtain rfl : frames = [] := List.length_eq_zero_iff.mp (by simpa using hlen)
    rfl
  have hstart : Machine.Reach InboxState.step InboxState.Settled { session } { session } := .start
  have hinserted := (hstart.next (InboxAction.call (.append "next-turn" (say "m1")) 0) trivial rfl).next (InboxAction.go 0)
    (halone _ (by exact Nat.le_refl 1)) rfl
  have hclaimed := ((hinserted.next (InboxAction.call (.claim "next-turn") 0) trivial rfl).next (InboxAction.go 0)
    (halone _ (by exact Nat.le_refl 1)) rfl).next (InboxAction.go 0) (halone _ (by exact Nat.le_refl 1)) rfl
  exact ⟨_, hclaimed, rfl, inbox_replays hempty hclaimed rfl⟩

open InboxRuns in
/-- The log of a resumed session holds a message that was inserted and not claimed; the inbox of an agent over it does not. And
where a listener inserts while an insert is broadcast, the two orders differ. -/
theorem forgotten_input :
    (Session.fromJson pending.toJson = .ok pending ∧ replay pending = .ok { nextTurn := [(say "m1").toPy] } ∧
      replay pending ≠ .ok (InboxState.queues { session := pending })) ∧
    ∃ st, Machine.Reach InboxState.step Machine.anyStep { session } st ∧ replay session = .ok {} ∧ st.frames = [] ∧
      replay st.session ≠ .ok st.queues := by
  constructor
  · have hreplay : replay pending = .ok { nextTurn := [(say "m1").toPy] } := rfl
    refine ⟨rfl, hreplay, ?_⟩
    rw [hreplay]
    simp
  · have hrun : (Machine.exec InboxState.step { session } insertedTwice).map
        (fun st => (st.frames.length, ids st.queues.nextTurn, (replay st.session).toOption.map (fun q => ids q.nextTurn))) =
        some (0, ["m1", "m2"], some ["m2", "m1"]) := by decide +kernel
    obtain ⟨st, hst, heq⟩ := Option.map_eq_some_iff.mp hrun
    simp only [Prod.mk.injEq] at heq
    obtain ⟨hframes, hqueues, hreplay⟩ := heq
    refine ⟨st, Machine.Reach.start.exec hst, rfl, List.length_eq_zero_iff.mp hframes, fun hsame => ?_⟩
    rw [hsame] at hreplay
    simp [Except.toOption, hqueues] at hreplay

end Pydsh
