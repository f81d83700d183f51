import Pydsh.Lib.Arrivals
import Pydsh.Lib.Machine
import Pydsh.Runtime.Protocol

/-!
# Requests matched to their responses

Whatever the order of the frames, a call that is not interrupted by its caller ends with its own response or with the loss of the
connection, once (`requests_matched`). When the loop finds the end of input it fails what is pending; but nothing remembers that it
ended, and a request that is made afterwards without a timeout waits for a response that nobody reads. The loop also dies without a
word of a line on which `json.loads` raises anything but a `JSONDecodeError`, and a frame that `json.dumps` refuses fails every call as
if the connection were gone.
-/

namespace Pydsh

namespace JsonRpcTransport

/-! ## The law -/

/-- The connection is gone: the endpoint is closed, its loop is over, or its writer raised. -/
def Gone (s : JsonRpcTransport) : Prop := s.closed = true ∨ s.loop.over = true ∨ s.broken = true

/-- Some caller waits. -/
def SomeoneWaits (s : JsonRpcTransport) : Prop := ∃ id call, s.calls.get? id = some call ∧ call.Waiting

/-- A call is failed only where the connection is gone; and where nobody reads any more only a call waits that was made afterwards, and
that until its timeout. -/
structure Law (s : JsonRpcTransport) : Prop where
  failed : ∀ id call loss, s.calls.get? id = some call → call.unsent = false → call.future = some (.lost loss) → s.Gone
  ended : s.loop.over = true ∨ s.closed = true → s.closing = none → ∀ id call, s.calls.get? id = some call → call.Waiting →
    call.late = true ∧ call.timeout = true

/-- The frame that an action writes. -/
inductive Writes (s : JsonRpcTransport) : RpcAction → PyValue → Prop where
  | request {id method : String} {params : Option PyDict} {timeout : Bool} {writer : Option String} (h : s.closed = false) :
    Writes s (.request id method params timeout writer) (requestFrame id method params)
  | notify {method : String} {params : Option PyDict} {writer : Option String} :
    Writes s (.notify method params writer) (notificationFrame method params)
  | served {place : Nat} {handled : Handled} {writer : Option String} {serving : Serving} {frame : PyValue}
    (hplace : s.serving[place]? = some serving) (hframe : handled.frame serving.requestId = some frame) :
    Writes s (.served place handled writer) frame

/-- An action against the law: a request without a timeout is sent after the loop is over; the loop dies of a line or of a cancelled
read while some caller waits; or a frame that `json.dumps` refuses is written while some caller waits. -/
inductive Breaks (json : JsonText) (s : JsonRpcTransport) : RpcAction → Prop where
  | unheard {id method : String} {params : Option PyDict} (hover : s.loop.over = true) (hclosed : s.closed = false)
    (htaken : json.refuses (requestFrame id method params) = none) : Breaks json s (.request id method params false none)
  | unread {text : String} (hclosed : s.closed = false) (hwaits : s.SomeoneWaits) (htext : pyStrip text ≠ "")
    (hraises : json.loads (pyStrip text) = .raises) : Breaks json s (.line text)
  | cancelled (hclosed : s.closed = false) (hwaits : s.SomeoneWaits) : Breaks json s .readCancelled
  | refused {a : RpcAction} {frame : PyValue} {error : String} (hgone : ¬ s.Gone) (hwaits : s.SomeoneWaits) (hwrites : s.Writes a frame)
    (hrefuses : json.refuses frame = some error) : Breaks json s a

end JsonRpcTransport

/-! ## One call -/

namespace RpcCall

variable {call : RpcCall} {responses : List (String × PyDict)} {id : String}

/-- The call's own response: the first one that came for its id since it was made. -/
def own (responses : List (String × PyDict)) (id : String) (call : RpcCall) : Option PyDict :=
  Arrivals.firstFor responses call.since id

/-- How a call may end: with its own response, with the loss of the connection, or with its caller's interrupt. -/
inductive Accounted (response : Option PyDict) (interrupt : Option Interrupt) : Completion → Prop where
  | own {frame : PyDict} (h : response = some frame) : Accounted response interrupt (answerOf frame)
  | lost (loss : Loss) : Accounted response interrupt (.lost loss)
  | interrupted {cause : Interrupt} (h : interrupt = some cause) : Accounted response interrupt (.interrupted cause)

/-- What every run keeps of a call. -/
structure Kept (responses : List (String × PyDict)) (id : String) (call : RpcCall) : Prop where
  since_le : call.since ≤ responses.length
  waiting : call.Waiting → call.pending = true ∧ call.own responses id = none
  settled : ∀ completion, call.future = some completion → Accounted (call.own responses id) none completion
  ended : ∀ completion, call.ended = some completion →
    call.pending = false ∧ Accounted (call.own responses id) call.interrupt completion
  timeout : call.interrupt = some .timeout → call.timeout = true

theorem waiting_of_pending (h : call.Kept responses id) (hpending : call.pending = true) (hdone : call.done = false) : call.Waiting := by
  obtain ⟨hfuture, hinterrupt⟩ := Bool.or_eq_false_iff.mp hdone
  refine ⟨by simpa using hfuture, by simpa using hinterrupt, ?_⟩
  cases hended : call.ended with
  | none => rfl
  | some completion =>
    rw [(h.ended completion hended).1] at hpending
    cases hpending

theorem done_of_waiting (h : call.Waiting) : call.done = false := by
  rw [done, h.1, h.2.1]
  rfl

theorem settle_of_waiting (h : call.Waiting) (completion : Completion) :
    call.settle completion = { call with future := some completion } := by
  rw [settle, done_of_waiting h]
  rfl

theorem fail_of_waiting (h : call.Kept responses id) (hwaits : call.Waiting) (loss : Loss) :
    call.fail loss = { call with
      future := some (.lost loss)
      pending := false } := by
  rw [fail, if_pos (h.waiting hwaits).1, settle_of_waiting hwaits]

theorem fail_of_not_waiting (h : call.Kept responses id) (hnot : ¬ call.Waiting) (loss : Loss) :
    call.fail loss = { call with pending := false } := by
  unfold fail
  split
  · rename_i hpending
    cases hdone : call.done with
    | true => rw [settle, if_pos hdone]
    | false => exact absurd (waiting_of_pending h hpending hdone) hnot
  · rename_i hpending
    have hfalse : call.pending = false := by simpa using hpending
    rw [← hfalse]

theorem not_waiting_fail (h : call.Kept responses id) (loss : Loss) : ¬ (call.fail loss).Waiting := by
  by_cases hwaits : call.Waiting
  · rw [fail_of_waiting h hwaits]
    intro hfail
    cases hfail.1
  · rw [fail_of_not_waiting h hwaits]
    exact hwaits

theorem Kept.fail (h : call.Kept responses id) (loss : Loss) : (call.fail loss).Kept responses id := by
  by_cases hwaits : call.Waiting
  · rw [fail_of_waiting h hwaits]
    refine ⟨h.since_le, fun hfail => absurd hfail.1 (Option.some_ne_none _), ?_, ?_, h.timeout⟩
    · rintro completion ⟨⟩
      exact .lost loss
    · intro completion hended
      exact absurd (hwaits.2.2.symm.trans hended) (Option.some_ne_none _).symm
  · rw [fail_of_not_waiting h hwaits]
    exact ⟨h.since_le, fun hfail => absurd hfail hwaits, h.settled, fun completion hended => ⟨rfl, (h.ended completion hended).2⟩, h.timeout⟩

/-- A call that does not wait keeps what is known of it when it leaves the table with what it ends with. -/
theorem Kept.finish (h : call.Kept responses id) {completion : Completion}
    (haccounted : Accounted (call.own responses id) call.interrupt completion) : (call.finish completion).Kept responses id := by
  refine ⟨h.since_le, fun hwaits => absurd hwaits.2.2 (Option.some_ne_none _), h.settled, ?_, h.timeout⟩
  rintro completion' ⟨⟩
  exact ⟨rfl, haccounted⟩

theorem Accounted.mono {response response' : Option PyDict} {interrupt interrupt' : Option Interrupt} {completion : Completion}
    (h : Accounted response interrupt completion) (hresponse : ∀ frame, response = some frame → response' = some frame)
    (hinterrupt : ∀ cause, interrupt = some cause → interrupt' = some cause) : Accounted response' interrupt' completion := by
  cases h with
  | own hown => exact .own (hresponse _ hown)
  | lost loss => exact .lost loss
  | interrupted hcause => exact .interrupted (hinterrupt _ hcause)

theorem Kept.outcome (h : call.Kept responses id) {completion : Completion} (houtcome : call.outcome = some completion) :
    Accounted (call.own responses id) call.interrupt completion := by
  unfold RpcCall.outcome at houtcome
  cases hinterrupt : call.interrupt with
  | none =>
    rw [hinterrupt] at houtcome
    exact h.settled completion houtcome
  | some cause =>
    rw [hinterrupt] at houtcome
    cases houtcome
    exact .interrupted rfl

theorem outcome_isSome (h : call.ended = none) (hnot : ¬ call.Waiting) : ∃ completion, call.outcome = some completion := by
  unfold RpcCall.outcome
  cases hinterrupt : call.interrupt with
  | some cause => exact ⟨.interrupted cause, rfl⟩
  | none =>
    cases hfuture : call.future with
    | some completion => exact ⟨completion, rfl⟩
    | none => exact absurd ⟨hfuture, hinterrupt, h⟩ hnot

/-- A response for another id, or for a call that does not wait. -/
theorem Kept.arrival (h : call.Kept responses id) {key : String} (frame : PyDict) (hother : key = id → ¬ call.Waiting) :
    call.Kept (responses ++ [(key, frame)]) id := by
  have hmono : ∀ first, call.own responses id = some first → call.own (responses ++ [(key, frame)]) id = some first :=
    fun first hfirst => Arrivals.firstFor_concat_some hfirst h.since_le key frame
  refine ⟨Nat.le_trans h.since_le (by simp), ?_, fun completion hfuture => ?_, fun completion hended => ?_, h.timeout⟩
  · intro hwaits
    obtain ⟨hpending, hnone⟩ := h.waiting hwaits
    exact ⟨hpending, (Arrivals.firstFor_concat_other (fun hkey => hother hkey hwaits) h.since_le frame).trans hnone⟩
  · exact (h.settled completion hfuture).mono hmono (fun _ hcause => hcause)
  · exact ⟨(h.ended completion hended).1, (h.ended completion hended).2.mono hmono (fun _ hcause => hcause)⟩

theorem Kept.settle (h : call.Kept responses id) (hpending : call.pending = true) (frame : PyDict) :
    (call.settle (answerOf frame)).Kept (responses ++ [(id, frame)]) id := by
  by_cases hwaits : call.Waiting
  · rw [settle_of_waiting hwaits]
    have hown : call.own (responses ++ [(id, frame)]) id = some frame :=
      Arrivals.firstFor_concat_self (h.waiting hwaits).2 h.since_le frame
    refine ⟨Nat.le_trans h.since_le (by simp), fun hstill => absurd hstill.1 (Option.some_ne_none _), ?_, ?_, h.timeout⟩
    · rintro completion ⟨⟩
      exact .own hown
    · intro completion hended
      exact absurd (hwaits.2.2.symm.trans hended) (Option.some_ne_none _).symm
  · have hdone : call.done = true := by
      cases hdone : call.done with
      | true => rfl
      | false => exact absurd (waiting_of_pending h hpending hdone) hwaits
    rw [RpcCall.settle, if_pos hdone]
    exact h.arrival frame (fun _ => hwaits)

theorem Kept.interrupt (h : call.Kept responses id) (hended : call.ended = none) {cause : Interrupt}
    (htimeout : cause = .timeout → call.timeout = true) : { call with interrupt := some cause }.Kept responses id := by
  refine ⟨h.since_le, fun hwaits => absurd hwaits.2.1 (Option.some_ne_none _), h.settled, ?_, ?_⟩
  · intro completion hsome
    exact absurd (hended.symm.trans hsome) (Option.some_ne_none _).symm
  · rintro ⟨⟩
    exact htimeout rfl

theorem kept_new {timeout late : Bool} {unsent : Bool} :
    ({ timeout, since := responses.length, late, unsent } : RpcCall).Kept responses id := by
  refine ⟨Nat.le_refl _, fun _ => ⟨rfl, Arrivals.firstFor_length responses id⟩, ?_, ?_, ?_⟩
  · rintro completion ⟨⟩
  · rintro completion ⟨⟩
  · rintro ⟨⟩

end RpcCall

namespace JsonRpcTransport

variable {json : JsonText} {s s' : JsonRpcTransport} {id : String} {call : RpcCall}

theorem get?_putCall (s : JsonRpcTransport) (id : String) (call : RpcCall) (id' : String) :
    (s.putCall id call).calls.get? id' = if id' = id then some call else s.calls.get? id' := Dict.get?_set ..

theorem get?_failPending (s : JsonRpcTransport) (loss : Loss) (id : String) :
    (s.failPending loss).calls.get? id = (s.calls.get? id).map (·.fail loss) := Dict.get?_mapValues ..

/-! ## What every run keeps -/

/-- What every run keeps. -/
structure Inv (s : JsonRpcTransport) : Prop where
  kept : ∀ id call, s.calls.get? id = some call → call.Kept s.responses id
  late : ∀ id call, s.calls.get? id = some call → call.late = true → s.loop.over = true
  sent : ∀ id call, s.calls.get? id = some call → call.Waiting → call.unsent = false
  /-- Nobody waits at an endpoint that is closed. -/
  quiet : s.closed = true → s.closing = none → ¬ s.SomeoneWaits
  closing : s.closing ≠ none → s.closed = true

theorem inv_start : ({} : JsonRpcTransport).Inv := by
  constructor
  · rintro id call ⟨⟩
  · rintro id call ⟨⟩
  · rintro id call ⟨⟩
  · rintro ⟨⟩
  · intro h
    exact absurd rfl h

theorem Inv.flags {t : JsonRpcTransport} (h : s.Inv) (hcalls : t.calls = s.calls) (hresponses : t.responses = s.responses)
    (hloop : s.loop.over = true → t.loop.over = true) (hquiet : t.closed = true → t.closing = none → ¬ s.SomeoneWaits)
    (hclosing : t.closing ≠ none → t.closed = true) : t.Inv := by
  constructor
  · intro id call hget
    rw [hresponses]
    exact h.kept id call (hcalls ▸ hget)
  · intro id call hget hlate
    exact hloop (h.late id call (hcalls ▸ hget) hlate)
  · intro id call hget
    exact h.sent id call (hcalls ▸ hget)
  · rintro hclosed hnone ⟨id, call, hget, hwaits⟩
    exact hquiet hclosed hnone ⟨id, call, hcalls ▸ hget, hwaits⟩
  · exact hclosing

theorem Inv.broken (h : s.Inv) : ({ s with broken := true } : JsonRpcTransport).Inv :=
  h.flags rfl rfl (fun hover => hover) h.quiet h.closing

/-- No `close` waits at an endpoint that is not closed. -/
theorem Inv.closing_none (h : s.Inv) (hclosed : s.closed = false) : s.closing = none := by
  by_contra hclosing
  exact absurd (hclosed.symm.trans (h.closing hclosing)) Bool.false_ne_true

theorem Inv.putCall (h : s.Inv) (hkept : call.Kept s.responses id) (hlate : call.late = true → s.loop.over = true)
    (hsent : call.Waiting → call.unsent = false ∧ ¬(s.closed = true ∧ s.closing = none)) : (s.putCall id call).Inv := by
  constructor
  · intro id' call' hget
    rw [get?_putCall] at hget
    split at hget
    · rename_i heq
      cases hget
      exact heq ▸ hkept
    · exact h.kept id' call' hget
  · intro id' call' hget
    rw [get?_putCall] at hget
    split at hget
    · cases hget
      exact hlate
    · exact h.late id' call' hget
  · intro id' call' hget
    rw [get?_putCall] at hget
    split at hget
    · cases hget
      exact fun hwaits => (hsent hwaits).1
    · exact h.sent id' call' hget
  · rintro hclosed hnone ⟨id', call', hget, hwaits⟩
    rw [get?_putCall] at hget
    split at hget
    · cases hget
      exact (hsent hwaits).2 ⟨hclosed, hnone⟩
    · exact h.quiet hclosed hnone ⟨id', call', hget, hwaits⟩
  · exact h.closing

theorem Inv.quiet_failPending (h : s.Inv) (loss : Loss) : ¬ (s.failPending loss).SomeoneWaits := by
  rintro ⟨id, call, hget, hwaits⟩
  rw [get?_failPending] at hget
  obtain ⟨before, hbefore, rfl⟩ := Option.map_eq_some_iff.mp hget
  exact RpcCall.not_waiting_fail (h.kept id before hbefore) loss hwaits

theorem late_fail (call : RpcCall) (loss : Loss) : (call.fail loss).late = call.late := by
  unfold RpcCall.fail RpcCall.settle
  split
  · split <;> rfl
  · rfl

theorem Inv.failPending (h : s.Inv) (loss : Loss) : (s.failPending loss).Inv := by
  constructor
  · intro id call hget
    rw [get?_failPending] at hget
    obtain ⟨before, hbefore, rfl⟩ := Option.map_eq_some_iff.mp hget
    exact (h.kept id before hbefore).fail loss
  · intro id call hget hlate
    rw [get?_failPending] at hget
    obtain ⟨before, hbefore, rfl⟩ := Option.map_eq_some_iff.mp hget
    exact h.late id before hbefore (by rwa [late_fail] at hlate)
  · intro id call hget hwaits
    exact absurd ⟨id, call, hget, hwaits⟩ (h.quiet_failPending loss)
  · intro _ _
    exact h.quiet_failPending loss
  · exact h.closing

/-- What a response does to a call: the one that it is for, if it is in the table, is settled; every other stays. -/
theorem resolve_cases {key : String} {frame : PyDict} {call' : RpcCall} (h : (s.resolve key frame).calls.get? id = some call') :
    ∃ call, s.calls.get? id = some call ∧
      ((key = id ∧ call.pending = true ∧ call' = call.settle (answerOf frame)) ∨ ((key = id → call.pending = false) ∧ call' = call)) := by
  unfold resolve at h
  split at h
  · rename_i found hfound
    split at h
    · rename_i hpending
      rw [get?_putCall] at h
      split at h
      · rename_i heq
        cases h
        exact ⟨found, heq ▸ hfound, Or.inl ⟨heq.symm, hpending, rfl⟩⟩
      · rename_i hne
        exact ⟨call', h, Or.inr ⟨fun heq => absurd heq.symm hne, rfl⟩⟩
    · rename_i hpending
      refine ⟨call', h, Or.inr ⟨?_, rfl⟩⟩
      rintro rfl
      cases hfound.symm.trans h
      simpa using hpending
  · rename_i hnone
    refine ⟨call', h, Or.inr ⟨?_, rfl⟩⟩
    rintro rfl
    cases hnone.symm.trans h

theorem resolve_flags (s : JsonRpcTransport) (key : String) (frame : PyDict) :
    (s.resolve key frame).responses = s.responses ++ [(key, frame)] ∧ (s.resolve key frame).loop = s.loop ∧
      (s.resolve key frame).closed = s.closed ∧ (s.resolve key frame).closing = s.closing ∧
      (s.resolve key frame).broken = s.broken := by
  unfold resolve
  split
  · split <;> exact ⟨rfl, rfl, rfl, rfl, rfl⟩
  · exact ⟨rfl, rfl, rfl, rfl, rfl⟩

theorem settle_fields (call : RpcCall) (completion : Completion) :
    (call.settle completion).late = call.late ∧ (call.settle completion).timeout = call.timeout ∧
      (call.settle completion).unsent = call.unsent ∧ ((call.settle completion).Waiting → call.Waiting) := by
  unfold RpcCall.settle
  split
  · exact ⟨rfl, rfl, rfl, fun hwaits => hwaits⟩
  · exact ⟨rfl, rfl, rfl, fun hwaits => absurd hwaits.1 (Option.some_ne_none _)⟩

theorem waiting_resolve {key : String} {frame : PyDict} {call' : RpcCall} (h : (s.resolve key frame).calls.get? id = some call')
    (hwaits : call'.Waiting) : ∃ call, s.calls.get? id = some call ∧ call.Waiting ∧ call'.late = call.late ∧
      call'.timeout = call.timeout ∧ call'.unsent = call.unsent := by
  obtain ⟨call, hget, ⟨-, -, rfl⟩ | ⟨-, rfl⟩⟩ := resolve_cases h
  · obtain ⟨hlate, htimeout, hunsent, hback⟩ := settle_fields call (answerOf frame)
    exact ⟨call, hget, hback hwaits, hlate, htimeout, hunsent⟩
  · exact ⟨call', hget, hwaits, rfl, rfl, rfl⟩

theorem Inv.resolve (h : s.Inv) (key : String) (frame : PyDict) : (s.resolve key frame).Inv := by
  obtain ⟨hresponses, hloop, hclosed, hclosing, -⟩ := resolve_flags s key frame
  constructor
  · intro id call' hget
    rw [hresponses]
    obtain ⟨call, hcall, ⟨rfl, hpending, rfl⟩ | ⟨hout, rfl⟩⟩ := resolve_cases hget
    · exact (h.kept _ call hcall).settle hpending frame
    · refine (h.kept id call' hcall).arrival frame (fun heq hwaits => ?_)
      have hpending := ((h.kept id call' hcall).waiting hwaits).1
      rw [hout heq] at hpending
      cases hpending
  · intro id call' hget hlate
    rw [hloop]
    obtain ⟨call, hcall, ⟨-, -, rfl⟩ | ⟨-, rfl⟩⟩ := resolve_cases hget
    · exact h.late id call hcall ((settle_fields call (answerOf frame)).1 ▸ hlate)
    · exact h.late id call' hcall hlate
  · intro id call' hget hwaits
    obtain ⟨call, hcall, hwaits', -, -, hunsent⟩ := waiting_resolve hget hwaits
    rw [hunsent]
    exact h.sent id call hcall hwaits'
  · rintro hclosed' hnone ⟨id, call', hget, hwaits⟩
    obtain ⟨call, hcall, hwaits', -⟩ := waiting_resolve hget hwaits
    exact h.quiet (hclosed ▸ hclosed') (hclosing ▸ hnone) ⟨id, call, hcall, hwaits'⟩
  · rw [hclosed, hclosing]
    exact h.closing

theorem Inv.handle (h : s.Inv) (frame : PyDict) : (s.handle frame).Inv := by
  unfold JsonRpcTransport.handle
  split
  · exact h.flags rfl rfl (fun hover => hover) h.quiet h.closing
  · exact h.resolve _ frame
  · exact h

theorem Inv.again (h : s.Inv) : s.again.Inv := by
  unfold JsonRpcTransport.again
  split
  · exact h.flags rfl rfl (fun _ => rfl) h.quiet h.closing
  · exact h

theorem Inv.readLine (h : s.Inv) (text : String) : (s.readLine json text).Inv := by
  unfold JsonRpcTransport.readLine
  split
  · exact h.again
  · split
    · exact (h.handle _).again
    · exact h.again
    · exact h.again
    · exact h.flags rfl rfl (fun _ => rfl) h.quiet h.closing

theorem Inv.loopEnds (h : s.Inv) : s.loopEnds.Inv := by
  have hended : ({ s with loop := .ended } : JsonRpcTransport).Inv := h.flags rfl rfl (fun _ => rfl) h.quiet h.closing
  unfold JsonRpcTransport.loopEnds
  split
  · exact hended
  · exact hended.failPending .peerClosed

/-! ## Writes -/

/-- A write is refused by `json.dumps`, fails at the writer, or is done. -/
theorem write_cases (json : JsonText) (s : JsonRpcTransport) (frame : PyValue) (writer : Option String) :
    (∃ error, json.refuses frame = some error ∧
      s.write json frame writer = (s.failPending (.unencodable error), some (.unencodable error))) ∨
    (json.refuses frame = none ∧ ∃ error, writer = some error ∧
      s.write json frame writer = ({ s with broken := true }.failPending (.broken error), some (.broken error))) ∨
    (json.refuses frame = none ∧ writer = none ∧ s.write json frame writer = ({ s with written := s.written ++ [frame] }, none)) := by
  unfold write
  cases hrefuses : json.refuses frame with
  | some error => exact Or.inl ⟨error, rfl, rfl⟩
  | none =>
    cases writer with
    | some error => exact Or.inr (Or.inl ⟨rfl, error, rfl, rfl⟩)
    | none => exact Or.inr (Or.inr ⟨rfl, rfl, rfl⟩)

theorem Inv.write (h : s.Inv) (frame : PyValue) (writer : Option String) : (s.write json frame writer).1.Inv := by
  rcases write_cases json s frame writer with ⟨error, -, heq⟩ | ⟨-, error, -, heq⟩ | ⟨-, -, heq⟩
  · rw [heq]
    exact h.failPending _
  · rw [heq]
    exact h.broken.failPending _
  · rw [heq]
    exact h.flags rfl rfl (fun hover => hover) h.quiet h.closing

/-- A request is refused at a closed endpoint; is refused by `json.dumps` or fails at the writer, as its write does; or is sent. -/
theorem request_cases (json : JsonText) (s : JsonRpcTransport) (id method : String) (params : Option PyDict) (timeout : Bool)
    (writer : Option String) :
    (s.closed = true ∧ s.request json id method params timeout writer = s.putCall id (s.lostCall timeout .refused)) ∨
    (s.closed = false ∧ ∃ error, json.refuses (requestFrame id method params) = some error ∧
      s.request json id method params timeout writer =
        (s.failPending (.unencodable error)).putCall id (s.lostCall timeout (.unencodable error))) ∨
    (s.closed = false ∧ json.refuses (requestFrame id method params) = none ∧ ∃ error, writer = some error ∧
      s.request json id method params timeout writer =
        ({ s with broken := true }.failPending (.broken error)).putCall id (s.lostCall timeout (.broken error))) ∨
    (s.closed = false ∧ json.refuses (requestFrame id method params) = none ∧ writer = none ∧
      s.request json id method params timeout writer =
        { s with written := s.written ++ [requestFrame id method params] }.putCall id (s.newCall timeout)) := by
  have hput : ∀ (t : JsonRpcTransport) loss call call',
      ((t.putCall id call).failPending loss).putCall id call' = (t.failPending loss).putCall id call' := by
    intro t loss call call'
    simp only [putCall, failPending, Dict.mapValues_set, Dict.set_set]
  unfold request
  by_cases hclosed : s.closed = true
  · rw [if_pos hclosed]
    exact Or.inl ⟨hclosed, rfl⟩
  · rw [if_neg hclosed]
    have hopen : s.closed = false := by simpa using hclosed
    rcases write_cases json (s.putCall id (s.newCall timeout)) (requestFrame id method params) writer with
      ⟨error, hrefuses, heq⟩ | ⟨hrefuses, error, hwriter, heq⟩ | ⟨hrefuses, hwriter, heq⟩
    · rw [heq]
      exact Or.inr (Or.inl ⟨hopen, error, hrefuses, hput s _ _ _⟩)
    · rw [heq]
      exact Or.inr (Or.inr (Or.inl ⟨hopen, hrefuses, error, hwriter, hput { s with broken := true } _ _ _⟩))
    · rw [heq]
      exact Or.inr (Or.inr (Or.inr ⟨hopen, hrefuses, hwriter, rfl⟩))

theorem kept_lostCall (s : JsonRpcTransport) (timeout : Bool) (loss : Loss) : (s.lostCall timeout loss).Kept s.responses id := by
  have hnew : ({ s.newCall timeout with unsent := true } : RpcCall).Kept s.responses id := RpcCall.kept_new
  exact hnew.finish (.lost loss)

theorem not_waiting_lostCall (s : JsonRpcTransport) (timeout : Bool) (loss : Loss) : ¬ (s.lostCall timeout loss).Waiting :=
  fun hwaits => absurd hwaits.2.2 (Option.some_ne_none _)

theorem Inv.request (h : s.Inv) (id method : String) (params : Option PyDict) (timeout : Bool) (writer : Option String) :
    (s.request json id method params timeout writer).Inv := by
  have hlost : ∀ {t : JsonRpcTransport} loss, t.Inv → t.responses = s.responses → t.loop = s.loop →
      (t.putCall id (s.lostCall timeout loss)).Inv := by
    intro t loss ht hresponses hloop
    refine ht.putCall ?_ ?_ (fun hwaits => absurd hwaits (not_waiting_lostCall s timeout loss))
    · rw [hresponses]
      exact kept_lostCall s timeout loss
    · rw [hloop]
      exact fun hlate => hlate
  rcases request_cases json s id method params timeout writer with
    ⟨-, heq⟩ | ⟨-, error, -, heq⟩ | ⟨-, -, error, -, heq⟩ | ⟨hclosed, -, -, heq⟩
  · rw [heq]
    exact hlost .refused h rfl rfl
  · rw [heq]
    exact hlost _ (h.failPending _) rfl rfl
  · rw [heq]
    exact hlost _ (h.broken.failPending _) rfl rfl
  · rw [heq]
    have hwritten : ({ s with written := s.written ++ [requestFrame id method params] } : JsonRpcTransport).Inv :=
      h.flags rfl rfl (fun hover => hover) h.quiet h.closing
    refine hwritten.putCall RpcCall.kept_new (fun hlate => hlate) (fun _ => ⟨rfl, ?_⟩)
    rintro ⟨hclosed', -⟩
    exact absurd (hclosed.symm.trans hclosed') Bool.false_ne_true

theorem Inv.close (h : s.Inv) (reason : String) : (s.close reason).Inv := by
  unfold JsonRpcTransport.close
  split
  · exact h
  · split
    · exact h.flags rfl rfl (fun hover => hover) (fun _ hnone => absurd hnone (Option.some_ne_none _)) (fun _ => rfl)
    · -- The flag comes before the table is emptied.
      have hfailed : (s.failPending (.closed reason)).Inv := h.failPending _
      exact hfailed.flags rfl rfl (fun hover => hover) (fun _ _ => h.quiet_failPending _) (fun _ => rfl)

/-- The caller of a call goes on: the call is not over, and something happened to its future. -/
theorem resume_cases (h : s.step json (.resume id) = some s') : ∃ call completion, s.calls.get? id = some call ∧ call.ended = none ∧
    call.outcome = some completion ∧ s' = s.putCall id (call.finish completion) := by
  simp only [step] at h
  split at h
  · cases h
  · rename_i call hget
    split at h
    · rename_i completion hended houtcome
      cases h
      exact ⟨call, completion, hget, hended, houtcome, rfl⟩
    · cases h

theorem interrupt_cases {cause : Interrupt} (h : s.step json (.interrupt id cause) = some s') : ∃ call, s.calls.get? id = some call ∧
    call.ended = none ∧ (cause = .timeout → call.timeout = true) ∧ s' = s.putCall id { call with interrupt := some cause } := by
  simp only [step] at h
  split at h
  · cases h
  · rename_i call hget
    split at h
    · rename_i hok
      cases h
      obtain ⟨hended, hcause⟩ := Bool.and_eq_true_iff.mp hok
      refine ⟨call, hget, by simpa using hended, ?_, rfl⟩
      rintro rfl
      simpa using hcause
    · cases h

/-- The end of a handler takes it from those served, and writes what it is answered with. -/
theorem served_cases {place : Nat} {handled : Handled} {writer : Option String}
    (h : s.step json (.served place handled writer) = some s') : ∃ serving, s.serving[place]? = some serving ∧
    ((handled.frame serving.requestId = none ∧ s' = { s with serving := s.serving.eraseIdx place }) ∨
      ∃ frame, handled.frame serving.requestId = some frame ∧
        s' = ({ s with serving := s.serving.eraseIdx place }.write json frame writer).1) := by
  simp only [step] at h
  split at h
  · cases h
  · rename_i serving hserving
    refine ⟨serving, hserving, ?_⟩
    split at h
    · rename_i hnone
      cases h
      exact Or.inl ⟨hnone, rfl⟩
    · rename_i frame hframe
      cases h
      exact Or.inr ⟨frame, hframe, rfl⟩

theorem Inv.step (h : s.Inv) {a : RpcAction} (hstep : s.step json a = some s') : s'.Inv := by
  cases a with
  | start =>
    obtain rfl := Option.some.inj hstep
    split
    · rename_i hidle
      refine h.flags rfl rfl (fun hover => ?_) h.quiet h.closing
      rw [hidle.1] at hover
      cases hover
    · exact h
  | request id method params timeout writer =>
    simp only [JsonRpcTransport.step] at hstep
    split at hstep
    · cases hstep
    · obtain rfl := Option.some.inj hstep
      exact h.request id method params timeout writer
  | notify method params writer =>
    obtain rfl := Option.some.inj hstep
    exact h.write _ writer
  | resume id =>
    obtain ⟨call, completion, hget, -, houtcome, rfl⟩ := resume_cases hstep
    have hkept := h.kept id call hget
    exact h.putCall (hkept.finish (hkept.outcome houtcome)) (h.late id call hget) (fun hwaits => absurd hwaits.2.2 (Option.some_ne_none _))
  | interrupt id cause =>
    obtain ⟨call, hget, hended, htimeout, rfl⟩ := interrupt_cases hstep
    exact h.putCall ((h.kept id call hget).interrupt hended htimeout) (h.late id call hget)
      (fun hwaits => absurd hwaits.2.1 (Option.some_ne_none _))
  | line text =>
    obtain ⟨-, hnext⟩ := Option.ite_none_right_eq_some.mp hstep
    obtain rfl := Option.some.inj hnext
    exact h.readLine text
  | endOfInput =>
    obtain ⟨-, hnext⟩ := Option.ite_none_right_eq_some.mp hstep
    obtain rfl := Option.some.inj hnext
    have heof : ({ s with eof := true } : JsonRpcTransport).Inv := h.flags rfl rfl (fun hover => hover) h.quiet h.closing
    exact heof.loopEnds
  | readError =>
    obtain ⟨-, hnext⟩ := Option.ite_none_right_eq_some.mp hstep
    obtain rfl := Option.some.inj hnext
    exact h.loopEnds
  | readCancelled =>
    obtain ⟨-, hnext⟩ := Option.ite_none_right_eq_some.mp hstep
    obtain rfl := Option.some.inj hnext
    exact h.flags rfl rfl (fun _ => rfl) h.quiet h.closing
  | served place handled writer =>
    obtain ⟨serving, -, ⟨-, rfl⟩ | ⟨frame, -, rfl⟩⟩ := served_cases hstep
    · exact h.flags rfl rfl (fun hover => hover) h.quiet h.closing
    · have hserved : ({ s with serving := s.serving.eraseIdx place } : JsonRpcTransport).Inv :=
        h.flags rfl rfl (fun hover => hover) h.quiet h.closing
      exact hserved.write frame writer
  | close reason =>
    obtain rfl := Option.some.inj hstep
    exact h.close reason
  | closeGoesOn =>
    simp only [JsonRpcTransport.step] at hstep
    split at hstep
    · cases hstep
    · rename_i reason hclosing
      obtain rfl := Option.some.inj hstep
      have hfailed : (s.failPending (.closed reason)).Inv := h.failPending _
      exact hfailed.flags rfl rfl (fun hover => hover) (fun _ _ => h.quiet_failPending _) (fun hnone => absurd rfl hnone)

theorem inv_reach {ok : JsonRpcTransport → RpcAction → Prop} (h : Machine.Reach (step json) ok {} s) : s.Inv :=
  h.invariant inv_start (fun _ _ _ hinv _ hstep => hinv.step hstep)

/-! ## What the law needs -/

theorem law_start : ({} : JsonRpcTransport).Law := by
  constructor
  · rintro id call loss ⟨⟩
  · rintro _ _ id call ⟨⟩

/-- Where the connection is gone and nobody waits, the law holds. -/
theorem law_of_gone (hgone : s.Gone) (hquiet : ¬ s.SomeoneWaits) : s.Law :=
  ⟨fun _ _ _ _ _ _ => hgone, fun _ _ id call hget hwaits => absurd ⟨id, call, hget, hwaits⟩ hquiet⟩

theorem Law.flags {t : JsonRpcTransport} (h : s.Law) (hcalls : t.calls = s.calls) (hgone : s.Gone → t.Gone)
    (hover : t.loop.over = true ∨ t.closed = true → t.closing = none →
      ((s.loop.over = true ∨ s.closed = true) ∧ s.closing = none) ∨ ¬ s.SomeoneWaits) : t.Law := by
  constructor
  · intro id call loss hget hsent hfuture
    exact hgone (h.failed id call loss (hcalls ▸ hget) hsent hfuture)
  · intro hend hnone id call hget hwaits
    rcases hover hend hnone with ⟨hend', hnone'⟩ | hquiet
    · exact h.ended hend' hnone' id call (hcalls ▸ hget) hwaits
    · exact absurd ⟨id, call, hcalls ▸ hget, hwaits⟩ hquiet

theorem Law.putCall (h : s.Law) (hfailed : ∀ loss, call.unsent = false → call.future = some (.lost loss) → s.Gone)
    (hover : call.Waiting → s.loop.over = true ∨ s.closed = true → s.closing = none → call.late = true ∧ call.timeout = true) :
    (s.putCall id call).Law := by
  constructor
  · intro id' call' loss hget hsent hfuture
    rw [get?_putCall] at hget
    split at hget
    · cases hget
      exact hfailed loss hsent hfuture
    · exact h.failed id' call' loss hget hsent hfuture
  · intro hend hnone id' call' hget hwaits
    rw [get?_putCall] at hget
    split at hget
    · cases hget
      exact hover hwaits hend hnone
    · exact h.ended hend hnone id' call' hget hwaits

/-- Everything in the table is failed where the connection is gone, or where nobody waits. -/
theorem Law.failPending (h : s.Law) (hinv : s.Inv) {loss : Loss} (hok : s.Gone ∨ ¬ s.SomeoneWaits) : (s.failPending loss).Law := by
  rcases hok with hgone | hquiet
  · exact law_of_gone hgone (hinv.quiet_failPending loss)
  · constructor
    · intro id call loss' hget hsent hfuture
      rw [get?_failPending] at hget
      obtain ⟨before, hbefore, rfl⟩ := Option.map_eq_some_iff.mp hget
      have hnot : ¬ before.Waiting := fun hwaits => hquiet ⟨id, before, hbefore, hwaits⟩
      rw [RpcCall.fail_of_not_waiting (hinv.kept id before hbefore) hnot] at hsent hfuture
      exact h.failed id before loss' hbefore hsent hfuture
    · intro _ _ id call hget hwaits
      exact absurd ⟨id, call, hget, hwaits⟩ (hinv.quiet_failPending loss)

theorem answerOf_ne_lost (frame : PyDict) (loss : Loss) : answerOf frame ≠ .lost loss := by
  unfold answerOf
  split
  · intro h
    cases h
  · intro h
    cases h

theorem Law.resolve (h : s.Law) (key : String) (frame : PyDict) : (s.resolve key frame).Law := by
  obtain ⟨-, hloop, hclosed, hclosing, hbroken⟩ := resolve_flags s key frame
  have hgone : (s.resolve key frame).Gone = s.Gone := by rw [Gone, Gone, hloop, hclosed, hbroken]
  constructor
  · intro id call' loss hget hsent hfuture
    rw [hgone]
    obtain ⟨call, hcall, ⟨-, -, rfl⟩ | ⟨-, rfl⟩⟩ := resolve_cases hget
    · refine h.failed id call loss hcall ((settle_fields call (answerOf frame)).2.2.1 ▸ hsent) ?_
      unfold RpcCall.settle at hfuture
      split at hfuture
      · exact hfuture
      · exact absurd (Option.some.inj hfuture) (answerOf_ne_lost frame loss)
    · exact h.failed id call' loss hcall hsent hfuture
  · rw [hloop, hclosed, hclosing]
    intro hend hnone id call' hget hwaits
    obtain ⟨call, hcall, hwaits', hlate, htimeout, -⟩ := waiting_resolve hget hwaits
    rw [hlate, htimeout]
    exact h.ended hend hnone id call hcall hwaits'

theorem Law.handle (h : s.Law) (frame : PyDict) : (s.handle frame).Law := by
  unfold JsonRpcTransport.handle
  split
  · exact h.flags rfl (fun hgone => hgone) (fun hend hnone => Or.inl ⟨hend, hnone⟩)
  · exact h.resolve _ frame
  · exact h

theorem Law.loopStops (h : s.Law) (hinv : s.Inv) (hclosed : s.closed = true) (loop : ReadLoop) :
    ({ s with loop := loop } : JsonRpcTransport).Law := by
  refine h.flags rfl (fun _ => Or.inl hclosed) (fun _ hnone => ?_)
  exact Or.inr (hinv.quiet hclosed hnone)

theorem Law.again (h : s.Law) (hinv : s.Inv) : s.again.Law := by
  unfold JsonRpcTransport.again
  split
  · rename_i hclosed
    exact h.loopStops hinv hclosed .ended
  · exact h

theorem Law.loopEnds (h : s.Law) (hinv : s.Inv) : s.loopEnds.Law := by
  unfold JsonRpcTransport.loopEnds
  split
  · rename_i hclosed
    exact h.loopStops hinv hclosed .ended
  · have hended : ({ s with loop := .ended } : JsonRpcTransport).Inv := hinv.flags rfl rfl (fun _ => rfl) hinv.quiet hinv.closing
    exact law_of_gone (Or.inr (Or.inl rfl)) (hended.quiet_failPending .peerClosed)

/-- The loop stops without a word: nobody may wait, unless the endpoint is closed. -/
theorem Law.loopDies (h : s.Law) (hinv : s.Inv) {loop : ReadLoop} (hover : loop.over = true) (hok : s.closed = false → ¬ s.SomeoneWaits) :
    ({ s with loop := loop } : JsonRpcTransport).Law := by
  by_cases hclosed : s.closed = true
  · exact h.loopStops hinv hclosed loop
  · exact law_of_gone (Or.inr (Or.inl hover)) (hok (by simpa using hclosed))

theorem Law.write (h : s.Law) (hinv : s.Inv) {frame : PyValue} {writer : Option String}
    (hok : ∀ error, json.refuses frame = some error → s.Gone ∨ ¬ s.SomeoneWaits) : (s.write json frame writer).1.Law := by
  rcases write_cases json s frame writer with ⟨error, hrefuses, heq⟩ | ⟨-, error, -, heq⟩ | ⟨-, -, heq⟩
  · rw [heq]
    exact h.failPending hinv (hok error hrefuses)
  · rw [heq]
    exact law_of_gone (Or.inr (Or.inr rfl)) (hinv.broken.quiet_failPending _)
  · rw [heq]
    exact h.flags rfl (fun hgone => hgone) (fun hend hnone => Or.inl ⟨hend, hnone⟩)

theorem Law.lostCall (h : s.Law) {t : JsonRpcTransport} {timeout : Bool} {loss : Loss} : (s.putCall id (t.lostCall timeout loss)).Law :=
  h.putCall (fun _ hsent => absurd hsent.symm Bool.false_ne_true) (fun hwaits => absurd hwaits (not_waiting_lostCall t timeout loss))

theorem Law.request (h : s.Law) (hinv : s.Inv) {method : String} {params : Option PyDict} {timeout : Bool} {writer : Option String}
    (hok : ¬ s.Breaks json (.request id method params timeout writer)) : (s.request json id method params timeout writer).Law := by
  rcases request_cases json s id method params timeout writer with
    ⟨-, heq⟩ | ⟨hclosed, error, hrefuses, heq⟩ | ⟨-, -, error, -, heq⟩ | ⟨hclosed, htaken, hwriter, heq⟩
  · rw [heq]
    exact h.lostCall
  · rw [heq]
    refine Law.lostCall (h.failPending hinv ?_)
    by_contra hneither
    obtain ⟨hgone, hwaits⟩ := not_or.mp hneither
    exact hok (.refused hgone (not_not.mp hwaits) (.request hclosed) hrefuses)
  · rw [heq]
    exact Law.lostCall (law_of_gone (Or.inr (Or.inr rfl)) (hinv.broken.quiet_failPending _))
  · rw [heq]
    have hwritten : ({ s with written := s.written ++ [requestFrame id method params] } : JsonRpcTransport).Law :=
      h.flags rfl (fun hgone => hgone) (fun hend hnone => Or.inl ⟨hend, hnone⟩)
    refine hwritten.putCall (fun loss _ hfuture => absurd hfuture.symm (Option.some_ne_none _)) (fun _ hend _ => ?_)
    obtain hover : s.loop.over = true := hend.resolve_right (fun hclosed' => absurd (hclosed.symm.trans hclosed') Bool.false_ne_true)
    refine ⟨hover, ?_⟩
    cases htimeout : timeout with
    | true => rfl
    | false =>
      subst htimeout hwriter
      exact absurd (.unheard hover hclosed htaken) hok

theorem Law.close (h : s.Law) (hinv : s.Inv) (reason : String) : (s.close reason).Law := by
  unfold JsonRpcTransport.close
  split
  · exact h
  · split
    · exact h.flags rfl (fun _ => Or.inl rfl) (fun _ hnone => absurd hnone (Option.some_ne_none _))
    · exact law_of_gone (Or.inl rfl) (hinv.quiet_failPending _)

theorem Law.step (h : s.Law) (hinv : s.Inv) {a : RpcAction} (hok : ¬ s.Breaks json a) (hstep : s.step json a = some s') : s'.Law := by
  cases a with
  | start =>
    obtain rfl := Option.some.inj hstep
    split
    · rename_i hidle
      refine h.flags rfl ?_ (fun hend _ => ?_)
      · rintro (hclosed | hover | hbroken)
        · exact Or.inl hclosed
        · rw [hidle.1] at hover
          cases hover
        · exact Or.inr (Or.inr hbroken)
      · rcases hend with hover | hclosed
        · cases hover
        · exact absurd (hidle.2.symm.trans hclosed) Bool.false_ne_true
    · exact h
  | request id method params timeout writer =>
    simp only [JsonRpcTransport.step] at hstep
    split at hstep
    · cases hstep
    · obtain rfl := Option.some.inj hstep
      exact h.request hinv hok
  | notify method params writer =>
    obtain rfl := Option.some.inj hstep
    refine h.write hinv (fun error hrefuses => ?_)
    by_contra hneither
    obtain ⟨hgone, hwaits⟩ := not_or.mp hneither
    exact hok (.refused hgone (not_not.mp hwaits) .notify hrefuses)
  | resume id =>
    obtain ⟨call, completion, hget, -, -, rfl⟩ := resume_cases hstep
    refine h.putCall (fun loss hsent hfuture => h.failed id call loss hget hsent hfuture) ?_
    intro hwaits
    exact absurd hwaits.2.2 (Option.some_ne_none _)
  | interrupt id cause =>
    obtain ⟨call, hget, -, -, rfl⟩ := interrupt_cases hstep
    refine h.putCall (fun loss hsent hfuture => h.failed id call loss hget hsent hfuture) ?_
    intro hwaits
    exact absurd hwaits.2.1 (Option.some_ne_none _)
  | line text =>
    obtain ⟨-, hnext⟩ := Option.ite_none_right_eq_some.mp hstep
    obtain rfl := Option.some.inj hnext
    unfold JsonRpcTransport.readLine
    split
    · exact h.again hinv
    · rename_i htext
      split
      · exact (h.handle _).again (hinv.handle _)
      · exact h.again hinv
      · exact h.again hinv
      · rename_i hraises
        exact h.loopDies hinv rfl (fun hclosed hwaits => hok (.unread hclosed hwaits htext hraises))
  | endOfInput =>
    obtain ⟨-, hnext⟩ := Option.ite_none_right_eq_some.mp hstep
    obtain rfl := Option.some.inj hnext
    have heof : ({ s with eof := true } : JsonRpcTransport).Law :=
      h.flags rfl (fun hgone => hgone) (fun hend hnone => Or.inl ⟨hend, hnone⟩)
    exact heof.loopEnds (hinv.flags rfl rfl (fun hover => hover) hinv.quiet hinv.closing)
  | readError =>
    obtain ⟨-, hnext⟩ := Option.ite_none_right_eq_some.mp hstep
    obtain rfl := Option.some.inj hnext
    exact h.loopEnds hinv
  | readCancelled =>
    obtain ⟨-, hnext⟩ := Option.ite_none_right_eq_some.mp hstep
    obtain rfl := Option.some.inj hnext
    exact h.loopDies hinv rfl (fun hclosed hwaits => hok (.cancelled hclosed hwaits))
  | served place handled writer =>
    obtain ⟨serving, hserving, ⟨-, rfl⟩ | ⟨frame, hframe, rfl⟩⟩ := served_cases hstep
    · exact h.flags rfl (fun hgone => hgone) (fun hend hnone => Or.inl ⟨hend, hnone⟩)
    · have hserved : ({ s with serving := s.serving.eraseIdx place } : JsonRpcTransport).Law :=
        h.flags rfl (fun hgone => hgone) (fun hend hnone => Or.inl ⟨hend, hnone⟩)
      refine hserved.write (hinv.flags rfl rfl (fun hover => hover) hinv.quiet hinv.closing) (fun error hrefuses => ?_)
      by_contra hneither
      obtain ⟨hgone, hwaits⟩ := not_or.mp hneither
      exact hok (.refused hgone (not_not.mp hwaits) (.served hserving hframe) hrefuses)
  | close reason =>
    obtain rfl := Option.some.inj hstep
    exact h.close hinv reason
  | closeGoesOn =>
    simp only [JsonRpcTransport.step] at hstep
    split at hstep
    · cases hstep
    · rename_i reason hclosing
      obtain rfl := Option.some.inj hstep
      have hclosed : s.closed = true := hinv.closing (by rw [hclosing]; exact Option.some_ne_none _)
      have hquiet : ¬ (s.failPending (.closed reason)).SomeoneWaits := hinv.quiet_failPending _
      exact law_of_gone (Or.inl hclosed) hquiet

/-- A call that waited and is failed with the connection there is against the law. -/
theorem not_law_of_failed {t : JsonRpcTransport} {loss : Loss} (hinv : s.Inv) (hcall : s.calls.get? id = some call)
    (hwaits : call.Waiting) (hget : t.calls.get? id = some (call.fail loss)) (hgone : ¬ t.Gone) : ¬ t.Law := by
  intro hlaw
  have hfail := RpcCall.fail_of_waiting (hinv.kept id call hcall) hwaits loss
  rw [hfail] at hget
  exact hgone (hlaw.failed id _ loss hget (hinv.sent id call hcall hwaits) rfl)

theorem not_law_of_died (hinv : s.Inv) {loop : ReadLoop} (hover : loop.over = true) (hreading : s.loop = .reading)
    (hclosed : s.closed = false) (hwaits : s.SomeoneWaits) : ¬ ({ s with loop := loop } : JsonRpcTransport).Law := by
  obtain ⟨id, call, hget, hcall⟩ := hwaits
  intro hlaw
  have hlate := hinv.late id call hget (hlaw.ended (Or.inl hover) (hinv.closing_none hclosed) id call hget hcall).1
  rw [hreading] at hlate
  cases hlate

theorem Breaks.not_law {a : RpcAction} (h : s.Breaks json a) (hinv : s.Inv) (hstep : s.step json a = some s') : ¬ s'.Law := by
  cases h with
  | @unheard id method params hover hclosed htaken =>
    simp only [JsonRpcTransport.step] at hstep
    split at hstep
    · cases hstep
    · obtain rfl := Option.some.inj hstep
      rcases request_cases json s id method params false none with
        ⟨hclosed', -⟩ | ⟨-, error, hrefuses, -⟩ | ⟨-, -, error, hwriter, -⟩ | ⟨-, -, -, heq⟩
      · exact absurd (hclosed.symm.trans hclosed') Bool.false_ne_true
      · cases htaken.symm.trans hrefuses
      · cases hwriter
      · rw [heq]
        intro hlaw
        have hget : ({ s with written := s.written ++ [requestFrame id method params] }.putCall id (s.newCall false)).calls.get? id =
            some (s.newCall false) := Dict.get?_set_self ..
        exact absurd (hlaw.ended (Or.inl hover) (hinv.closing_none hclosed) id _ hget ⟨rfl, rfl, rfl⟩).2 Bool.false_ne_true
  | @unread text hclosed hwaits htext hraises =>
    obtain ⟨hreading, hnext⟩ := Option.ite_none_right_eq_some.mp hstep
    obtain rfl := Option.some.inj hnext
    have hdied : s.readLine json text = { s with loop := .died } := by
      unfold readLine
      rw [if_neg htext, hraises]
    rw [hdied]
    exact not_law_of_died hinv rfl hreading hclosed hwaits
  | cancelled hclosed hwaits =>
    obtain ⟨hreading, hnext⟩ := Option.ite_none_right_eq_some.mp hstep
    obtain rfl := Option.some.inj hnext
    exact not_law_of_died hinv rfl hreading hclosed hwaits
  | @refused a frame error hgone hwaits hwrites hrefuses =>
    obtain ⟨id, call, hget, hcall⟩ := hwaits
    have hfailed : (s.failPending (.unencodable error)).calls.get? id = some (call.fail (.unencodable error)) := by
      rw [get?_failPending, hget]
      rfl
    have hwrite : ∀ (t : JsonRpcTransport) writer, (t.write json frame writer).1 = t.failPending (.unencodable error) := by
      intro t writer
      unfold write
      rw [hrefuses]
    cases hwrites with
    | @request id' method params timeout writer hclosed =>
      simp only [JsonRpcTransport.step] at hstep
      split at hstep
      · cases hstep
      · rename_i hnew
        obtain rfl := Option.some.inj hstep
        rcases request_cases json s id' method params timeout writer with
          ⟨hclosed', -⟩ | ⟨-, error', hrefuses', heq⟩ | ⟨-, htaken, -⟩ | ⟨-, htaken, -⟩
        · exact absurd (hclosed.symm.trans hclosed') Bool.false_ne_true
        · cases hrefuses.symm.trans hrefuses'
          rw [heq]
          have hne : id ≠ id' := by
            rintro rfl
            cases hnew.symm.trans hget
          exact not_law_of_failed hinv hget hcall ((Dict.get?_set_of_ne _ _ hne).trans hfailed) hgone
        · cases hrefuses.symm.trans htaken
        · cases hrefuses.symm.trans htaken
    | @notify method params writer =>
      obtain rfl := Option.some.inj hstep
      rw [hwrite]
      exact not_law_of_failed hinv hget hcall hfailed hgone
    | @served place handled writer serving frame hplace hframe =>
      obtain ⟨serving', hserving, ⟨hnone, -⟩ | ⟨frame', hframe', rfl⟩⟩ := served_cases hstep
      · cases hplace.symm.trans hserving
        cases hframe.symm.trans hnone
      · cases hplace.symm.trans hserving
        cases hframe.symm.trans hframe'
        rw [hwrite]
        exact not_law_of_failed hinv hget hcall hfailed hgone

/-! ## Each call ends once -/

/-- What a later state says of a call: what its future was settled with stays, and a call that is over is left alone. -/
structure Stays (call call' : RpcCall) : Prop where
  future : ∀ completion, call.future = some completion → call'.future = some completion
  ended : ∀ completion, call.ended = some completion → call' = call

theorem Stays.refl (call : RpcCall) : Stays call call := ⟨fun _ hfuture => hfuture, fun _ _ => rfl⟩

theorem stays_settle {responses : List (String × PyDict)} (h : call.Kept responses id) (hpending : call.pending = true)
    (completion : Completion) : Stays call (call.settle completion) := by
  constructor
  · intro settled hfuture
    rw [RpcCall.settle, if_pos (by simp [RpcCall.done, hfuture])]
    exact hfuture
  · intro ended hended
    rw [(h.ended ended hended).1] at hpending
    cases hpending

theorem stays_fail {responses : List (String × PyDict)} (h : call.Kept responses id) (loss : Loss) : Stays call (call.fail loss) := by
  unfold RpcCall.fail
  split
  · rename_i hpending
    obtain ⟨hfuture, -⟩ := stays_settle h hpending (.lost loss)
    refine ⟨hfuture, fun ended hended => ?_⟩
    rw [(h.ended ended hended).1] at hpending
    cases hpending
  · exact .refl call

/-- A call that is not over is written back with the future it had. -/
theorem stays_open {call' : RpcCall} (hended : call.ended = none) (hfuture : call'.future = call.future) : Stays call call' :=
  ⟨fun _ hsettled => hfuture.trans hsettled, fun _ hover => absurd (hended.symm.trans hover) (Option.some_ne_none _).symm⟩

theorem stays_failPending (hinv : s.Inv) (hget : s.calls.get? id = some call) (loss : Loss) :
    ∃ call', (s.failPending loss).calls.get? id = some call' ∧ Stays call call' := by
  refine ⟨call.fail loss, ?_, stays_fail (hinv.kept id call hget) loss⟩
  rw [get?_failPending, hget]
  rfl

theorem stays_write (hinv : s.Inv) (hget : s.calls.get? id = some call) (frame : PyValue) (writer : Option String) :
    ∃ call', (s.write json frame writer).1.calls.get? id = some call' ∧ Stays call call' := by
  rcases write_cases json s frame writer with ⟨error, -, heq⟩ | ⟨-, error, -, heq⟩ | ⟨-, -, heq⟩
  · rw [heq]
    exact stays_failPending hinv hget _
  · rw [heq]
    exact stays_failPending hinv.broken hget _
  · rw [heq]
    exact ⟨call, hget, .refl call⟩

theorem stays_putCall (hget : s.calls.get? id = some call) {id' : String} {call' : RpcCall}
    (hput : id = id' → Stays call call') : ∃ after, (s.putCall id' call').calls.get? id = some after ∧ Stays call after := by
  rw [get?_putCall]
  split
  · rename_i heq
    exact ⟨call', rfl, hput heq⟩
  · exact ⟨call, hget, .refl call⟩

theorem stays_resolve (hinv : s.Inv) (hget : s.calls.get? id = some call) (key : String) (frame : PyDict) :
    ∃ call', (s.resolve key frame).calls.get? id = some call' ∧ Stays call call' := by
  unfold resolve
  split
  · rename_i found hfound
    split
    · rename_i hpending
      refine stays_putCall (s := { s with responses := s.responses ++ [(key, frame)] }) hget ?_
      rintro rfl
      cases hfound.symm.trans hget
      exact stays_settle (hinv.kept _ _ hget) hpending _
    · exact ⟨call, hget, .refl call⟩
  · exact ⟨call, hget, .refl call⟩

theorem calls_again (s : JsonRpcTransport) : s.again.calls = s.calls := by
  unfold again
  split <;> rfl

theorem stays_readLine (hinv : s.Inv) (hget : s.calls.get? id = some call) (text : String) :
    ∃ call', (s.readLine json text).calls.get? id = some call' ∧ Stays call call' := by
  have hsame : ∃ call', s.calls.get? id = some call' ∧ Stays call call' := ⟨call, hget, .refl call⟩
  unfold readLine
  split
  · rw [calls_again]
    exact hsame
  · split
    · rw [calls_again]
      unfold handle
      split
      · exact hsame
      · exact stays_resolve hinv hget _ _
      · exact hsame
    · rw [calls_again]
      exact hsame
    · rw [calls_again]
      exact hsame
    · exact hsame

theorem stays_loopEnds (hinv : s.Inv) (hget : s.calls.get? id = some call) :
    ∃ call', s.loopEnds.calls.get? id = some call' ∧ Stays call call' := by
  unfold loopEnds
  split
  · exact ⟨call, hget, .refl call⟩
  · exact stays_failPending (s := { s with loop := .ended }) (hinv.flags rfl rfl (fun _ => rfl) hinv.quiet hinv.closing) hget _

theorem stays_step (hinv : s.Inv) (hget : s.calls.get? id = some call) {a : RpcAction} (hstep : s.step json a = some s') :
    ∃ call', s'.calls.get? id = some call' ∧ Stays call call' := by
  cases a with
  | start =>
    obtain rfl := Option.some.inj hstep
    split <;> exact ⟨call, hget, .refl call⟩
  | request id' method params timeout writer =>
    simp only [JsonRpcTransport.step] at hstep
    split at hstep
    · cases hstep
    · rename_i hnew
      obtain rfl := Option.some.inj hstep
      have hput : ∀ {t : JsonRpcTransport} {put : RpcCall}, (∃ call', t.calls.get? id = some call' ∧ Stays call call') →
          ∃ call', (t.putCall id' put).calls.get? id = some call' ∧ Stays call call' := by
        rintro t put ⟨call', hcall', hstays⟩
        have hne : id ≠ id' := by
          rintro rfl
          cases hnew.symm.trans hget
        exact ⟨call', (Dict.get?_set_of_ne _ _ hne).trans hcall', hstays⟩
      rcases request_cases json s id' method params timeout writer with
        ⟨-, heq⟩ | ⟨-, error, -, heq⟩ | ⟨-, -, error, -, heq⟩ | ⟨-, -, -, heq⟩
      · rw [heq]
        exact hput ⟨call, hget, .refl call⟩
      · rw [heq]
        exact hput (stays_failPending hinv hget _)
      · rw [heq]
        exact hput (stays_failPending hinv.broken hget _)
      · rw [heq]
        exact hput ⟨call, hget, .refl call⟩
  | notify method params writer =>
    obtain rfl := Option.some.inj hstep
    exact stays_write hinv hget _ writer
  | resume id' =>
    obtain ⟨found, completion, hfound, hended, -, rfl⟩ := resume_cases hstep
    refine stays_putCall hget ?_
    rintro rfl
    cases hfound.symm.trans hget
    exact stays_open hended rfl
  | interrupt id' cause =>
    obtain ⟨found, hfound, hended, -, rfl⟩ := interrupt_cases hstep
    refine stays_putCall hget ?_
    rintro rfl
    cases hfound.symm.trans hget
    exact stays_open hended rfl
  | line text =>
    obtain ⟨-, hnext⟩ := Option.ite_none_right_eq_some.mp hstep
    obtain rfl := Option.some.inj hnext
    exact stays_readLine hinv hget text
  | endOfInput =>
    obtain ⟨-, hnext⟩ := Option.ite_none_right_eq_some.mp hstep
    obtain rfl := Option.some.inj hnext
    exact stays_loopEnds (s := { s with eof := true }) (hinv.flags rfl rfl (fun hover => hover) hinv.quiet hinv.closing) hget
  | readError =>
    obtain ⟨-, hnext⟩ := Option.ite_none_right_eq_some.mp hstep
    obtain rfl := Option.some.inj hnext
    exact stays_loopEnds hinv hget
  | readCancelled =>
    obtain ⟨-, hnext⟩ := Option.ite_none_right_eq_some.mp hstep
    obtain rfl := Option.some.inj hnext
    exact ⟨call, hget, .refl call⟩
  | served place handled writer =>
    obtain ⟨serving, -, ⟨-, rfl⟩ | ⟨frame, -, rfl⟩⟩ := served_cases hstep
    · exact ⟨call, hget, .refl call⟩
    · exact stays_write (s := { s with serving := s.serving.eraseIdx place })
        (hinv.flags rfl rfl (fun hover => hover) hinv.quiet hinv.closing) hget frame writer
  | close reason =>
    obtain rfl := Option.some.inj hstep
    unfold JsonRpcTransport.close
    split
    · exact ⟨call, hget, .refl call⟩
    · split
      · exact ⟨call, hget, .refl call⟩
      · exact stays_failPending hinv hget _
  | closeGoesOn =>
    simp only [JsonRpcTransport.step] at hstep
    split at hstep
    · cases hstep
    · rename_i reason hclosing
      obtain rfl := Option.some.inj hstep
      exact stays_failPending hinv hget _

end JsonRpcTransport

open JsonRpcTransport in
/-- In every run, a call whose own response has come does not wait; a call that is over ended with its own response, with the loss of the
connection or with its caller's interrupt, and a call that neither waits nor is over goes on; a `close` that waits for the loop can go
on, and then nobody waits; and what a future was settled with, and a call that is over, stay. In every run whose steps do not break the
law it holds: no call is failed while the connection is there, and once the loop is over or the endpoint closed only a call made
afterwards waits, until its timeout. There the next step keeps the law exactly when it does not break it. -/
theorem requests_matched (json : JsonText) :
    (∀ s, Machine.Reach (step json) Machine.anyStep {} s →
      (∀ id call, s.calls.get? id = some call →
        (call.Waiting → call.own s.responses id = none) ∧
        (∀ completion, call.ended = some completion → RpcCall.Accounted (call.own s.responses id) call.interrupt completion) ∧
        (call.ended = none → ¬ call.Waiting → (s.step json (.resume id)).isSome = true)) ∧
      (∀ reason, s.closing = some reason → ∃ s', s.step json .closeGoesOn = some s' ∧ ¬ s'.SomeoneWaits) ∧
      ∀ a s', s.step json a = some s' → ∀ id call, s.calls.get? id = some call →
        ∃ call', s'.calls.get? id = some call' ∧ Stays call call') ∧
    ∀ s, Machine.Reach (step json) (fun s a => ¬ s.Breaks json a) {} s →
      s.Law ∧ ∀ a s', s.step json a = some s' → (s'.Law ↔ ¬ s.Breaks json a) := by
  constructor
  · intro s hreach
    have hinv : s.Inv := inv_reach hreach
    refine ⟨?_, ?_, ?_⟩
    · intro id call hget
      have hkept := hinv.kept id call hget
      refine ⟨fun hwaits => (hkept.waiting hwaits).2, fun completion hended => (hkept.ended completion hended).2, ?_⟩
      intro hended hnot
      obtain ⟨completion, houtcome⟩ := RpcCall.outcome_isSome hended hnot
      simp only [step, hget, hended, houtcome]
      rfl
    · intro reason hclosing
      have hgoes : s.step json .closeGoesOn = some ({ s with closing := none }.failPending (.closed reason)) := by
        simp only [step, hclosing]
      refine ⟨_, hgoes, ?_⟩
      exact hinv.quiet_failPending (.closed reason)
    · intro a s' hstep id call hget
      exact stays_step hinv hget hstep
  · intro s hreach
    have hinv : s.Inv := inv_reach hreach
    have hlaw : s.Inv ∧ s.Law := hreach.invariant (P := fun s => s.Inv ∧ s.Law) ⟨inv_start, law_start⟩ (by
      rintro s a s' ⟨hinv, hlaw⟩ hok hstep
      exact ⟨hinv.step hstep, hlaw.step hinv hok hstep⟩)
    refine ⟨hlaw.2, fun a s' hstep => ⟨fun hlaw' hbreaks => hbreaks.not_law hinv hstep hlaw', fun hok => ?_⟩⟩
    exact hlaw.2.step hinv hok hstep

/-- A peer that sends results for two requests, and otherwise noise. -/
def twoResults : JsonText where
  loads text :=
    if text = "\x7b\"id\": \"req_1\", \"result\": 1\x7d" then
      .value (.record [("id", .str "req_1"), ("result", .int 1)])
    else if text = "\x7b\"id\": \"req_2\", \"result\": 2\x7d" then
      .value (.record [("id", .str "req_2"), ("result", .int 2)])
    else .decodeError
  refuses _ := none

/-- Two concurrent requests: the second is answered first, and each response comes twice, after noise. -/
def twoRequests : List RpcAction :=
  [.start, .request "req_1" "one" none false none, .request "req_2" "two" none false none, .line "noise",
    .line "\x7b\"id\": \"req_2\", \"result\": 2\x7d", .line "\x7b\"id\": \"req_2\", \"result\": 2\x7d",
    .line "\x7b\"id\": \"req_1\", \"result\": 1\x7d", .resume "req_1", .line "\x7b\"id\": \"req_1\", \"result\": 1\x7d",
    .resume "req_2", .endOfInput]

/-- A request is sent while the loop reads, and no read is cancelled. -/
def JsonRpcTransport.calm (s : JsonRpcTransport) : RpcAction → Bool
  | .request .. => !s.loop.over
  | .readCancelled => false
  | _ => true

theorem not_breaks_twoResults {s : JsonRpcTransport} {a : RpcAction} (h : s.calm a = true) : ¬ s.Breaks twoResults a := by
  intro hbreaks
  cases hbreaks with
  | unheard hover =>
    rw [JsonRpcTransport.calm, hover] at h
    cases h
  | unread hclosed hwaits htext hraises =>
    simp only [twoResults] at hraises
    split at hraises
    · cases hraises
    · split at hraises <;> cases hraises
  | cancelled => cases h
  | refused hgone hwaits hwrites hrefuses => cases hrefuses

open JsonRpcTransport in
/-- Two concurrent calls end with their own responses. -/
theorem requests_matched_twoRequests : ∃ s first second,
    Machine.execIf (step twoResults) (fun s a => s.calm a = true) {} twoRequests = some s ∧
    s.calls.get? "req_1" = some first ∧ first.ended = some (.result (.int 1)) ∧
    RpcCall.Accounted (first.own s.responses "req_1") first.interrupt (.result (.int 1)) ∧
    s.calls.get? "req_2" = some second ∧ second.ended = some (.result (.int 2)) ∧ s.Law := by
  refine ⟨_, _, _, rfl, rfl, rfl, ?_, rfl, rfl, ?_⟩
  · have hreach := Machine.Reach.execIf (.start) (rfl : Machine.execIf (step twoResults) (fun s a => s.calm a = true) {} twoRequests = _)
    exact (((requests_matched twoResults).1 _ (hreach.mono (fun _ _ _ => trivial))).1 "req_1" _ rfl).2.1 _ rfl
  · have hreach := Machine.Reach.execIf (.start) (rfl : Machine.execIf (step twoResults) (fun s a => s.calm a = true) {} twoRequests = _)
    exact ((requests_matched twoResults).2 _ (hreach.mono (fun _ _ => not_breaks_twoResults))).1

/-- What the read loop and the callers of requests do by themselves. -/
inductive RpcAction.Alone : RpcAction → Prop where
  | start : Alone .start
  | resume (id : String) : Alone (.resume id)
  | line (text : String) : Alone (.line text)
  | endOfInput : Alone .endOfInput
  | readError : Alone .readError
  | readCancelled : Alone .readCancelled

theorem JsonRpcTransport.waits_alone {json : JsonText} {s s' : JsonRpcTransport} {id : String} {call : RpcCall}
    (hover : s.loop.over = true) (hget : s.calls.get? id = some call) (hwaits : call.Waiting) {as : List RpcAction}
    (halone : ∀ a ∈ as, a.Alone) (hrun : Machine.exec (step json) s as = some s') : s'.calls.get? id = some call := by
  induction as generalizing s with
  | nil =>
    cases hrun
    exact hget
  | cons a as ih =>
    obtain ⟨s₁, hstep, hrest⟩ := Option.bind_eq_some_iff.mp hrun
    have hnot : ¬ s.loop = .reading := by
      intro hreading
      rw [hreading] at hover
      cases hover
    have hsame : s₁.loop = s.loop ∧ s₁.calls.get? id = some call := by
      cases halone a List.mem_cons_self with
      | start =>
        obtain rfl := Option.some.inj hstep
        split
        · rename_i hidle
          rw [hidle.1] at hover
          cases hover
        · exact ⟨rfl, hget⟩
      | resume id' =>
        obtain ⟨found, completion, hfound, -, houtcome, rfl⟩ := resume_cases hstep
        refine ⟨rfl, (Dict.get?_set_of_ne _ _ ?_).trans hget⟩
        rintro rfl
        cases hfound.symm.trans hget
        rw [RpcCall.outcome, hwaits.1, hwaits.2.1] at houtcome
        cases houtcome
      | line text => exact absurd (Option.ite_none_right_eq_some.mp hstep).1 hnot
      | endOfInput => exact absurd (Option.ite_none_right_eq_some.mp hstep).1 hnot
      | readError => exact absurd (Option.ite_none_right_eq_some.mp hstep).1 hnot
      | readCancelled => exact absurd (Option.ite_none_right_eq_some.mp hstep).1 hnot
    refine ih (hsame.1 ▸ hover) hsame.2 (fun a ha => halone a (List.mem_cons_of_mem _ ha)) hrest

open JsonRpcTransport in
/-- A request made after the end of input, without a timeout, waits whatever the loop and the callers do. -/
theorem requests_unheard : ∃ s, Machine.exec (step twoResults) {} [.start, .endOfInput, .request "req_1" "one" none false none] = some s ∧
    s.eof = true ∧ ∀ as s', (∀ a ∈ as, a.Alone) → Machine.exec (step twoResults) s as = some s' →
      ∃ call, s'.calls.get? "req_1" = some call ∧ call.Waiting := by
  refine ⟨_, rfl, rfl, ?_⟩
  intro as s' halone hrun
  exact ⟨_, waits_alone rfl rfl ⟨rfl, rfl, rfl⟩ halone hrun, rfl, rfl, rfl⟩

end Pydsh
