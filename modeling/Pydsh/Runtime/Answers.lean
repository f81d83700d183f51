import Mathlib.Data.List.Perm.Basic
import Pydsh.Runtime.Requests

/-!
# Requests of the peer are answered

Each request of the peer is served in a task of its own, and the task answers it: with the result, or with an error for what the handler
raises. It does not where the handler raises a cancellation, or an exception whose `str` raises, and where `json.dumps` refuses the
result: then `_write` fails everything in the pending table as well, as it does for a notification that is refused. Apart from these,
while the writer works and the endpoint is open, the ids that are answered and being served are those received (`requests_answered`).
-/

namespace Pydsh

/-- The id that a written frame is the response for. -/
def answeredId : PyValue → Option PyValue
  | .dict frame => if (PyDict.get? frame "method").isNone then PyDict.get? frame "id" else none
  | _ => none

theorem answeredId_requestFrame (id method : String) (params : Option PyDict) : answeredId (requestFrame id method params) = none := rfl

theorem answeredId_notificationFrame (method : String) (params : Option PyDict) : answeredId (notificationFrame method params) = none := by
  cases params <;> rfl

theorem answeredId_frame {requestId frame : PyValue} {handled : Handled} (h : handled.frame requestId = some frame) :
    answeredId frame = some requestId := by
  cases handled with
  | result value =>
    cases h
    rfl
  | methodNotFound message =>
    cases h
    rfl
  | failed message =>
    cases h
    rfl
  | unprintable => cases h
  | cancelled => cases h

namespace JsonRpcTransport

variable {json : JsonText} {s s' : JsonRpcTransport}

/-! ## The law -/

/-- The ids of the responses written. -/
def answered (s : JsonRpcTransport) : List PyValue := s.written.filterMap answeredId

/-- The ids being served. -/
def served (s : JsonRpcTransport) : List PyValue := s.serving.map (·.requestId)

/-- The writer works and the endpoint is open. -/
def Up (s : JsonRpcTransport) : Prop := s.closed = false ∧ s.broken = false

/-- While the endpoint is up, each request received is answered once or being served. -/
def Answers (s : JsonRpcTransport) : Prop := s.Up → (s.answered ++ s.served).Perm s.received

/-- An answer or a notification. -/
inductive Emits : RpcAction → Prop where
  | notify (method : String) (params : Option PyDict) (writer : Option String) : Emits (.notify method params writer)
  | served (place : Nat) (handled : Handled) (writer : Option String) : Emits (.served place handled writer)

/-- An answer or a notification, written while the endpoint is up, leaves alone the calls that wait. -/
def Local (s : JsonRpcTransport) (a : RpcAction) (s' : JsonRpcTransport) : Prop :=
  Emits a → s.Up → s'.Up → ∀ id call, s.calls.get? id = some call → call.Waiting → s'.calls.get? id = some call

/-- A step against the law, while the endpoint is up: a handler ends without an answer; or `json.dumps` refuses an answer, or a
notification while some caller waits. -/
inductive Spoils (json : JsonText) (s : JsonRpcTransport) : RpcAction → Prop where
  | unanswered {place : Nat} {handled : Handled} {writer : Option String} {serving : Serving} (hup : s.Up)
    (hplace : s.serving[place]? = some serving) (hnone : handled.frame serving.requestId = none) :
    Spoils json s (.served place handled writer)
  | answer {place : Nat} {handled : Handled} {writer : Option String} {serving : Serving} {frame : PyValue} {error : String} (hup : s.Up)
    (hplace : s.serving[place]? = some serving) (hframe : handled.frame serving.requestId = some frame)
    (hrefuses : json.refuses frame = some error) : Spoils json s (.served place handled writer)
  | notification {method : String} {params : Option PyDict} {writer : Option String} {error : String} (hup : s.Up)
    (hwaits : s.SomeoneWaits) (hrefuses : json.refuses (notificationFrame method params) = some error) :
    Spoils json s (.notify method params writer)

/-! ## What a step writes and receives -/

/-- The requests received, those being served and the responses written are the same. -/
structure SameTraffic (s s' : JsonRpcTransport) : Prop where
  received : s'.received = s.received
  served : s'.served = s.served
  answered : s'.answered = s.answered

theorem SameTraffic.refl (s : JsonRpcTransport) : SameTraffic s s := ⟨rfl, rfl, rfl⟩

theorem SameTraffic.answers (h : SameTraffic s s') (hup : s'.Up → s.Up) (hanswers : s.Answers) : s'.Answers := by
  intro hup'
  rw [h.received, h.served, h.answered]
  exact hanswers (hup hup')

theorem sameTraffic_write (s : JsonRpcTransport) {frame : PyValue} (hframe : answeredId frame = none) (writer : Option String) :
    SameTraffic s (s.write json frame writer).1 := by
  rcases write_cases json s frame writer with ⟨error, -, heq⟩ | ⟨-, error, -, heq⟩ | ⟨-, -, heq⟩
  · rw [heq]
    exact ⟨rfl, rfl, rfl⟩
  · rw [heq]
    exact ⟨rfl, rfl, rfl⟩
  · rw [heq]
    refine ⟨rfl, rfl, ?_⟩
    simp [JsonRpcTransport.answered, hframe]

theorem sameTraffic_request (s : JsonRpcTransport) (id method : String) (params : Option PyDict) (timeout : Bool) (writer : Option String) :
    SameTraffic s (s.request json id method params timeout writer) := by
  rcases request_cases json s id method params timeout writer with
    ⟨-, heq⟩ | ⟨-, error, -, heq⟩ | ⟨-, -, error, -, heq⟩ | ⟨-, -, -, heq⟩
  · rw [heq]
    exact ⟨rfl, rfl, rfl⟩
  · rw [heq]
    exact ⟨rfl, rfl, rfl⟩
  · rw [heq]
    exact ⟨rfl, rfl, rfl⟩
  · rw [heq]
    refine ⟨rfl, rfl, ?_⟩
    simp [JsonRpcTransport.answered, putCall, answeredId_requestFrame]

theorem sameTraffic_resolve (s : JsonRpcTransport) (key : String) (frame : PyDict) : SameTraffic s (s.resolve key frame) := by
  unfold resolve
  split
  · split <;> exact ⟨rfl, rfl, rfl⟩
  · exact ⟨rfl, rfl, rfl⟩

theorem sameTraffic_again (s : JsonRpcTransport) : SameTraffic s s.again := by
  unfold again
  split <;> exact ⟨rfl, rfl, rfl⟩

theorem sameTraffic_loopEnds (s : JsonRpcTransport) : SameTraffic s s.loopEnds := by
  unfold loopEnds
  split <;> exact ⟨rfl, rfl, rfl⟩

theorem sameTraffic_close (s : JsonRpcTransport) (reason : String) : SameTraffic s (s.close reason) := by
  unfold close
  split
  · exact .refl s
  · split <;> exact ⟨rfl, rfl, rfl⟩

/-! ## The flags -/

theorem flags_write (json : JsonText) (s : JsonRpcTransport) (frame : PyValue) (writer : Option String) :
    (s.write json frame writer).1.closed = s.closed ∧ (s.broken = true → (s.write json frame writer).1.broken = true) := by
  rcases write_cases json s frame writer with ⟨error, -, heq⟩ | ⟨-, error, -, heq⟩ | ⟨-, -, heq⟩
  · rw [heq]
    exact ⟨rfl, fun hbroken => hbroken⟩
  · rw [heq]
    exact ⟨rfl, fun _ => rfl⟩
  · rw [heq]
    exact ⟨rfl, fun hbroken => hbroken⟩

theorem flags_request (s : JsonRpcTransport) (id method : String) (params : Option PyDict) (timeout : Bool) (writer : Option String) :
    (s.request json id method params timeout writer).closed = s.closed ∧
      (s.broken = true → (s.request json id method params timeout writer).broken = true) := by
  rcases request_cases json s id method params timeout writer with
    ⟨-, heq⟩ | ⟨-, error, -, heq⟩ | ⟨-, -, error, -, heq⟩ | ⟨-, -, -, heq⟩
  · rw [heq]
    exact ⟨rfl, fun hbroken => hbroken⟩
  · rw [heq]
    exact ⟨rfl, fun hbroken => hbroken⟩
  · rw [heq]
    exact ⟨rfl, fun _ => rfl⟩
  · rw [heq]
    exact ⟨rfl, fun hbroken => hbroken⟩

theorem flags_again (s : JsonRpcTransport) : s.again.closed = s.closed ∧ s.again.broken = s.broken := by
  unfold again
  split <;> exact ⟨rfl, rfl⟩

theorem flags_handle (s : JsonRpcTransport) (frame : PyDict) : (s.handle frame).closed = s.closed ∧ (s.handle frame).broken = s.broken := by
  unfold handle
  split
  · exact ⟨rfl, rfl⟩
  · exact ⟨(resolve_flags s _ frame).2.2.1, (resolve_flags s _ frame).2.2.2.2⟩
  · exact ⟨rfl, rfl⟩

theorem flags_readLine (s : JsonRpcTransport) (text : String) :
    (s.readLine json text).closed = s.closed ∧ (s.readLine json text).broken = s.broken := by
  unfold readLine
  split
  · exact flags_again s
  · split
    · rename_i frame _
      obtain ⟨hclosed, hbroken⟩ := flags_again (s.handle frame)
      exact ⟨hclosed.trans (flags_handle s frame).1, hbroken.trans (flags_handle s frame).2⟩
    · exact flags_again s
    · exact flags_again s
    · exact ⟨rfl, rfl⟩

theorem flags_loopEnds (s : JsonRpcTransport) : s.loopEnds.closed = s.closed ∧ s.loopEnds.broken = s.broken := by
  unfold loopEnds
  split <;> exact ⟨rfl, rfl⟩

/-- Only `close` closes an endpoint, and an endpoint that is closed or whose writer raised stays so. -/
theorem flags_step {a : RpcAction} (hstep : s.step json a = some s') :
    (s'.closed = s.closed ∨ ∃ reason, a = .close reason ∧ s'.closed = true) ∧ (s.broken = true → s'.broken = true) := by
  cases a with
  | start =>
    obtain rfl := Option.some.inj hstep
    split <;> exact ⟨Or.inl rfl, fun hbroken => hbroken⟩
  | request id method params timeout writer =>
    simp only [step] at hstep
    split at hstep
    · cases hstep
    · obtain rfl := Option.some.inj hstep
      exact ⟨Or.inl (flags_request s id method params timeout writer).1, (flags_request s id method params timeout writer).2⟩
  | notify method params writer =>
    obtain rfl := Option.some.inj hstep
    exact ⟨Or.inl (flags_write json s _ writer).1, (flags_write json s _ writer).2⟩
  | resume id =>
    obtain ⟨call, completion, -, -, -, rfl⟩ := resume_cases hstep
    exact ⟨Or.inl rfl, fun hbroken => hbroken⟩
  | interrupt id cause =>
    obtain ⟨call, -, -, -, rfl⟩ := interrupt_cases hstep
    exact ⟨Or.inl rfl, fun hbroken => hbroken⟩
  | line text =>
    obtain ⟨-, hnext⟩ := Option.ite_none_right_eq_some.mp hstep
    obtain rfl := Option.some.inj hnext
    exact ⟨Or.inl (flags_readLine s text).1, fun hbroken => (flags_readLine s text).2.trans hbroken⟩
  | endOfInput =>
    obtain ⟨-, hnext⟩ := Option.ite_none_right_eq_some.mp hstep
    obtain rfl := Option.some.inj hnext
    obtain ⟨hclosed, hbroken⟩ := flags_loopEnds { s with eof := true }
    exact ⟨Or.inl hclosed, fun hbefore => hbroken.trans hbefore⟩
  | readError =>
    obtain ⟨-, hnext⟩ := Option.ite_none_right_eq_some.mp hstep
    obtain rfl := Option.some.inj hnext
    obtain ⟨hclosed, hbroken⟩ := flags_loopEnds s
    exact ⟨Or.inl hclosed, fun hbefore => hbroken.trans hbefore⟩
  | readCancelled =>
    obtain ⟨-, hnext⟩ := Option.ite_none_right_eq_some.mp hstep
    obtain rfl := Option.some.inj hnext
    exact ⟨Or.inl rfl, fun hbroken => hbroken⟩
  | served place handled writer =>
    obtain ⟨serving, -, ⟨-, rfl⟩ | ⟨frame, -, rfl⟩⟩ := served_cases hstep
    · exact ⟨Or.inl rfl, fun hbroken => hbroken⟩
    · obtain ⟨hclosed, hbroken⟩ := flags_write json { s with serving := s.serving.eraseIdx place } frame writer
      exact ⟨Or.inl hclosed, hbroken⟩
  | close reason =>
    obtain rfl := Option.some.inj hstep
    unfold JsonRpcTransport.close
    split
    · exact ⟨Or.inl rfl, fun hbroken => hbroken⟩
    · split <;> exact ⟨Or.inr ⟨reason, rfl, rfl⟩, fun hbroken => hbroken⟩
  | closeGoesOn =>
    simp only [step] at hstep
    split at hstep
    · cases hstep
    · obtain rfl := Option.some.inj hstep
      exact ⟨Or.inl rfl, fun hbroken => hbroken⟩

theorem up_of_step {a : RpcAction} (hstep : s.step json a = some s') (hup : s'.Up) : s.Up := by
  obtain ⟨hclosed, hbroken⟩ := flags_step hstep
  constructor
  · rcases hclosed with hsame | ⟨reason, -, hclosed⟩
    · exact hsame ▸ hup.1
    · exact absurd (hup.1.symm.trans hclosed) Bool.false_ne_true
  · cases hbefore : s.broken with
    | false => rfl
    | true => exact absurd (hup.2.symm.trans (hbroken hbefore)) Bool.false_ne_true

/-! ## Each step -/

/-- A request comes with its id received and being served; every other frame leaves the traffic alone. -/
theorem answers_handle (h : s.Answers) (frame : PyDict) : (s.handle frame).Answers := by
  unfold handle
  split
  · rename_i id text method _ _
    intro hup
    have hbefore := (h hup).append_right [id]
    have hserved : s.answered ++ (s.serving ++ [Serving.mk id method (frameParams frame)]).map (·.requestId) =
        s.answered ++ s.served ++ [id] := by
      simp [served]
    rw [← hserved] at hbefore
    exact hbefore
  · refine (sameTraffic_resolve s _ frame).answers (fun hup => ?_) h
    obtain ⟨-, -, hclosed, -, hbroken⟩ := resolve_flags s _ frame
    exact ⟨hclosed ▸ hup.1, hbroken ▸ hup.2⟩
  · exact h

theorem answers_again (h : s.Answers) : s.again.Answers :=
  (sameTraffic_again s).answers (fun hup => ⟨(flags_again s).1 ▸ hup.1, (flags_again s).2 ▸ hup.2⟩) h

theorem answers_readLine (h : s.Answers) (text : String) : (s.readLine json text).Answers := by
  unfold readLine
  split
  · exact answers_again h
  · split
    · exact answers_again (answers_handle h _)
    · exact answers_again h
    · exact answers_again h
    · exact h

theorem perm_served {place : Nat} {serving : Serving} (h : s.serving[place]? = some serving) :
    s.served.Perm (serving.requestId :: (s.serving.eraseIdx place).map (·.requestId)) := by
  obtain ⟨hlt, rfl⟩ := List.getElem?_eq_some_iff.mp h
  have hperm := (List.getElem_cons_eraseIdx_perm hlt).symm.map (·.requestId)
  rw [List.map_cons] at hperm
  exact hperm

theorem answers_served (h : s.Answers) {place : Nat} {handled : Handled} {writer : Option String} {serving : Serving} {frame : PyValue}
    (hplace : s.serving[place]? = some serving) (hframe : handled.frame serving.requestId = some frame)
    (htaken : json.refuses frame = none) : ({ s with serving := s.serving.eraseIdx place }.write json frame writer).1.Answers := by
  rcases write_cases json { s with serving := s.serving.eraseIdx place } frame writer with
    ⟨error, hrefuses, -⟩ | ⟨-, error, -, heq⟩ | ⟨-, -, heq⟩
  · cases htaken.symm.trans hrefuses
  · rw [heq]
    intro hup
    exact absurd hup.2.symm Bool.false_ne_true
  · rw [heq]
    intro hup
    have hanswered : (s.written ++ [frame]).filterMap answeredId = s.answered ++ [serving.requestId] := by
      simp [answered, answeredId_frame hframe]
    have hmoved : (s.answered ++ [serving.requestId] ++ (s.serving.eraseIdx place).map (·.requestId)).Perm (s.answered ++ s.served) := by
      rw [List.append_assoc]
      exact (perm_served hplace).symm.append_left s.answered
    have hall := hmoved.trans (h hup)
    rw [← hanswered] at hall
    exact hall

theorem answers_step (h : s.Answers) {a : RpcAction} (hok : ¬ Spoils json s a) (hstep : s.step json a = some s') : s'.Answers := by
  have hup : s'.Up → s.Up := up_of_step hstep
  cases a with
  | start =>
    obtain rfl := Option.some.inj hstep
    split
    · exact h
    · exact h
  | request id method params timeout writer =>
    simp only [step] at hstep
    split at hstep
    · cases hstep
    · obtain rfl := Option.some.inj hstep
      exact (sameTraffic_request s id method params timeout writer).answers hup h
  | notify method params writer =>
    obtain rfl := Option.some.inj hstep
    exact (sameTraffic_write s (answeredId_notificationFrame method params) writer).answers hup h
  | resume id =>
    obtain ⟨call, completion, -, -, -, rfl⟩ := resume_cases hstep
    exact h
  | interrupt id cause =>
    obtain ⟨call, -, -, -, rfl⟩ := interrupt_cases hstep
    exact h
  | line text =>
    obtain ⟨-, hnext⟩ := Option.ite_none_right_eq_some.mp hstep
    obtain rfl := Option.some.inj hnext
    exact answers_readLine h text
  | endOfInput =>
    obtain ⟨-, hnext⟩ := Option.ite_none_right_eq_some.mp hstep
    obtain rfl := Option.some.inj hnext
    have hsame := sameTraffic_loopEnds { s with eof := true }
    exact SameTraffic.answers ⟨hsame.received, hsame.served, hsame.answered⟩ hup h
  | readError =>
    obtain ⟨-, hnext⟩ := Option.ite_none_right_eq_some.mp hstep
    obtain rfl := Option.some.inj hnext
    exact (sameTraffic_loopEnds s).answers hup h
  | readCancelled =>
    obtain ⟨-, hnext⟩ := Option.ite_none_right_eq_some.mp hstep
    obtain rfl := Option.some.inj hnext
    exact h
  | served place handled writer =>
    intro hup'
    obtain ⟨serving, hserving, ⟨hnone, -⟩ | ⟨frame, hframe, rfl⟩⟩ := served_cases hstep
    · exact absurd (.unanswered (hup hup') hserving hnone) hok
    · cases hrefuses : json.refuses frame with
      | some error => exact absurd (.answer (hup hup') hserving hframe hrefuses) hok
      | none => exact answers_served h hserving hframe hrefuses hup'
  | close reason =>
    obtain rfl := Option.some.inj hstep
    exact (sameTraffic_close s reason).answers hup h
  | closeGoesOn =>
    simp only [step] at hstep
    split at hstep
    · cases hstep
    · obtain rfl := Option.some.inj hstep
      exact h

/-- A step that does not spoil the law leaves alone the calls that wait. -/
theorem local_step {a : RpcAction} (hok : ¬ Spoils json s a) (hstep : s.step json a = some s') : Local s a s' := by
  intro hemits hup hup' id call hget hwaits
  cases hemits with
  | notify method params writer =>
    obtain rfl := Option.some.inj hstep
    rcases write_cases json s (notificationFrame method params) writer with ⟨error, hrefuses, -⟩ | ⟨-, error, -, heq⟩ | ⟨-, -, heq⟩
    · exact absurd (.notification hup ⟨id, call, hget, hwaits⟩ hrefuses) hok
    · rw [heq] at hup'
      exact absurd hup'.2.symm Bool.false_ne_true
    · rw [heq]
      exact hget
  | served place handled writer =>
    obtain ⟨serving, hserving, ⟨hnone, -⟩ | ⟨frame, hframe, rfl⟩⟩ := served_cases hstep
    · exact absurd (.unanswered hup hserving hnone) hok
    · rcases write_cases json { s with serving := s.serving.eraseIdx place } frame writer with
        ⟨error, hrefuses, -⟩ | ⟨-, error, -, heq⟩ | ⟨-, -, heq⟩
      · exact absurd (.answer hup hserving hframe hrefuses) hok
      · rw [heq] at hup'
        exact absurd hup'.2.symm Bool.false_ne_true
      · rw [heq]
        exact hget

/-- A request that is not served any more and was not answered is missing. -/
theorem not_answers_of_missing (hanswers : s'.Answers) (h : s.Answers) (hup : s.Up) (hup' : s'.Up) {place : Nat} {serving : Serving}
    (hplace : s.serving[place]? = some serving) (hreceived : s'.received = s.received)
    (hserved : s'.served = (s.serving.eraseIdx place).map (·.requestId)) (hanswered : s'.answered = s.answered) : False := by
  have hbefore := (h hup).length_eq
  have hafter := (hanswers hup').length_eq
  have hmoved := (perm_served hplace).length_eq
  rw [hreceived, hanswered, hserved] at hafter
  simp only [List.length_append, List.length_cons] at hbefore hafter hmoved
  omega

theorem Spoils.not_kept {a : RpcAction} (h : Spoils json s a) (hinv : s.Inv) (hanswers : s.Answers) (hstep : s.step json a = some s') :
    ¬ (s'.Answers ∧ Local s a s') := by
  cases h with
  | @unanswered place handled writer serving hup hplace hnone =>
    obtain ⟨serving', hserving, ⟨-, rfl⟩ | ⟨frame, hframe, -⟩⟩ := served_cases hstep
    · exact fun hboth => not_answers_of_missing hboth.1 hanswers hup hup hplace rfl rfl rfl
    · cases hplace.symm.trans hserving
      cases hnone.symm.trans hframe
  | @answer place handled writer serving frame error hup hplace hframe hrefuses =>
    obtain ⟨serving', hserving, ⟨hnone, -⟩ | ⟨frame', hframe', rfl⟩⟩ := served_cases hstep
    · cases hplace.symm.trans hserving
      cases hframe.symm.trans hnone
    · cases hplace.symm.trans hserving
      cases hframe.symm.trans hframe'
      rcases write_cases json { s with serving := s.serving.eraseIdx place } frame writer with
        ⟨error', -, heq⟩ | ⟨htaken, -⟩ | ⟨htaken, -⟩
      · rw [heq]
        exact fun hboth => not_answers_of_missing hboth.1 hanswers hup hup hplace rfl rfl rfl
      · cases hrefuses.symm.trans htaken
      · cases hrefuses.symm.trans htaken
  | @notification method params writer error hup hwaits hrefuses =>
    obtain ⟨id, call, hget, hcall⟩ := hwaits
    obtain rfl := Option.some.inj hstep
    rcases write_cases json s (notificationFrame method params) writer with ⟨error', -, heq⟩ | ⟨htaken, -⟩ | ⟨htaken, -⟩
    · rw [heq]
      rintro ⟨-, hlocal⟩
      have hsame := hlocal (.notify method params writer) hup hup id call hget hcall
      rw [get?_failPending, hget, Option.map_some, RpcCall.fail_of_waiting (hinv.kept id call hget) hcall] at hsame
      have hfuture := congrArg RpcCall.future (Option.some.inj hsame)
      exact absurd (hfuture.trans hcall.1) (Option.some_ne_none _)
    · cases hrefuses.symm.trans htaken
    · cases hrefuses.symm.trans htaken

end JsonRpcTransport

open JsonRpcTransport in
/-- In every run whose steps do not spoil the law, while the endpoint is up each request received is answered once or being served; and
the next step keeps that and leaves alone the calls that wait, if it is an answer or a notification, exactly when it does not spoil the
law. -/
theorem requests_answered (json : JsonText) :
    ∀ s, Machine.Reach (step json) (fun s a => ¬ Spoils json s a) {} s →
      s.Answers ∧ ∀ a s', s.step json a = some s' → ((s'.Answers ∧ Local s a s') ↔ ¬ Spoils json s a) := by
  intro s hreach
  have hanswers : s.Answers := hreach.invariant (fun _ => .refl _) (fun _ _ _ hanswers hok hstep => answers_step hanswers hok hstep)
  refine ⟨hanswers, fun a s' hstep => ⟨fun hkept hspoils => ?_, fun hok => ⟨answers_step hanswers hok hstep, local_step hok hstep⟩⟩⟩
  exact hspoils.not_kept (inv_reach hreach) hanswers hstep hkept

/-- Every frame that is written is taken by `json.dumps`, and every handler has an answer. -/
def JsonRpcTransport.unspoiled (json : JsonText) (s : JsonRpcTransport) : RpcAction → Bool
  | .notify method params _ => (json.refuses (notificationFrame method params)).isNone
  | .served place handled _ =>
    match s.serving[place]? with
    | none => true
    | some serving =>
      match handled.frame serving.requestId with
      | none => false
      | some frame => (json.refuses frame).isNone
  | _ => true

theorem not_spoils_of_unspoiled {json : JsonText} {s : JsonRpcTransport} {a : RpcAction} (h : s.unspoiled json a = true) :
    ¬ JsonRpcTransport.Spoils json s a := by
  intro hspoils
  cases hspoils with
  | unanswered hup hplace hnone => simp [JsonRpcTransport.unspoiled, hplace, hnone] at h
  | answer hup hplace hframe hrefuses => simp [JsonRpcTransport.unspoiled, hplace, hframe, hrefuses] at h
  | notification hup hwaits hrefuses => simp [JsonRpcTransport.unspoiled, hrefuses] at h

/-- A peer that sends two requests, one with an integer for its id, and otherwise noise. -/
def twoInbound : JsonText where
  loads text :=
    if text = "\x7b\"id\": 7, \"method\": \"list\"\x7d" then .value (.record [("id", .int 7), ("method", .str "list")])
    else if text = "\x7b\"id\": \"a\", \"method\": \"run\"\x7d" then .value (.record [("id", .str "a"), ("method", .str "run")])
    else .decodeError
  refuses value := if value.reload.isSome then none else some "Object of type object is not JSON serializable"

/-- Both are served, the later one first. -/
def servedInbound : List RpcAction :=
  [.start, .line "\x7b\"id\": 7, \"method\": \"list\"\x7d", .line "\x7b\"id\": \"a\", \"method\": \"run\"\x7d",
    .served 1 (.failed "no session") none, .served 0 (.result (.list [])) none]

open JsonRpcTransport in
/-- Two requests are answered, the later one first and with an error. -/
theorem requests_answered_twoInbound : ∃ s,
    Machine.execIf (step twoInbound) (fun s a => s.unspoiled twoInbound a = true) {} servedInbound = some s ∧
    s.Up ∧ s.received = [.int 7, .str "a"] ∧ s.answered = [.str "a", .int 7] ∧ s.Answers := by
  refine ⟨_, rfl, ⟨rfl, rfl⟩, rfl, rfl, ?_⟩
  have hrun : Machine.execIf (step twoInbound) (fun s a => s.unspoiled twoInbound a = true) {} servedInbound = _ := rfl
  have hreach := Machine.Reach.execIf .start hrun
  exact (requests_answered twoInbound _ (hreach.mono (fun _ _ => not_spoils_of_unspoiled))).1

open JsonRpcTransport in
/-- A handler's result that `json.dumps` refuses: the request is not answered, and a call that has nothing to do with it is failed. -/
theorem request_unanswered : ∃ s call,
    Machine.exec (step twoInbound) {} [.start, .request "req_1" "one" none false none,
      .line "\x7b\"id\": 7, \"method\": \"list\"\x7d", .served 0 (.result .object) none] = some s ∧
    s.Up ∧ s.received = [.int 7] ∧ s.served = [] ∧ s.answered = [] ∧ s.calls.get? "req_1" = some call ∧
    call.future = some (.lost (.unencodable "Object of type object is not JSON serializable")) :=
  ⟨_, _, rfl, ⟨rfl, rfl⟩, rfl, rfl, rfl, rfl, rfl⟩

end Pydsh
