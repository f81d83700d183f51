import Pydsh.Lib.Dict
import Pydsh.Lib.Machine
import Pydsh.Python.Dynamic

/-!
# The messages of an MCP server

`mcp/client.py`, `McpClient`: requests wait for their responses in a table by id, and `_on_message` takes whatever object the server
sends. An object with an id goes to `_resolve`, whether it has a method or not, and its id is looked up as Python looks up dict keys; so
a request of the server completes the pending request that has its id, and `true` is the id `1`. And an id or a method that cannot be
hashed, or an error that is no object, raises into the transport's read loop (`mcp_messages_matched`).
-/

namespace Pydsh

/-- What a future is settled with: a result, or an `McpError`. -/
inductive McpOutcome where
  | result (value : PyValue)
  | error (message code : PyValue)

/-- How a call of `request` ends. -/
inductive McpEnd where
  | outcome (outcome : McpOutcome)
  | refused
  | unsent (error : String)
  | timedOut
  | cancelled

/-- A call of `request`. -/
structure McpCall where
  method : String
  /-- Its send is awaited. -/
  sending : Bool := true
  /-- Its future is in `_pending`. -/
  pending : Bool := true
  future : Option McpOutcome := none
  /-- The message that settled its future. -/
  settledBy : Option PyDict := none
  ended : Option McpEnd := none

/-- An `McpClient`: its calls by id, the methods that have a handler, what the handlers were called with, and what `_on_message` raised. -/
structure McpClient where
  nextId : Nat := 0
  calls : Dict Nat McpCall := .empty
  handlers : List String := []
  handled : List (String × PyValue) := []
  closed : Bool := false
  raised : Option String := none

/-- What happens to a client. -/
inductive McpAction where
  | onNotification (method : String)
  | request (method : String)
  /-- The transport sent a request, or failed to. -/
  | sent (id : Nat) (error : Option String)
  | message (payload : PyDict)
  | timedOut (id : Nat)
  | cancelled (id : Nat)
  /-- The caller of a request goes on. -/
  | resume (id : Nat)
  | close (reason : String)

namespace McpCall

/-- `request` is over; its `finally` takes the future out of the table. -/
def finish (call : McpCall) (how : McpEnd) : McpCall :=
  { call with
    pending := false
    ended := some how }

end McpCall

/-- The number that a dict key of a request id would be. -/
def HashKey.natural? : HashKey → Option Nat
  | .number q => if q.den = 1 ∧ 0 ≤ q.num then some q.num.toNat else Option.none
  | _ => Option.none

namespace McpClient

def putCall (s : McpClient) (id : Nat) (call : McpCall) : McpClient := { s with calls := s.calls.set id call }

/-- `self._pending.get(message_id)`, where the future is not done. -/
def waiting? (s : McpClient) (key : HashKey) : Option (Nat × McpCall) :=
  key.natural?.bind (fun id => (s.calls.get? id).bind (fun call => if call.pending && call.future.isNone then some (id, call) else none))

/-- What a message settles a future with; `error.get` raises on an error that is no object. -/
def outcomeOf (payload : PyDict) : Except String McpOutcome :=
  match payload.get? "error" with
  | none | some .none => .ok (.result ((payload.get? "result").getD .none))
  | some error => do
    let message ← error.getAttr "message" (.str "MCP error")
    let code ← error.getAttr "code"
    return .error message code

/-- `_resolve`. -/
def resolve (s : McpClient) (messageId : PyValue) (payload : PyDict) : Except String McpClient := do
  let key ← messageId.hashKey
  match s.waiting? key with
  | none => return s
  | some (id, call) =>
    let outcome ← outcomeOf payload
    return s.putCall id { call with
      future := some outcome
      settledBy := some payload }

/-- The id of a message, if it has one that is not `None`. -/
def messageId (payload : PyDict) : Option PyValue :=
  match payload.get? "id" with
  | none | some .none => none
  | some id => some id

/-- `_on_message`. -/
def onMessage (s : McpClient) (payload : PyDict) : Except String McpClient :=
  match messageId payload with
  | some id => s.resolve id payload
  | none => do
    let key ← ((payload.get? "method").getD .none).hashKey
    match key with
    | .str method =>
      if method ∈ s.handlers then
        return { s with handled := s.handled ++ [(method, ((payload.get? "params").getD .none).orElse (.dict []))] }
      else return s
    | _ => return s

/-- What an action does; `none` where it cannot happen. -/
def step (s : McpClient) : McpAction → Option McpClient
  | .onNotification method => some { s with handlers := s.handlers ++ [method] }
  | .request method =>
    if s.closed then some s
    else some { s.putCall (s.nextId + 1) { method } with nextId := s.nextId + 1 }
  | .sent id error =>
    match s.calls.get? id with
    | none => none
    | some call =>
      if call.ended.isSome || !call.sending then none
      else
        match error with
        | some error => some (s.putCall id (call.finish (.unsent error)))
        | none => some (s.putCall id { call with sending := false })
  | .message payload =>
    match s.onMessage payload with
    | .ok s' => some s'
    | .error error => some { s with raised := some error }
  | .timedOut id =>
    match s.calls.get? id with
    | none => none
    | some call => if call.ended.isSome || call.sending || call.future.isSome then none else some (s.putCall id (call.finish .timedOut))
  | .cancelled id =>
    match s.calls.get? id with
    | none => none
    | some call => if call.ended.isSome then none else some (s.putCall id (call.finish .cancelled))
  | .resume id =>
    match s.calls.get? id with
    | none => none
    | some call =>
      if call.ended.isSome || call.sending then none
      else call.future.map (fun outcome => s.putCall id (call.finish (.outcome outcome)))
  | .close reason =>
    if s.closed then some s
    else
      some { s with
        closed := true
        calls := s.calls.mapValues (fun call =>
          if call.pending then
            { call with
              pending := false
              future := some (call.future.getD (.error (.str reason) .none)) }
          else call) }

/-! ## The law -/

/-- A message is the response for a request: it has no method, and its id is the number. -/
def IsResponse (payload : PyDict) (id : Nat) : Prop :=
  (payload.get? "method" = none ∨ payload.get? "method" = some .none) ∧
    (payload.get? "id" = some (.int id) ∨ payload.get? "id" = some (.float (.finite id)))

/-- A future is settled by a message, with what it says, or by the close of the client; and a message that settles it is the response
for its request. -/
structure McpCall.Matched (id : Nat) (call : McpCall) (closed : Bool) : Prop where
  settled : ∀ outcome, call.future = some outcome →
    (∃ payload, call.settledBy = some payload ∧ outcomeOf payload = .ok outcome) ∨ closed = true
  matched : ∀ payload, call.settledBy = some payload → IsResponse payload id

/-- `_on_message` has not raised, and requests are completed by their responses. -/
structure Law (s : McpClient) : Prop where
  raised : s.raised = none
  matched : ∀ id call, s.calls.get? id = some call → McpCall.Matched id call s.closed

/-- Objects of the server that are against the law: an id that cannot be hashed; without an id, a method that cannot; or, with the id of
a request that waits, an error that is no object, or else what is no response for it. -/
inductive Breaks (s : McpClient) : McpAction → Prop where
  | id {payload : PyDict} {id : PyValue} {error : String} (hid : messageId payload = some id) (hhash : id.hashKey = .error error) :
    Breaks s (.message payload)
  | method {payload : PyDict} {error : String} (hid : messageId payload = none)
    (hhash : ((payload.get? "method").getD .none).hashKey = .error error) : Breaks s (.message payload)
  | error {payload : PyDict} {messageId : PyValue} {key : HashKey} {waiting : Nat × McpCall} {error : String}
    (hid : McpClient.messageId payload = some messageId) (hhash : messageId.hashKey = .ok key) (hwaiting : s.waiting? key = some waiting)
    (herror : outcomeOf payload = .error error) : Breaks s (.message payload)
  | response {payload : PyDict} {messageId : PyValue} {key : HashKey} {id : Nat} {call : McpCall} {outcome : McpOutcome}
    (hid : McpClient.messageId payload = some messageId) (hhash : messageId.hashKey = .ok key) (hwaiting : s.waiting? key = some (id, call))
    (houtcome : outcomeOf payload = .ok outcome) (hnot : ¬ IsResponse payload id) : Breaks s (.message payload)

variable {s s' : McpClient} {id : Nat} {call : McpCall}

/-- What a message does: it raises; or it settles the future of a request that waits; or it leaves the requests alone. -/
theorem onMessage_cases (s : McpClient) (payload : PyDict) :
    (∃ error, s.onMessage payload = .error error ∧ s.Breaks (.message payload)) ∨
    (∃ messageId key id call outcome, McpClient.messageId payload = some messageId ∧ messageId.hashKey = .ok key ∧
      s.waiting? key = some (id, call) ∧ outcomeOf payload = .ok outcome ∧
      s.onMessage payload = .ok (s.putCall id { call with
        future := some outcome
        settledBy := some payload })) ∨
    ∃ s', s.onMessage payload = .ok s' ∧ s'.calls = s.calls ∧ s'.closed = s.closed ∧ s'.raised = s.raised ∧
      ¬ s.Breaks (.message payload) := by
  cases hid : messageId payload with
  | none =>
    cases hhash : ((payload.get? "method").getD .none).hashKey with
    | error error =>
      refine Or.inl ⟨error, ?_, .method hid hhash⟩
      simp only [onMessage, hid, hhash]
      rfl
    | ok key =>
      have hfine : ¬ s.Breaks (.message payload) := by
        rintro (⟨hid', -⟩ | ⟨-, hhash'⟩ | ⟨hid', -⟩ | ⟨hid', -⟩)
        · cases hid.symm.trans hid'
        · cases hhash.symm.trans hhash'
        · cases hid.symm.trans hid'
        · cases hid.symm.trans hid'
      have hsame : ∃ s', s.onMessage payload = .ok s' ∧ s'.calls = s.calls ∧ s'.closed = s.closed ∧ s'.raised = s.raised := by
        simp only [onMessage, hid, hhash]
        cases key with
        | str method =>
          by_cases hmem : method ∈ s.handlers
          · exact ⟨_, if_pos hmem, rfl, rfl, rfl⟩
          · exact ⟨_, if_neg hmem, rfl, rfl, rfl⟩
        | _ => exact ⟨s, rfl, rfl, rfl, rfl⟩
      obtain ⟨s', hok, hcalls, hclosed, hraised⟩ := hsame
      exact Or.inr (Or.inr ⟨s', hok, hcalls, hclosed, hraised, hfine⟩)
  | some messageId =>
    have heq : s.onMessage payload = s.resolve messageId payload := by simp only [onMessage, hid]
    cases hhash : messageId.hashKey with
    | error error =>
      refine Or.inl ⟨error, ?_, .id hid hhash⟩
      rw [heq, resolve, hhash]
      rfl
    | ok key =>
      cases hwaiting : s.waiting? key with
      | none =>
        refine Or.inr (Or.inr ⟨s, ?_, rfl, rfl, rfl, ?_⟩)
        · rw [heq, resolve, hhash]
          simp only [bind, Except.bind, hwaiting]
          rfl
        · rintro (⟨hid', hhash'⟩ | ⟨hid', -⟩ | ⟨hid', hhash', hwaiting'⟩ | ⟨hid', hhash', hwaiting'⟩)
          · cases hid.symm.trans hid'
            cases hhash.symm.trans hhash'
          · cases hid.symm.trans hid'
          · cases hid.symm.trans hid'
            cases hhash.symm.trans hhash'
            cases hwaiting.symm.trans hwaiting'
          · cases hid.symm.trans hid'
            cases hhash.symm.trans hhash'
            cases hwaiting.symm.trans hwaiting'
      | some found =>
        obtain ⟨id, call⟩ := found
        cases houtcome : outcomeOf payload with
        | error error =>
          refine Or.inl ⟨error, ?_, .error hid hhash hwaiting houtcome⟩
          rw [heq, resolve, hhash]
          simp only [bind, Except.bind, hwaiting, houtcome]
        | ok outcome =>
          refine Or.inr (Or.inl ⟨messageId, key, id, call, outcome, rfl, hhash, hwaiting, rfl, ?_⟩)
          rw [heq, resolve, hhash]
          simp only [bind, Except.bind, hwaiting, houtcome]
          rfl

/-! ## Each step -/

theorem law_start : ({} : McpClient).Law := by
  constructor
  · rfl
  · rintro id call ⟨⟩

theorem Law.putCall (h : s.Law) (hmatched : McpCall.Matched id call s.closed) : (s.putCall id call).Law := by
  refine ⟨h.raised, fun id' call' hget => ?_⟩
  rw [McpClient.putCall, Dict.get?_set] at hget
  split at hget
  · rename_i heq
    cases hget
    exact heq ▸ hmatched
  · exact h.matched id' call' hget

theorem Law.putSame (h : s.Law) {call' : McpCall} (hget : s.calls.get? id = some call) (hfuture : call'.future = call.future)
    (hsettled : call'.settledBy = call.settledBy) : (s.putCall id call').Law := by
  have hmatched := h.matched id call hget
  refine h.putCall ⟨?_, ?_⟩
  · rw [hfuture, hsettled]
    exact hmatched.settled
  · rw [hsettled]
    exact hmatched.matched

theorem Law.step (h : s.Law) {a : McpAction} (hok : ¬ s.Breaks a) (hstep : s.step a = some s') : s'.Law := by
  cases a with
  | onNotification method =>
    obtain rfl := Option.some.inj hstep
    exact ⟨h.raised, h.matched⟩
  | request method =>
    simp only [McpClient.step] at hstep
    split at hstep
    · obtain rfl := Option.some.inj hstep
      exact h
    · obtain rfl := Option.some.inj hstep
      have hput : (s.putCall (s.nextId + 1) { method }).Law := by
        refine h.putCall ⟨?_, ?_⟩
        · rintro outcome ⟨⟩
        · rintro payload ⟨⟩
      exact ⟨hput.raised, hput.matched⟩
  | sent id error =>
    simp only [McpClient.step] at hstep
    split at hstep
    · cases hstep
    · rename_i call hget
      split at hstep
      · cases hstep
      · split at hstep
        · obtain rfl := Option.some.inj hstep
          exact h.putSame hget rfl rfl
        · obtain rfl := Option.some.inj hstep
          exact h.putSame hget rfl rfl
  | message payload =>
    simp only [McpClient.step] at hstep
    rcases onMessage_cases s payload with
      ⟨error, -, hbreaks⟩ | ⟨messageId, key, id, call, outcome, hid, hhash, hwaiting, houtcome, heq⟩ |
      ⟨t, heq, hcalls, hclosed, hraised, -⟩
    · exact absurd hbreaks hok
    · rw [heq] at hstep
      obtain rfl := Option.some.inj hstep
      refine h.putCall ⟨?_, ?_⟩
      · rintro outcome' ⟨⟩
        exact Or.inl ⟨payload, rfl, houtcome⟩
      · rintro payload' ⟨⟩
        by_contra hnot
        exact hok (.response hid hhash hwaiting houtcome hnot)
    · rw [heq] at hstep
      obtain rfl := Option.some.inj hstep
      refine ⟨hraised.trans h.raised, fun id call hget => ?_⟩
      rw [hclosed]
      exact h.matched id call (hcalls ▸ hget)
  | timedOut id =>
    simp only [McpClient.step] at hstep
    split at hstep
    · cases hstep
    · rename_i call hget
      split at hstep
      · cases hstep
      · obtain rfl := Option.some.inj hstep
        exact h.putSame hget rfl rfl
  | cancelled id =>
    simp only [McpClient.step] at hstep
    split at hstep
    · cases hstep
    · rename_i call hget
      split at hstep
      · cases hstep
      · obtain rfl := Option.some.inj hstep
        exact h.putSame hget rfl rfl
  | resume id =>
    simp only [McpClient.step] at hstep
    split at hstep
    · cases hstep
    · rename_i call hget
      split at hstep
      · cases hstep
      · obtain ⟨outcome, -, rfl⟩ := Option.map_eq_some_iff.mp hstep
        exact h.putSame hget rfl rfl
  | close reason =>
    simp only [McpClient.step] at hstep
    split at hstep
    · obtain rfl := Option.some.inj hstep
      exact h
    · obtain rfl := Option.some.inj hstep
      refine ⟨h.raised, fun id call hget => ⟨fun _ _ => Or.inr rfl, ?_⟩⟩
      rw [Dict.get?_mapValues] at hget
      obtain ⟨before, hbefore, rfl⟩ := Option.map_eq_some_iff.mp hget
      have hmatched := (h.matched id before hbefore).matched
      split
      · exact hmatched
      · exact hmatched

theorem Breaks.not_law {a : McpAction} (h : s.Breaks a) (hstep : s.step a = some s') : ¬ s'.Law := by
  intro hlaw
  obtain ⟨payload, rfl⟩ : ∃ payload, a = .message payload := by
    cases h with
    | id => exact ⟨_, rfl⟩
    | method => exact ⟨_, rfl⟩
    | error => exact ⟨_, rfl⟩
    | response => exact ⟨_, rfl⟩
  simp only [McpClient.step] at hstep
  rcases onMessage_cases s payload with
    ⟨error, heq, -⟩ | ⟨messageId, key, id, call, outcome, hid, hhash, hwaiting, houtcome, heq⟩ | ⟨t, -, -, -, -, hnot⟩
  · rw [heq] at hstep
    obtain rfl := Option.some.inj hstep
    cases hlaw.raised
  · rw [heq] at hstep
    obtain rfl := Option.some.inj hstep
    have hresponse : IsResponse payload id := (hlaw.matched id _ (Dict.get?_set_self ..)).matched payload rfl
    cases h with
    | id hid' hhash' =>
      cases hid.symm.trans hid'
      cases hhash.symm.trans hhash'
    | method hid' => cases hid.symm.trans hid'
    | error hid' hhash' hwaiting' herror => cases houtcome.symm.trans herror
    | response hid' hhash' hwaiting' houtcome' hnot =>
      cases hid.symm.trans hid'
      cases hhash.symm.trans hhash'
      cases hwaiting.symm.trans hwaiting'
      exact hnot hresponse
  · exact hnot h

end McpClient

open McpClient in
/-- In every run without a message against the law, `_on_message` has not raised, and requests are completed by their responses or by the
close of the client; and the next step keeps that exactly when it is no such message. -/
theorem mcp_messages_matched : ∀ s, Machine.Reach step (fun s a => ¬ s.Breaks a) {} s →
    s.Law ∧ ∀ a s', s.step a = some s' → (s'.Law ↔ ¬ s.Breaks a) := by
  intro s hreach
  have hlaw : s.Law := hreach.invariant law_start (fun _ _ _ hlaw hok hstep => hlaw.step hok hstep)
  refine ⟨hlaw, fun a s' hstep => ⟨fun hlaw' hbreaks => hbreaks.not_law hstep hlaw', fun hok => hlaw.step hok hstep⟩⟩

/-- Two requests, answered in the other order. -/
def twoMcpRequests : List McpAction :=
  [.request "initialize", .request "tools/list", .sent 1 none, .sent 2 none,
    .message [(.str "id", .int 2), (.str "result", .list [])], .message [(.str "id", .str "2"), (.str "result", .bool true)],
    .message [(.str "id", .int 1), (.str "error", .dict [(.str "message", .str "no")])], .resume 2, .resume 1]

/-- A message that is a notification or a response with an integer for its id, and whose error is an object. -/
def McpAction.proper : McpAction → Bool
  | .message payload =>
    (match payload.get? "id" with
      | none => match payload.get? "method" with
        | some (.str _) => true
        | _ => false
      | some (.int _) => (payload.get? "method").isNone
      | some (.str _) => true
      | _ => false) &&
    (match payload.get? "error" with
      | none => true
      | some (.dict _) => true
      | _ => false)
  | _ => true

theorem McpClient.waiting?_int {s : McpClient} {i : Int} {id : Nat} {call : McpCall} (h : s.waiting? (.number i) = some (id, call)) :
    i = id := by
  obtain ⟨id', hid', h⟩ := Option.bind_eq_some_iff.mp h
  obtain ⟨found, -, h⟩ := Option.bind_eq_some_iff.mp h
  split at h
  · cases h
    simp only [HashKey.natural?] at hid'
    split at hid'
    · rename_i hnatural
      cases hid'
      have hnonneg : 0 ≤ i := by simpa using hnatural.2
      simp [Int.toNat_of_nonneg hnonneg]
    · cases hid'
  · cases h

theorem McpClient.outcomeOf_ok {payload : PyDict} (h : payload.get? "error" = none ∨ ∃ error, payload.get? "error" = some (.dict error)) :
    ∃ outcome, outcomeOf payload = .ok outcome := by
  unfold outcomeOf
  rcases h with hnone | ⟨error, herror⟩
  · rw [hnone]
    exact ⟨_, rfl⟩
  · rw [herror]
    exact ⟨_, rfl⟩

theorem McpClient.not_breaks_of_proper {s : McpClient} {a : McpAction} (h : a.proper = true) : ¬ s.Breaks a := by
  cases a with
  | message payload =>
    obtain ⟨hid, herror⟩ := Bool.and_eq_true_iff.mp h
    obtain ⟨outcome, houtcome⟩ : ∃ outcome, outcomeOf payload = .ok outcome := by
      apply outcomeOf_ok
      split at herror
      · rename_i hnone
        exact Or.inl hnone
      · rename_i error hsome
        exact Or.inr ⟨error, hsome⟩
      · cases herror
    split at hid
    · rename_i hnone
      have hmessage : messageId payload = none := by simp only [messageId, hnone]
      split at hid
      · rename_i method hmethod
        rintro (⟨hid', -⟩ | ⟨-, hhash⟩ | ⟨hid', -⟩ | ⟨hid', -⟩)
        · cases hmessage.symm.trans hid'
        · rw [hmethod] at hhash
          cases hhash
        · cases hmessage.symm.trans hid'
        · cases hmessage.symm.trans hid'
      · cases hid
    · rename_i i hint
      have hmessage : messageId payload = some (.int i) := by simp only [messageId, hint]
      rintro (⟨hid', hhash⟩ | ⟨hid', -⟩ | ⟨-, -, -, herror'⟩ | ⟨hid', hhash, hwaiting, -, hnot⟩)
      · cases hmessage.symm.trans hid'
        cases hhash
      · cases hmessage.symm.trans hid'
      · cases houtcome.symm.trans herror'
      · cases hmessage.symm.trans hid'
        cases hhash
        refine hnot ⟨Or.inl (by simpa using hid), Or.inl ?_⟩
        rw [hint, waiting?_int hwaiting]
    · rename_i text hstr
      have hmessage : messageId payload = some (.str text) := by simp only [messageId, hstr]
      rintro (⟨hid', hhash⟩ | ⟨hid', -⟩ | ⟨-, -, -, herror'⟩ | ⟨hid', hhash, hwaiting, -, -⟩)
      · cases hmessage.symm.trans hid'
        cases hhash
      · cases hmessage.symm.trans hid'
      · cases houtcome.symm.trans herror'
      · cases hmessage.symm.trans hid'
        cases hhash
        cases hwaiting
    · cases hid
  | _ =>
    intro hbreaks
    cases hbreaks

open McpClient in
/-- Two requests end with their own responses. -/
theorem mcp_messages_matched_two : ∃ s, Machine.execIf step (fun _ a => a.proper = true) {} twoMcpRequests = some s ∧ s.Law ∧
    (∃ call, s.calls.get? 2 = some call ∧ call.ended = some (.outcome (.result (.list [])))) ∧
    ∃ call, s.calls.get? 1 = some call ∧ call.ended = some (.outcome (.error (.str "no") .none)) := by
  have hrun : Machine.execIf step (fun _ a => a.proper = true) {} twoMcpRequests = _ := rfl
  have hreach := Machine.Reach.execIf .start hrun
  exact ⟨_, rfl, (mcp_messages_matched _ (hreach.mono (fun _ _ => not_breaks_of_proper))).1, ⟨_, rfl, rfl⟩, ⟨_, rfl, rfl⟩⟩

open McpClient in
/-- A request of the server completes the pending request that has its id. -/
theorem mcp_request_completes : ∃ s call,
    Machine.exec step {} [.request "tools/call", .sent 1 none,
      .message [(.str "id", .int 1), (.str "method", .str "sampling/createMessage"), (.str "params", .dict [])]] = some s ∧
    s.calls.get? 1 = some call ∧ call.future = some (.result .none) ∧ ¬ s.Law := by
  refine ⟨_, _, rfl, rfl, rfl, ?_⟩
  intro hlaw
  have hresponse := (hlaw.matched 1 _ rfl).matched _ rfl
  rcases hresponse.1 with hnone | hnone
  · cases hnone
  · cases hnone

end Pydsh
