import Pydsh.Lib.Dict
import Pydsh.Lib.Noninterference
import Pydsh.Message.Payload
import Pydsh.Session.Replay

/-!
# What a connection is told

`runtime/server.py` over one host: every append to a session of the host and every change of an agent's status is broadcast to the server
of each connection, which forwards what is of a session that it has an agent on. So a connection is sent what happens in the sessions it
has opened, from then on, each once and in the order of the log, until it is shut down; and nothing that is done with other sessions
changes that. No listener of a broadcast appends, so an append and its broadcast are one step. What the
transport makes of a notification is the matter of the endpoint.
-/

namespace Pydsh

/-- A notification of a server: `session.event`, or `session.status`. -/
inductive RuntimeNotification where
  | event (sessionId : String) (seq : Nat) (type : EventType) (time : Rat) (data : PyValue)
  | status (sessionId status : String)

/-- What is broadcast on the host: an append to a session object, or a change of the status of an agent. -/
inductive Broadcast where
  | event (object : Nat) (sessionId : String) (event : SessionEvent)
  | status (agentId status : String)

/-- The session that a notification is about. -/
def RuntimeNotification.sessionId : RuntimeNotification → String
  | .event id _ _ _ _ => id
  | .status id _ => id

namespace Broadcast

/-- The session that a broadcast is about; an agent has the id of its session. -/
def sessionId : Broadcast → String
  | .event _ id _ => id
  | .status id _ => id

/-- What a server sends of a broadcast. An event's data passed the gate of its session, so `encode_payload` takes it. -/
def notification : Broadcast → RuntimeNotification
  | .event _ id e => .event id e.seq e.type e.time (encodePayload e.data.loads)
  | .status id text => .status id text

/-- The event of a broadcast of a session object. -/
def eventOf (object : Nat) : Broadcast → Option SessionEvent
  | .event object' _ e => if object' = object then some e else none
  | .status _ _ => none

end Broadcast

/-- A `RuntimeServer`: its agents, of which each has the number of the broadcasts before it was made; whether its subscriptions are not
released; and what it notified its peer of. -/
structure RuntimeServer where
  agents : Dict String Nat := .empty
  subscribed : Bool := true
  shutDown : Bool := false
  sent : List RuntimeNotification := []

namespace RuntimeServer

/-- `_on_session_event` and `_on_agent_status`. -/
def forward (server : RuntimeServer) (b : Broadcast) : RuntimeServer :=
  if (server.agents.get? b.sessionId).isSome then { server with sent := server.sent ++ [b.notification] } else server

/-- A broadcast reaches the server through its subscriptions. -/
def hears (server : RuntimeServer) (b : Broadcast) : RuntimeServer := if server.subscribed then server.forward b else server

/-- `shutdown`. -/
def shutdown (server : RuntimeServer) : RuntimeServer :=
  if server.shutDown then server
  else
    { server with
      agents := .empty
      subscribed := false
      shutDown := true }

end RuntimeServer

/-- What `_deliver` reads of a request: the text of a session id that is true, and whether its content gives blocks. -/
structure RuntimeRequest where
  sessionId : Option String
  blocks : Bool := true

/-- A session whose header has its id, as every session of a store. -/
abbrev StoredSession : Type := { s : Session // s.header.id = s.id }

/-- A host: its session objects, those that are live by id, the servers by connection, and what was broadcast. -/
structure RuntimeHost where
  sessions : Dict Nat Session := .empty
  live : Dict String Nat := .empty
  servers : Dict Nat RuntimeServer := .empty
  broadcasts : List Broadcast := []

/-- What happens on a host. -/
inductive RuntimeAction where
  | connect (connection : Nat)
  /-- A session object comes live: other code creates it, or resumes it. -/
  | enter (object : Nat) (session : StoredSession)
  | remove (id : String)
  /-- `session/prompt` or `session/run`: a session that has to be created is the object of this number, and the factory makes an agent or
  raises. -/
  | deliver (connection : Nat) (request : RuntimeRequest) (object : Nat) (made : Bool)
  /-- The connection's `shutdown`, or its release by the gateway. -/
  | shutdown (connection : Nat)
  /-- Something is appended to a session. -/
  | append (object : Nat) (call : AppendCall)
  /-- An agent on a session changes its status. -/
  | status (object : Nat) (status : String)

/-- `Agent.id`. -/
def agentId (session : Session) : String := if session.header.id = "" then session.id else session.header.id

namespace RuntimeHost

/-- A session object comes into the store. -/
def enter (s : RuntimeHost) (object : Nat) (session : Session) : RuntimeHost :=
  { s with
    sessions := s.sessions.set object session
    live := s.live.set session.id object }

/-- `emit_contained`, to the servers. -/
def broadcast (s : RuntimeHost) (b : Broadcast) : RuntimeHost :=
  { s with
    servers := s.servers.mapValues (·.hears b)
    broadcasts := s.broadcasts ++ [b] }

/-- `sessions.get(session_id) or sessions.create(session_id)`. -/
def sessionFor (s : RuntimeHost) (id : String) (object : Nat) : RuntimeHost :=
  match s.live.get? id with
  | some _ => s
  | none => s.enter object (Session.new id { id })

/-- `_agent_for`, where the connection has no agent on the session. -/
def agentFor (s : RuntimeHost) (connection : Nat) (server : RuntimeServer) (id : String) (object : Nat) (made : Bool) : RuntimeHost :=
  let s' := s.sessionFor id object
  if made then
    { s' with servers := s'.servers.set connection { server with agents := server.agents.set id s.broadcasts.length } }
  else s'

/-- `_deliver`; a request that it refuses changes nothing. -/
def deliver (s : RuntimeHost) (connection : Nat) (server : RuntimeServer) (request : RuntimeRequest) (object : Nat) (made : Bool) :
    RuntimeHost :=
  if server.shutDown then s
  else
    match request.sessionId with
    | none => s
    | some id =>
      if request.blocks then
        match server.agents.get? id with
        | some _ => s
        | none => s.agentFor connection server id object made
      else s

/-- What an action does; `none` where it cannot happen. -/
def step (s : RuntimeHost) : RuntimeAction → Option RuntimeHost
  | .connect connection =>
    match s.servers.get? connection with
    | none => some { s with servers := s.servers.set connection {} }
    | some _ => none
  | .enter object session =>
    match s.sessions.get? object with
    | none => some (s.enter object session.val)
    | some _ => none
  | .remove id => some { s with live := s.live.pop id }
  | .deliver connection request object made =>
    match s.servers.get? connection, s.sessions.get? object with
    | some server, none => some (s.deliver connection server request object made)
    | _, _ => none
  | .shutdown connection =>
    match s.servers.get? connection with
    | some server => some { s with servers := s.servers.set connection server.shutdown }
    | none => none
  | .append object call =>
    match s.sessions.get? object with
    | none => none
    | some session =>
      let s' := { s with sessions := s.sessions.set object (session.append call).2 }
      match (session.append call).1 with
      | .ok event => some (s'.broadcast (.event object session.id event))
      | .error _ => some s'
  | .status object status =>
    match s.sessions.get? object with
    | none => none
    | some session => some (s.broadcast (.status (agentId session) status))

/-! ## What a connection is due -/

/-- The broadcasts that are of the sessions of a connection, each from when its agent was made on. -/
def due (agents : Dict String Nat) (broadcasts : List Broadcast) : List RuntimeNotification :=
  broadcasts.zipIdx.filterMap (fun entry =>
    if (agents.get? entry.1.sessionId).any (fun since => decide (since ≤ entry.2)) then some entry.1.notification else none)

/-- What was broadcast of a session object, in order. -/
def eventsOf (s : RuntimeHost) (object : Nat) : List SessionEvent := s.broadcasts.filterMap (Broadcast.eventOf object)

/-- What a connection was sent. -/
def sentTo (s : RuntimeHost) (connection : Nat) : List RuntimeNotification := ((s.servers.get? connection).map RuntimeServer.sent).getD []

theorem due_append (agents : Dict String Nat) (broadcasts : List Broadcast) (b : Broadcast) :
    due agents (broadcasts ++ [b]) = due agents broadcasts ++
      (if (agents.get? b.sessionId).any (fun since => decide (since ≤ broadcasts.length)) then [b.notification] else []) := by
  unfold due
  rw [List.zipIdx_append, List.filterMap_append]
  congr 1
  simp only [List.zipIdx_cons, List.zipIdx_nil, Nat.zero_add, List.filterMap_cons, List.filterMap_nil]
  split <;> simp_all

/-- An agent that is made now makes nothing due that was broadcast before. -/
theorem due_opened {agents : Dict String Nat} {id : String} (hnew : agents.get? id = none) (broadcasts : List Broadcast) :
    due (agents.set id broadcasts.length) broadcasts = due agents broadcasts := by
  unfold due
  refine List.filterMap_congr ?_
  rintro ⟨b, place⟩ hmem
  have hlt : place < broadcasts.length := by
    have hle := (List.mem_zipIdx hmem).2.1
    omega
  simp only [Dict.get?_set]
  by_cases hid : b.sessionId = id
  · rw [if_pos hid, hid, hnew]
    simp [Nat.not_le_of_lt hlt]
  · rw [if_neg hid]

theorem due_empty (broadcasts : List Broadcast) : due .empty broadcasts = [] := by
  unfold due
  rw [List.filterMap_eq_nil_iff]
  intro entry _
  rfl

/-! ## What a server was sent -/

variable {s t s' : RuntimeHost}

/-- A server that is not shut down was sent what it is due; one that is has no agents and hears nothing. -/
structure Told (broadcasts : List Broadcast) (server : RuntimeServer) : Prop where
  sent : server.shutDown = false → server.sent = due server.agents broadcasts
  subscribed : server.subscribed = !server.shutDown
  made : ∀ id since, server.agents.get? id = some since → since ≤ broadcasts.length

theorem Told.hears {broadcasts : List Broadcast} {server : RuntimeServer} (h : Told broadcasts server) (b : Broadcast) :
    Told (broadcasts ++ [b]) (server.hears b) := by
  have hany : ((server.agents.get? b.sessionId).any (fun since => decide (since ≤ broadcasts.length))) =
      (server.agents.get? b.sessionId).isSome := by
    cases hget : server.agents.get? b.sessionId with
    | none => rfl
    | some since => simpa using h.made _ since hget
  have hmade : ∀ id since, server.agents.get? id = some since → since ≤ (broadcasts ++ [b]).length := by
    intro id since hget
    have hle := h.made id since hget
    simp only [List.length_append, List.length_singleton]
    omega
  unfold RuntimeServer.hears
  split
  · rename_i hsubscribed
    have hopen : server.shutDown = false := by simpa [h.subscribed] using hsubscribed
    unfold RuntimeServer.forward
    split
    · rename_i hopened
      refine ⟨?_, h.subscribed, hmade⟩
      intro _
      rw [due_append, hany, if_pos hopened, h.sent hopen]
    · rename_i hnot
      refine ⟨?_, h.subscribed, hmade⟩
      intro _
      rw [due_append, hany, if_neg hnot, h.sent hopen, List.append_nil]
  · rename_i hnot
    have hshut : server.shutDown = true := by simpa [h.subscribed] using hnot
    refine ⟨?_, h.subscribed, hmade⟩
    intro hopen
    exact absurd (hopen.symm.trans hshut) Bool.false_ne_true

theorem Told.shutdown {broadcasts : List Broadcast} {server : RuntimeServer} (h : Told broadcasts server) :
    Told broadcasts server.shutdown := by
  unfold RuntimeServer.shutdown
  split
  · exact h
  · refine ⟨?_, rfl, ?_⟩
    · rintro ⟨⟩
    · rintro id since ⟨⟩

theorem Told.opened {broadcasts : List Broadcast} {server : RuntimeServer} (h : Told broadcasts server) {id : String}
    (hnew : server.agents.get? id = none) : Told broadcasts { server with agents := server.agents.set id broadcasts.length } := by
  refine ⟨?_, h.subscribed, ?_⟩
  · intro hopen
    exact (h.sent hopen).trans (due_opened hnew broadcasts).symm
  · intro id' since hget
    rw [Dict.get?_set] at hget
    split at hget
    · cases hget
      exact Nat.le_refl _
    · exact h.made id' since hget

/-- Every server was told what it was due. -/
def AllTold (s : RuntimeHost) : Prop := ∀ connection server, s.servers.get? connection = some server → Told s.broadcasts server

theorem AllTold.set (h : s.AllTold) (sessions : Dict Nat Session) (live : Dict String Nat) {connection : Nat} {server : RuntimeServer}
    (htold : Told s.broadcasts server) : ({ s with
      sessions
      live
      servers := s.servers.set connection server } : RuntimeHost).AllTold := by
  intro other found hget
  simp only [Dict.get?_set] at hget
  split at hget
  · cases hget
    exact htold
  · exact h other found hget

theorem AllTold.broadcast (h : s.AllTold) (b : Broadcast) : (s.broadcast b).AllTold := by
  intro connection server hget
  simp only [RuntimeHost.broadcast, Dict.get?_mapValues] at hget
  obtain ⟨before, hbefore, rfl⟩ := Option.map_eq_some_iff.mp hget
  exact (h connection before hbefore).hears b

theorem sessionFor_cases (s : RuntimeHost) (id : String) (object : Nat) :
    ((∃ found, s.live.get? id = some found) ∧ s.sessionFor id object = s) ∨
    (s.live.get? id = none ∧ s.sessionFor id object = s.enter object (Session.new id { id })) := by
  unfold sessionFor
  split
  · rename_i found hlive
    exact Or.inl ⟨⟨found, hlive⟩, rfl⟩
  · rename_i hnone
    exact Or.inr ⟨hnone, rfl⟩

/-- A request is refused, or is for an agent that there is; or an agent is to be made. -/
theorem deliver_cases (s : RuntimeHost) (connection : Nat) (server : RuntimeServer) (request : RuntimeRequest) (object : Nat)
    (made : Bool) : s.deliver connection server request object made = s ∨
      ∃ id, server.shutDown = false ∧ request.sessionId = some id ∧ request.blocks = true ∧ server.agents.get? id = none ∧
        s.deliver connection server request object made = s.agentFor connection server id object made := by
  unfold deliver
  split
  · exact Or.inl rfl
  · rename_i hopen
    split
    · exact Or.inl rfl
    · rename_i id hid
      split
      · rename_i hblocks
        split
        · exact Or.inl rfl
        · rename_i hnone
          exact Or.inr ⟨id, by simpa using hopen, hid, hblocks, hnone, rfl⟩
      · exact Or.inl rfl

/-- What an append does: it is broadcast with its event, or raises and is not. -/
theorem append_step {object : Nat} {call : AppendCall} (hstep : s.step (.append object call) = some s') :
    ∃ session, s.sessions.get? object = some session ∧
      ((∃ event, (session.append call).1 = .ok event ∧
        s' = ({ s with sessions := s.sessions.set object (session.append call).2 } : RuntimeHost).broadcast
          (.event object session.id event)) ∨
      (∃ error, (session.append call).1 = .error error ∧
        s' = { s with sessions := s.sessions.set object (session.append call).2 })) := by
  simp only [step] at hstep
  split at hstep
  · cases hstep
  · rename_i session hsession
    refine ⟨session, hsession, ?_⟩
    split at hstep
    · rename_i event hevent
      obtain rfl := Option.some.inj hstep
      exact Or.inl ⟨event, hevent, rfl⟩
    · rename_i error herror
      obtain rfl := Option.some.inj hstep
      exact Or.inr ⟨error, herror, rfl⟩

/-- What an action does: a connection is new; a session object comes in, or an entry goes; a request is refused, or is for an agent that
there is, or an agent is to be made; a server shuts down; an append is broadcast, or raises and is not; a status is broadcast. -/
inductive Does (s : RuntimeHost) : RuntimeAction → RuntimeHost → Prop where
  | connects {connection : Nat} (hnew : s.servers.get? connection = none) :
      Does s (.connect connection) { s with servers := s.servers.set connection {} }
  | enters {object : Nat} {session : StoredSession} (hfresh : s.sessions.get? object = none) :
      Does s (.enter object session) (s.enter object session.val)
  | removes (id : String) : Does s (.remove id) { s with live := s.live.pop id }
  | settles {connection object : Nat} {request : RuntimeRequest} {made : Bool} : Does s (.deliver connection request object made) s
  | makes {connection object : Nat} {request : RuntimeRequest} {made : Bool} {server : RuntimeServer} {id : String}
      (hserver : s.servers.get? connection = some server) (hfresh : s.sessions.get? object = none) (hopen : server.shutDown = false)
      (hid : request.sessionId = some id) (hagent : server.agents.get? id = none) :
      Does s (.deliver connection request object made) (s.agentFor connection server id object made)
  | shutsDown {connection : Nat} {server : RuntimeServer} (hserver : s.servers.get? connection = some server) :
      Does s (.shutdown connection) { s with servers := s.servers.set connection server.shutdown }
  | appends {object : Nat} {call : AppendCall} {session : Session} {event : SessionEvent}
      (hsession : s.sessions.get? object = some session) (hevent : (session.append call).1 = .ok event) : Does s (.append object call)
        (({ s with sessions := s.sessions.set object (session.append call).2 } : RuntimeHost).broadcast (.event object session.id event))
  | raises {object : Nat} {call : AppendCall} {session : Session} {error : SessionError}
      (hsession : s.sessions.get? object = some session) (herror : (session.append call).1 = .error error) :
      Does s (.append object call) { s with sessions := s.sessions.set object (session.append call).2 }
  | reports {object : Nat} {status : String} {session : Session} (hsession : s.sessions.get? object = some session) :
      Does s (.status object status) (s.broadcast (.status (agentId session) status))

theorem does_of_step {a : RuntimeAction} (hstep : s.step a = some s') : s.Does a s' := by
  cases a with
  | connect connection =>
    simp only [step] at hstep
    split at hstep
    · rename_i hnew
      obtain rfl := Option.some.inj hstep
      exact .connects hnew
    · cases hstep
  | enter object session =>
    simp only [step] at hstep
    split at hstep
    · rename_i hfresh
      obtain rfl := Option.some.inj hstep
      exact .enters hfresh
    · cases hstep
  | remove id =>
    obtain rfl := Option.some.inj hstep
    exact .removes id
  | deliver connection request object made =>
    simp only [step] at hstep
    split at hstep
    · rename_i server hserver hfresh
      obtain rfl := Option.some.inj hstep
      rcases deliver_cases s connection server request object made with heq | ⟨id, hopen, hid, -, hagent, heq⟩
      · rw [heq]
        exact .settles
      · rw [heq]
        exact .makes hserver hfresh hopen hid hagent
    · cases hstep
  | shutdown connection =>
    simp only [step] at hstep
    split at hstep
    · rename_i hserver
      obtain rfl := Option.some.inj hstep
      exact .shutsDown hserver
    · cases hstep
  | append object call =>
    obtain ⟨session, hsession, ⟨event, hevent, rfl⟩ | ⟨error, herror, rfl⟩⟩ := append_step hstep
    · exact .appends hsession hevent
    · exact .raises hsession herror
  | status object status =>
    simp only [step] at hstep
    split at hstep
    · cases hstep
    · rename_i hsession
      obtain rfl := Option.some.inj hstep
      exact .reports hsession

theorem AllTold.agentFor (h : s.AllTold) {connection : Nat} {server : RuntimeServer} (hserver : s.servers.get? connection = some server)
    {id : String} (hnew : server.agents.get? id = none) (object : Nat) (made : Bool) :
    (s.agentFor connection server id object made).AllTold := by
  have htold := (h connection server hserver).opened hnew
  unfold RuntimeHost.agentFor
  rcases sessionFor_cases s id object with ⟨-, heq⟩ | ⟨-, heq⟩
  · rw [heq]
    simp only
    split
    · exact h.set s.sessions s.live htold
    · exact h
  · rw [heq]
    simp only
    split
    · exact h.set _ _ htold
    · exact h

theorem AllTold.step (h : s.AllTold) {a : RuntimeAction} (hstep : s.step a = some s') : s'.AllTold := by
  cases does_of_step hstep with
  | connects _ =>
    refine h.set s.sessions s.live ⟨?_, rfl, ?_⟩
    · intro _
      exact (due_empty s.broadcasts).symm
    · rintro id since ⟨⟩
  | enters _ => exact h
  | removes id => exact h
  | settles => exact h
  | makes hserver _ _ _ hagent => exact h.agentFor hserver hagent _ _
  | shutsDown hserver => exact h.set s.sessions s.live (h _ _ hserver).shutdown
  | @appends object call session event _ _ =>
    exact AllTold.broadcast (s := { s with sessions := s.sessions.set object (session.append call).2 }) h _
  | raises _ _ => exact h
  | reports _ => exact h.broadcast _

theorem AllTold.shut (h : s.AllTold) {a : RuntimeAction} (hstep : s.step a = some s') {connection : Nat} {server : RuntimeServer}
    (hserver : s.servers.get? connection = some server) (hshut : server.shutDown = true) : s'.servers.get? connection = some server := by
  have hdeaf : server.subscribed = false := by rw [(h connection server hserver).subscribed, hshut]; rfl
  have hbroadcast : ∀ {t : RuntimeHost} (b : Broadcast), t.servers = s.servers →
      (t.broadcast b).servers.get? connection = some server := by
    intro t b hsame
    simp [RuntimeHost.broadcast, Dict.get?_mapValues, hsame, hserver, RuntimeServer.hears, hdeaf]
  have hset : ∀ {other : Nat} {found after : RuntimeServer}, s.servers.get? other = some found →
      (found.shutDown = true → after = found) → (s.servers.set other after).get? connection = some server := by
    intro other found after hfound hsame
    rw [Dict.get?_set]
    split
    · rename_i heq
      subst heq
      obtain rfl := Option.some.inj (hserver.symm.trans hfound)
      rw [hsame hshut]
    · exact hserver
  cases does_of_step hstep with
  | connects hnew =>
    rw [Dict.get?_set, if_neg, hserver]
    rintro rfl
    rw [hnew] at hserver
    cases hserver
  | enters _ => exact hserver
  | removes id => exact hserver
  | settles => exact hserver
  | @makes _ object _ made found id hfound _ hopen _ _ =>
    have hopened : ∀ after, found.shutDown = true → after = found :=
      fun _ hclosed => absurd (hopen.symm.trans hclosed) Bool.false_ne_true
    unfold RuntimeHost.agentFor
    rcases sessionFor_cases s id object with ⟨-, hsame⟩ | ⟨-, hentered⟩
    · rw [hsame]
      simp only
      split
      · exact hset hfound (hopened _)
      · exact hserver
    · rw [hentered]
      simp only
      split
      · exact hset hfound (hopened _)
      · exact hserver
  | shutsDown hfound =>
    refine hset hfound ?_
    intro hclosed
    unfold RuntimeServer.shutdown
    rw [if_pos hclosed]
  | appends _ _ => exact hbroadcast _ rfl
  | raises _ _ => exact hserver
  | reports _ => exact hbroadcast _ rfl

/-! ## What was broadcast of a session -/

/-- An append raises with its event in the log: a replacement that names no run of the surface. -/
inductive FailsLate (s : RuntimeHost) : RuntimeAction → Prop where
  | append {object : Nat} {call : AppendCall} {session : Session} (hsession : s.sessions.get? object = some session)
    (hrun : call.ReplacesNoRun session) : FailsLate s (.append object call)

/-- From one state to another a session object has logged what was broadcast of it, in that order. -/
def Logged (s t : RuntimeHost) : Prop :=
  ∀ object session, s.sessions.get? object = some session → ∃ session' events, t.sessions.get? object = some session' ∧
    session'.events = session.events ++ events ∧ t.eventsOf object = s.eventsOf object ++ events

theorem logged_of_same (hsessions : ∀ object session, s.sessions.get? object = some session → t.sessions.get? object = some session)
    (hbroadcasts : t.broadcasts = s.broadcasts) : s.Logged t := by
  intro object session hsession
  refine ⟨session, [], hsessions object session hsession, (List.append_nil _).symm, ?_⟩
  rw [List.append_nil, eventsOf, hbroadcasts, eventsOf]

theorem Logged.trans (h : s.Logged t) (h' : t.Logged s') : s.Logged s' := by
  intro object session hsession
  obtain ⟨session', events, hsession', hlog, hbroadcast⟩ := h object session hsession
  obtain ⟨session'', events', hsession'', hlog', hbroadcast'⟩ := h' object session' hsession'
  exact ⟨session'', events ++ events', hsession'', by rw [hlog', hlog, List.append_assoc],
    by rw [hbroadcast', hbroadcast, List.append_assoc]⟩

theorem sessions_enter {object : Nat} (hfresh : s.sessions.get? object = none) (entered : Session) :
    ∀ object' session, s.sessions.get? object' = some session → (s.enter object entered).sessions.get? object' = some session := by
  intro object' session hsession
  simp only [RuntimeHost.enter]
  rw [Dict.get?_set, if_neg, hsession]
  rintro rfl
  rw [hfresh] at hsession
  cases hsession

/-- An append to a session object that changes its log as much as what is broadcast. -/
theorem logged_append {object : Nat} {session session' : Session} (hsession : s.sessions.get? object = some session)
    {events : List SessionEvent} (hlog : session'.events = session.events ++ events) (hobject : t.sessions = s.sessions.set object session')
    (hbroadcast : ∀ object', t.eventsOf object' = s.eventsOf object' ++ if object = object' then events else []) : s.Logged t := by
  intro object' found hfound
  by_cases heq : object = object'
  · subst heq
    obtain rfl := Option.some.inj (hsession.symm.trans hfound)
    refine ⟨session', events, ?_, hlog, ?_⟩
    · rw [hobject, Dict.get?_set_self]
    · rw [hbroadcast, if_pos rfl]
  · refine ⟨found, [], ?_, (List.append_nil _).symm, ?_⟩
    · rw [hobject, Dict.get?_set_of_ne _ _ (fun hsame => heq hsame.symm), hfound]
    · rw [hbroadcast, if_neg heq]

theorem eventsOf_broadcast (s : RuntimeHost) (b : Broadcast) (object : Nat) :
    (s.broadcast b).eventsOf object = s.eventsOf object ++ (b.eventOf object).toList := by
  simp only [eventsOf, RuntimeHost.broadcast, List.filterMap_append, List.filterMap_cons, List.filterMap_nil]
  cases b.eventOf object <;> rfl

theorem logged_step {a : RuntimeAction} (hok : ¬ FailsLate s a) (hstep : s.step a = some s') : s.Logged s' := by
  cases does_of_step hstep with
  | connects _ => exact logged_of_same (fun _ _ hsession => hsession) rfl
  | enters hfresh => exact logged_of_same (sessions_enter hfresh _) rfl
  | removes id => exact logged_of_same (fun _ _ hsession => hsession) rfl
  | settles => exact logged_of_same (fun _ _ hsession => hsession) rfl
  | @makes _ object _ made _ id _ hfresh _ _ _ =>
    unfold RuntimeHost.agentFor
    rcases sessionFor_cases s id object with ⟨-, hsame⟩ | ⟨-, hentered⟩
    · rw [hsame]
      simp only
      split <;> exact logged_of_same (fun _ _ hsession => hsession) rfl
    · rw [hentered]
      simp only
      split <;> exact logged_of_same (sessions_enter hfresh _) rfl
  | shutsDown _ => exact logged_of_same (fun _ _ hsession => hsession) rfl
  | @appends object call session event hsession hevent =>
    have hlog : (session.append call).2.events = session.events ++ [event] :=
      (append_ok_events (show session.append call = (.ok event, (session.append call).2) by rw [← hevent])).1
    refine logged_append hsession hlog rfl ?_
    intro object'
    rw [eventsOf_broadcast]
    simp only [Broadcast.eventOf]
    by_cases heq : object = object' <;> simp [heq, eventsOf]
  | @raises object call session error hsession herror =>
    have hlog : (session.append call).2.events = session.events := by
      rcases append_cases session call with ⟨-, e, happ⟩ | ⟨j, -, -, happ⟩ | ⟨j, first, last, -, -, -, happ⟩ | ⟨j, e, -, hrun, -⟩
      · rw [happ]
      · rw [happ] at herror
        cases herror
      · rw [happ] at herror
        cases herror
      · exact absurd (.append hsession hrun) hok
    have hnothing : (session.append call).2.events = session.events ++ [] := by rw [hlog, List.append_nil]
    refine logged_append hsession hnothing rfl ?_
    intro object'
    rw [ite_self, List.append_nil]
    rfl
  | reports _ =>
    intro object' session hsession
    refine ⟨session, [], hsession, (List.append_nil _).symm, ?_⟩
    rw [eventsOf_broadcast]
    rfl

end RuntimeHost

end Pydsh
