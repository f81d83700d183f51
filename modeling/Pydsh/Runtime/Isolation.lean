import Pydsh.Runtime.Forwarding

/-!
# Connections are isolated

A connection is sent what happens in its sessions, and what is done with other sessions makes no difference to it
(`connections_isolated`): whatever sessions are left out of a run, everybody is sent the same of the rest. That ends with the
connection's `shutdown`, which releases its subscriptions, while the peer may still be there.
-/

namespace Pydsh

namespace RuntimeHost

variable {s t s' : RuntimeHost} {mine : String → Bool}

/-! ## Sessions of others -/

/-- Every session object has its id in its header. -/
def Named (s : RuntimeHost) : Prop := ∀ object session, s.sessions.get? object = some session → session.header.id = session.id

theorem agentId_eq {session : Session} (h : session.header.id = session.id) : agentId session = session.id := by
  unfold agentId
  split
  · rfl
  · exact h

theorem append_named {session : Session} (h : session.header.id = session.id) (call : AppendCall) :
    (session.append call).2.header.id = (session.append call).2.id ∧ (session.append call).2.id = session.id := by
  rcases append_log session call with heq | ⟨e, -, -, -, hid, hheader⟩
  · rw [heq]
    exact ⟨h, rfl⟩
  · rw [hid, hheader]
    exact ⟨h, rfl⟩

theorem Named.set (h : s.Named) (object : Nat) {session : Session} (hsession : session.header.id = session.id) (live : Dict String Nat)
    (servers : Dict Nat RuntimeServer) (broadcasts : List Broadcast) : ({ s with
      sessions := s.sessions.set object session
      live
      servers
      broadcasts } : RuntimeHost).Named := by
  intro object' found hfound
  simp only [Dict.get?_set] at hfound
  split at hfound
  · cases hfound
    exact hsession
  · exact h object' found hfound

/-- What is done with sessions of some ids: connections come and are shut down, for all of them. -/
def concerns (mine : String → Bool) (s : RuntimeHost) : RuntimeAction → Bool
  | .connect _ | .shutdown _ => true
  | .enter _ session => mine session.val.id
  | .remove id => mine id
  | .deliver _ request _ _ => (request.sessionId.map mine).getD false
  | .append object _ | .status object _ => ((s.sessions.get? object).map (fun session => mine session.id)).getD false

/-- The notifications of sessions of some ids. -/
def noticesOf (mine : String → Bool) (sent : List RuntimeNotification) : List RuntimeNotification := sent.filter (fun n => mine n.sessionId)

/-- Two servers that are alike in the sessions of some ids. -/
structure AlikeServer (mine : String → Bool) (a b : RuntimeServer) : Prop where
  shutDown : a.shutDown = b.shutDown
  subscribed : a.subscribed = b.subscribed
  agents : ∀ id, mine id = true → (a.agents.get? id).isSome = (b.agents.get? id).isSome
  sent : noticesOf mine a.sent = noticesOf mine b.sent

/-- Two hosts that are alike in the sessions of some ids; the first may have more of the others. -/
structure Alike (mine : String → Bool) (s t : RuntimeHost) : Prop where
  named : s.Named
  servers : ∀ c server, s.servers.get? c = some server → ∃ server', t.servers.get? c = some server' ∧ AlikeServer mine server server'
  absent : ∀ c, s.servers.get? c = none → t.servers.get? c = none
  sessions : ∀ object session, mine session.id = true → (s.sessions.get? object = some session ↔ t.sessions.get? object = some session)
  fresh : ∀ object, s.sessions.get? object = none → t.sessions.get? object = none
  live : ∀ id, mine id = true → s.live.get? id = t.live.get? id

theorem notification_sessionId (b : Broadcast) : b.notification.sessionId = b.sessionId := by
  cases b <;> rfl

theorem AlikeServer.refl (server : RuntimeServer) : AlikeServer mine server server := ⟨rfl, rfl, fun _ _ => rfl, rfl⟩

theorem AlikeServer.hears_own {a b : RuntimeServer} (h : AlikeServer mine a b) {heard : Broadcast} (hmine : mine heard.sessionId = true) :
    AlikeServer mine (a.hears heard) (b.hears heard) := by
  have hagents := h.agents heard.sessionId hmine
  unfold RuntimeServer.hears RuntimeServer.forward
  rw [h.subscribed, hagents]
  split
  · split
    · refine ⟨h.shutDown, rfl, h.agents, ?_⟩
      simp only [noticesOf, List.filter_append]
      congr 1
      exact h.sent
    · exact h
  · exact h

theorem AlikeServer.hears_other {a b : RuntimeServer} (h : AlikeServer mine a b) {heard : Broadcast} (hother : mine heard.sessionId = false) :
    AlikeServer mine (a.hears heard) b := by
  unfold RuntimeServer.hears RuntimeServer.forward
  split
  · split
    · refine ⟨h.shutDown, h.subscribed, h.agents, ?_⟩
      rw [← h.sent]
      simp [noticesOf, notification_sessionId, hother]
    · exact h
  · exact h

theorem AlikeServer.shutdown {a b : RuntimeServer} (h : AlikeServer mine a b) : AlikeServer mine a.shutdown b.shutdown := by
  unfold RuntimeServer.shutdown
  rw [h.shutDown]
  split
  · exact h
  · exact ⟨rfl, rfl, fun _ _ => rfl, h.sent⟩

/-- The agents of both servers on one of the sessions are made, when they are. -/
theorem AlikeServer.opened_own {a b : RuntimeServer} (h : AlikeServer mine a b) (id : String) (since since' : Nat) :
    AlikeServer mine { a with agents := a.agents.set id since } { b with agents := b.agents.set id since' } := by
  refine ⟨h.shutDown, h.subscribed, ?_, h.sent⟩
  intro id' hid'
  simp only [Dict.get?_set]
  split
  · rfl
  · exact h.agents id' hid'

theorem AlikeServer.opened_other {a b : RuntimeServer} (h : AlikeServer mine a b) {id : String} (hother : mine id = false) (since : Nat) :
    AlikeServer mine { a with agents := a.agents.set id since } b := by
  refine ⟨h.shutDown, h.subscribed, ?_, h.sent⟩
  intro id' hid'
  rw [Dict.get?_set_of_ne]
  · exact h.agents id' hid'
  · rintro rfl
    exact Bool.false_ne_true (hother.symm.trans hid')

theorem Alike.broadcast_own (h : Alike mine s t) {heard : Broadcast} (hmine : mine heard.sessionId = true) :
    Alike mine (s.broadcast heard) (t.broadcast heard) := by
  refine ⟨h.named, ?_, ?_, h.sessions, h.fresh, h.live⟩
  · intro c server hserver
    simp only [RuntimeHost.broadcast, Dict.get?_mapValues] at hserver ⊢
    obtain ⟨before, hbefore, rfl⟩ := Option.map_eq_some_iff.mp hserver
    obtain ⟨before', hbefore', halike⟩ := h.servers c before hbefore
    exact ⟨before'.hears heard, by rw [hbefore']; rfl, halike.hears_own hmine⟩
  · intro c hnone
    simp only [RuntimeHost.broadcast, Dict.get?_mapValues, Option.map_eq_none_iff] at hnone ⊢
    exact h.absent c hnone

theorem Alike.broadcast_other (h : Alike mine s t) {heard : Broadcast} (hother : mine heard.sessionId = false) :
    Alike mine (s.broadcast heard) t := by
  refine ⟨h.named, ?_, ?_, h.sessions, h.fresh, h.live⟩
  · intro c server hserver
    simp only [RuntimeHost.broadcast, Dict.get?_mapValues] at hserver
    obtain ⟨before, hbefore, rfl⟩ := Option.map_eq_some_iff.mp hserver
    obtain ⟨before', hbefore', halike⟩ := h.servers c before hbefore
    exact ⟨before', hbefore', halike.hears_other hother⟩
  · intro c hnone
    simp only [RuntimeHost.broadcast, Dict.get?_mapValues, Option.map_eq_none_iff] at hnone
    exact h.absent c hnone

theorem Alike.servers_own (h : Alike mine s t) (c : Nat) {a b : RuntimeServer} (halike : AlikeServer mine a b) :
    Alike mine { s with servers := s.servers.set c a } { t with servers := t.servers.set c b } := by
  refine ⟨h.named, ?_, ?_, h.sessions, h.fresh, h.live⟩
  · intro c' server hserver
    simp only [Dict.get?_set] at hserver ⊢
    split at hserver
    · cases hserver
      rename_i heq
      rw [if_pos heq]
      exact ⟨b, rfl, halike⟩
    · rename_i hne
      rw [if_neg hne]
      exact h.servers c' server hserver
  · intro c' hnone
    simp only [Dict.get?_set] at hnone ⊢
    split at hnone
    · cases hnone
    · rename_i hne
      rw [if_neg hne]
      exact h.absent c' hnone

theorem Alike.servers_other (h : Alike mine s t) {c : Nat} {a b : RuntimeServer} (hthere : t.servers.get? c = some b)
    (halike : AlikeServer mine a b) : Alike mine { s with servers := s.servers.set c a } t := by
  refine ⟨h.named, ?_, ?_, h.sessions, h.fresh, h.live⟩
  · intro c' server hserver
    simp only [Dict.get?_set] at hserver
    split at hserver
    · cases hserver
      rename_i heq
      exact ⟨b, by rw [heq, hthere], halike⟩
    · exact h.servers c' server hserver
  · intro c' hnone
    simp only [Dict.get?_set] at hnone
    split at hnone
    · cases hnone
    · exact h.absent c' hnone

theorem Alike.sessions_own (h : Alike mine s t) (object : Nat) {session : Session} (hnamed : session.header.id = session.id) :
    Alike mine { s with sessions := s.sessions.set object session } { t with sessions := t.sessions.set object session } := by
  refine ⟨h.named.set object hnamed s.live s.servers s.broadcasts, h.servers, h.absent, ?_, ?_, h.live⟩
  · intro object' found hmine
    simp only [Dict.get?_set]
    split
    · exact Iff.rfl
    · exact h.sessions object' found hmine
  · intro object' hnone
    simp only [Dict.get?_set] at hnone ⊢
    split at hnone
    · cases hnone
    · rename_i hne
      rw [if_neg hne]
      exact h.fresh object' hnone

theorem Alike.sessions_other (h : Alike mine s t) {object : Nat} {session : Session} (hnamed : session.header.id = session.id)
    (hother : mine session.id = false) (hold : ∀ found, t.sessions.get? object = some found → mine found.id = false) :
    Alike mine { s with sessions := s.sessions.set object session } t := by
  refine ⟨h.named.set object hnamed s.live s.servers s.broadcasts, h.servers, h.absent, ?_, ?_, h.live⟩
  · intro object' found hmine
    simp only [Dict.get?_set]
    split
    · rename_i heq
      subst heq
      refine iff_of_false ?_ ?_
      · intro hsame
        rw [← Option.some.inj hsame, hother] at hmine
        cases hmine
      · intro hfound
        exact Bool.false_ne_true ((hold found hfound).symm.trans hmine)
    · exact h.sessions object' found hmine
  · intro object' hnone
    simp only [Dict.get?_set] at hnone
    split at hnone
    · cases hnone
    · exact h.fresh object' hnone

theorem Alike.live_own (h : Alike mine s t) {live live' : Dict String Nat} (hlive : ∀ id, mine id = true → live.get? id = live'.get? id) :
    Alike mine { s with live } { t with live := live' } := ⟨h.named, h.servers, h.absent, h.sessions, h.fresh, hlive⟩

theorem Alike.live_other (h : Alike mine s t) {live : Dict String Nat} (hlive : ∀ id, mine id = true → live.get? id = s.live.get? id) :
    Alike mine { s with live } t :=
  ⟨h.named, h.servers, h.absent, h.sessions, h.fresh, fun id hid => (hlive id hid).trans (h.live id hid)⟩

theorem Alike.enter_own (h : Alike mine s t) (object : Nat) {session : Session} (hnamed : session.header.id = session.id) :
    Alike mine (s.enter object session) (t.enter object session) := by
  refine (h.sessions_own object hnamed).live_own ?_
  intro id hid
  simp only [Dict.get?_set]
  split
  · rfl
  · exact h.live id hid

theorem Alike.enter_other (h : Alike mine s t) {object : Nat} (hfresh : s.sessions.get? object = none) {session : Session}
    (hnamed : session.header.id = session.id) (hother : mine session.id = false) : Alike mine (s.enter object session) t := by
  have hold : ∀ found, t.sessions.get? object = some found → mine found.id = false := by
    intro found hfound
    rw [h.fresh object hfresh] at hfound
    cases hfound
  refine (h.sessions_other hnamed hother hold).live_other ?_
  intro id hid
  rw [Dict.get?_set_of_ne]
  rintro rfl
  exact Bool.false_ne_true (hother.symm.trans hid)

/-- The connection's agent on one of the sessions is made on both sides, or on neither. -/
theorem Alike.agentFor_own (h : Alike mine s t) (connection : Nat) {a b : RuntimeServer} (halike : AlikeServer mine a b) {id : String}
    (hmine : mine id = true) (object : Nat) (made : Bool) :
    Alike mine (s.agentFor connection a id object made) (t.agentFor connection b id object made) := by
  have hfor : Alike mine (s.sessionFor id object) (t.sessionFor id object) := by
    unfold sessionFor
    rw [← h.live id hmine]
    split
    · exact h
    · exact h.enter_own object rfl
  unfold agentFor
  simp only
  split
  · exact hfor.servers_own connection (halike.opened_own id _ _)
  · exact hfor

theorem Alike.agentFor_other (h : Alike mine s t) {connection : Nat} {a b : RuntimeServer} (hthere : t.servers.get? connection = some b)
    (halike : AlikeServer mine a b) {id : String} (hother : mine id = false) {object : Nat} (hfresh : s.sessions.get? object = none)
    (made : Bool) : Alike mine (s.agentFor connection a id object made) t := by
  have hfor : Alike mine (s.sessionFor id object) t := by
    unfold sessionFor
    split
    · exact h
    · exact h.enter_other hfresh rfl hother
  unfold agentFor
  simp only
  split
  · exact hfor.servers_other hthere (halike.opened_other hother _)
  · exact hfor

theorem Alike.deliver_own (h : Alike mine s t) (connection : Nat) {a b : RuntimeServer} (halike : AlikeServer mine a b)
    (request : RuntimeRequest) (hmine : (request.sessionId.map mine).getD false = true) (object : Nat) (made : Bool) :
    Alike mine (s.deliver connection a request object made) (t.deliver connection b request object made) := by
  unfold deliver
  rw [← halike.shutDown]
  split
  · exact h
  · cases hid : request.sessionId with
    | none => exact h
    | some id =>
      have hid' : mine id = true := by simpa [hid] using hmine
      have hagents := halike.agents id hid'
      simp only
      split
      · cases hagent : a.agents.get? id with
        | none =>
          rw [hagent, Option.isSome_none, eq_comm, Option.isSome_eq_false_iff, Option.isNone_iff_eq_none] at hagents
          rw [hagents]
          exact h.agentFor_own connection halike hid' object made
        | some since =>
          rw [hagent, Option.isSome_some, eq_comm, Option.isSome_iff_exists] at hagents
          obtain ⟨since', hagent'⟩ := hagents
          rw [hagent']
          exact h
      · exact h

/-- An append to a session that the other runs do not concern. -/
theorem Alike.append_other (h : Alike mine s t) {object : Nat} {session : Session} (hsession : s.sessions.get? object = some session)
    (hother : mine session.id = false) (call : AppendCall) :
    Alike mine { s with sessions := s.sessions.set object (session.append call).2 } t := by
  obtain ⟨hnamed, hid⟩ := append_named (h.named object session hsession) call
  refine h.sessions_other hnamed (by rw [hid, hother]) ?_
  intro found hfound
  rw [← Bool.not_eq_true]
  intro hmine
  obtain rfl := Option.some.inj (hsession.symm.trans ((h.sessions object found hmine).mpr hfound))
  exact Bool.false_ne_true (hother.symm.trans hmine)

theorem Alike.hidden (h : Alike mine s t) {a : RuntimeAction} (hconcerns : concerns mine s a = false)
    (hstep : s.step a = some s') : Alike mine s' t := by
  cases does_of_step hstep with
  | connects _ => cases hconcerns
  | @enters object session hfresh => exact h.enter_other hfresh session.property hconcerns
  | removes id =>
    refine h.live_other ?_
    intro id' hid'
    rw [Dict.get?_pop_of_ne]
    rintro rfl
    exact Bool.false_ne_true (hconcerns.symm.trans hid')
  | settles => exact h
  | makes hserver hfresh _ hid _ =>
    obtain ⟨server', hserver', halike⟩ := h.servers _ _ hserver
    simp only [concerns, hid, Option.map_some, Option.getD_some] at hconcerns
    exact h.agentFor_other hserver' halike hconcerns hfresh _
  | shutsDown _ => cases hconcerns
  | appends hsession _ =>
    simp only [concerns, hsession, Option.map_some, Option.getD_some] at hconcerns
    exact (h.append_other hsession hconcerns _).broadcast_other hconcerns
  | raises hsession _ =>
    simp only [concerns, hsession, Option.map_some, Option.getD_some] at hconcerns
    exact h.append_other hsession hconcerns _
  | @reports object status session hsession =>
    simp only [concerns, hsession, Option.map_some, Option.getD_some] at hconcerns
    exact h.broadcast_other (by simpa only [Broadcast.sessionId, agentId_eq (h.named object session hsession)] using hconcerns)

/-- What is done with the sessions of the ids, and to the connections, is done on the other side as well. -/
theorem Alike.follows (h : Alike mine s t) {a : RuntimeAction} (hconcerns : concerns mine s a = true)
    (hstep : s.step a = some s') : ∃ t', t.step a = some t' ∧ Alike mine s' t' := by
  cases a with
  | connect connection =>
    simp only [RuntimeHost.step] at hstep
    split at hstep
    · rename_i hnone
      obtain rfl := Option.some.inj hstep
      refine ⟨_, ?_, h.servers_own connection (.refl {})⟩
      simp only [RuntimeHost.step, h.absent connection hnone]
    · cases hstep
  | enter object session =>
    simp only [RuntimeHost.step] at hstep
    split at hstep
    · rename_i hfresh
      obtain rfl := Option.some.inj hstep
      refine ⟨_, ?_, h.enter_own object session.property⟩
      simp only [RuntimeHost.step, h.fresh object hfresh]
    · cases hstep
  | remove id =>
    obtain rfl := Option.some.inj hstep
    refine ⟨_, rfl, h.live_own ?_⟩
    intro id' hid'
    simp only [Dict.get?_pop]
    split
    · rfl
    · exact h.live id' hid'
  | deliver connection request object made =>
    simp only [RuntimeHost.step] at hstep
    split at hstep
    · rename_i server hserver hfresh
      obtain rfl := Option.some.inj hstep
      obtain ⟨server', hserver', halike⟩ := h.servers connection server hserver
      refine ⟨_, ?_, h.deliver_own connection halike request hconcerns object made⟩
      simp only [RuntimeHost.step, hserver', h.fresh object hfresh]
    · cases hstep
  | shutdown connection =>
    simp only [RuntimeHost.step] at hstep
    split at hstep
    · rename_i server hserver
      obtain rfl := Option.some.inj hstep
      obtain ⟨server', hserver', halike⟩ := h.servers connection server hserver
      refine ⟨_, ?_, h.servers_own connection halike.shutdown⟩
      simp only [RuntimeHost.step, hserver']
    · cases hstep
  | append object call =>
    obtain ⟨session, hsession, hcases⟩ := append_step hstep
    simp only [concerns, hsession, Option.map_some, Option.getD_some] at hconcerns
    obtain ⟨hnamed, -⟩ := append_named (h.named object session hsession) call
    have hsession' := (h.sessions object session hconcerns).mp hsession
    have hput := h.sessions_own object hnamed
    rcases hcases with ⟨event, hevent, rfl⟩ | ⟨error, herror, rfl⟩
    · refine ⟨_, ?_, hput.broadcast_own hconcerns⟩
      simp only [RuntimeHost.step, hsession', hevent]
    · refine ⟨_, ?_, hput⟩
      simp only [RuntimeHost.step, hsession', herror]
  | status object status =>
    simp only [RuntimeHost.step] at hstep
    split at hstep
    · cases hstep
    · rename_i session hsession
      obtain rfl := Option.some.inj hstep
      simp only [concerns, hsession, Option.map_some, Option.getD_some] at hconcerns
      have hsession' := (h.sessions object session hconcerns).mp hsession
      have hmine : mine (Broadcast.status (agentId session) status).sessionId = true := by
        simpa only [Broadcast.sessionId, agentId_eq (h.named object session hsession)] using hconcerns
      refine ⟨_, ?_, h.broadcast_own hmine⟩
      simp only [RuntimeHost.step, hsession']

/-- The sessions of some ids hide what is done with the others. -/
theorem hides (mine : String → Bool) : Machine.Hides RuntimeHost.step (concerns mine) (Alike mine) :=
  ⟨fun h hconcerns hstep => h.hidden hconcerns hstep, fun h hconcerns hstep => h.follows hconcerns hstep⟩

theorem Named.agentFor (h : s.Named) (connection : Nat) (server : RuntimeServer) (id : String) (object : Nat) (made : Bool) :
    (s.agentFor connection server id object made).Named := by
  unfold RuntimeHost.agentFor
  rcases sessionFor_cases s id object with ⟨-, heq⟩ | ⟨-, heq⟩
  · rw [heq]
    simp only
    split <;> exact h
  · rw [heq]
    simp only
    split <;> exact h.set object rfl _ _ _

theorem Named.step (h : s.Named) {a : RuntimeAction} (hstep : s.step a = some s') : s'.Named := by
  cases does_of_step hstep with
  | connects _ => exact h
  | @enters object session _ => exact h.set object session.property _ _ _
  | removes id => exact h
  | settles => exact h
  | makes _ _ _ _ _ => exact h.agentFor _ _ _ _ _
  | shutsDown _ => exact h
  | appends hsession _ => exact h.set _ (append_named (h _ _ hsession) _).1 _ _ _
  | raises hsession _ => exact h.set _ (append_named (h _ _ hsession) _).1 _ _ _
  | reports _ => exact h

theorem named_start : ({} : RuntimeHost).Named := by
  rintro object session ⟨⟩

theorem allTold_start : ({} : RuntimeHost).AllTold := by
  rintro connection server ⟨⟩

theorem alike_start (mine : String → Bool) : Alike mine {} {} := by
  refine ⟨named_start, ?_, fun _ hnone => hnone, fun _ _ _ => Iff.rfl, fun _ hnone => hnone, fun _ _ => rfl⟩
  rintro c server ⟨⟩

theorem Alike.sentTo (h : Alike mine s t) (connection : Nat) : noticesOf mine (s.sentTo connection) = noticesOf mine (t.sentTo connection) := by
  unfold RuntimeHost.sentTo
  cases hserver : s.servers.get? connection with
  | none => rw [h.absent connection hserver]
  | some server =>
    obtain ⟨server', hserver', halike⟩ := h.servers connection server hserver
    rw [hserver']
    exact halike.sent

/-- A request that is taken opens its session for the connection: the agent on it was made before, or is made now. -/
theorem opens_deliver {connection object : Nat} {request : RuntimeRequest} {server : RuntimeServer} {id : String}
    (hserver : s.servers.get? connection = some server) (hopen : server.shutDown = false) (hid : request.sessionId = some id)
    (hblocks : request.blocks = true) (hstep : s.step (.deliver connection request object true) = some s') :
    ∃ server', s'.servers.get? connection = some server' ∧
      server'.agents.get? id = some ((server.agents.get? id).getD s.broadcasts.length) := by
  simp only [RuntimeHost.step, hserver] at hstep
  split at hstep
  · rename_i found hfound hfresh
    cases hfound
    obtain rfl := Option.some.inj hstep
    unfold deliver
    rw [hopen, hid]
    simp only [Bool.false_eq_true, if_false, hblocks, if_true]
    cases hagent : server.agents.get? id with
    | some since => exact ⟨server, hserver, hagent⟩
    | none =>
      refine ⟨{ server with agents := server.agents.set id s.broadcasts.length }, ?_, ?_⟩
      · unfold agentFor
        simp
      · simp
  · cases hstep

end RuntimeHost

open RuntimeHost in
/-- In every run a connection that was not shut down was sent exactly what was broadcast of its sessions, from when it opened them on, each
once and in that order; one that was shut down is sent no more. A broadcast of an agent's status names its session; and what is broadcast
of a session is what it logs, in order, as long as no append fails late. Two runs that are the same in what is done with the sessions of
some ids, and in the connections, send every connection the same of those sessions. -/
theorem connections_isolated :
    (∀ s, Machine.Reach RuntimeHost.step Machine.anyStep {} s →
      (∀ connection server, s.servers.get? connection = some server → server.shutDown = false →
        server.sent = due server.agents s.broadcasts) ∧
      (∀ connection server request object s' id, s.servers.get? connection = some server → server.shutDown = false →
        request.sessionId = some id → request.blocks = true → s.step (.deliver connection request object true) = some s' →
        ∃ server', s'.servers.get? connection = some server' ∧
          server'.agents.get? id = some ((server.agents.get? id).getD s.broadcasts.length)) ∧
      (∀ connection server a s', s.servers.get? connection = some server → server.shutDown = true → s.step a = some s' →
        s'.servers.get? connection = some server) ∧
      (∀ object session status s', s.sessions.get? object = some session → s.step (.status object status) = some s' →
        s'.broadcasts = s.broadcasts ++ [.status session.id status]) ∧
      ∀ t, Machine.Reach RuntimeHost.step (fun s a => ¬ FailsLate s a) s t → s.Logged t) ∧
    ∀ mine as bs s t, Machine.exec RuntimeHost.step {} as = some s → Machine.exec RuntimeHost.step {} bs = some t →
      Machine.seen RuntimeHost.step (concerns mine) {} as = Machine.seen RuntimeHost.step (concerns mine) {} bs →
      ∀ connection, noticesOf mine (s.sentTo connection) = noticesOf mine (t.sentTo connection) := by
  constructor
  · intro s hreach
    obtain ⟨htold, hnamed⟩ := hreach.invariant (P := fun s => s.AllTold ∧ s.Named)
      ⟨allTold_start, named_start⟩ (fun s a s' hboth _ hstep => ⟨hboth.1.step hstep, hboth.2.step hstep⟩)
    refine ⟨?_, ?_, ?_, ?_, ?_⟩
    · intro connection server hserver hopen
      exact (htold connection server hserver).sent hopen
    · intro connection server request object s' id hserver hopen hid hblocks hstep
      exact opens_deliver hserver hopen hid hblocks hstep
    · intro connection server a s' hserver hshut hstep
      exact htold.shut hstep hserver hshut
    · intro object session status s' hsession hstep
      simp only [RuntimeHost.step, hsession] at hstep
      obtain rfl := Option.some.inj hstep
      rw [RuntimeHost.broadcast, agentId_eq (hnamed object session hsession)]
    · intro t hlater
      refine hlater.invariant (P := fun t => s.Logged t) (logged_of_same (fun _ _ hsession => hsession) rfl) ?_
      intro t a t' hlogged hok hstep
      exact hlogged.trans (logged_step hok hstep)
  · intro mine as bs s t has hbs hseen connection
    obtain ⟨u, hsu, htu⟩ := (hides mine).meet (alike_start mine) has hbs hseen
    exact (hsu.sentTo connection).trans (htu.sentTo connection).symm

/-- An append of the start of a turn. -/
def turnStarts (turn : Int) : AppendCall where
  eventType := .turnStart
  data := (Json.obj [("turn", .int turn)]).loads

/-- Two connections, each with a session of its own, in which a turn starts. -/
def twoConnections : List RuntimeAction :=
  [.connect 0, .connect 1, .deliver 0 { sessionId := some "a" } 0 true, .deliver 1 { sessionId := some "b" } 1 true,
    .append 0 (turnStarts 1), .status 1 "running", .append 1 (turnStarts 1), .append 0 (turnStarts 2)]

/-- The same, without what is done with the second session. -/
def oneSession : List RuntimeAction :=
  [.connect 0, .connect 1, .deliver 0 { sessionId := some "a" } 0 true, .append 0 (turnStarts 1), .append 0 (turnStarts 2)]

/-- The first connection is told of its own session's two turns, and of no other's, as if the other session were not there. -/
theorem connections_isolated_two : ∃ s t, Machine.exec RuntimeHost.step {} twoConnections = some s ∧
    Machine.exec RuntimeHost.step {} oneSession = some t ∧
    RuntimeHost.noticesOf (fun id => id == "a") (s.sentTo 0) = RuntimeHost.noticesOf (fun id => id == "a") (t.sentTo 0) ∧
    s.sentTo 0 = [.event "a" 1 .turnStart 0 (turnStarts 1).data, .event "a" 2 .turnStart 0 (turnStarts 2).data] ∧
    s.sentTo 1 = [.status "b" "running", .event "b" 1 .turnStart 0 (turnStarts 1).data] := by
  refine ⟨_, _, rfl, rfl, ?_, rfl, rfl⟩
  exact connections_isolated.2 _ twoConnections oneSession _ _ rfl rfl rfl 0

/-- A connection opens a session and is shut down; a turn starts in the session then, and the connection is not told, though another is. -/
theorem shut_down_untold : ∃ s t,
    Machine.exec RuntimeHost.step {} [.connect 0, .connect 1, .deliver 0 { sessionId := some "a" } 0 true,
      .deliver 1 { sessionId := some "a" } 1 true] = some s ∧
    (s.servers.get? 0).map (fun server => server.agents.get? "a") = some (some 0) ∧
    Machine.exec RuntimeHost.step s [.shutdown 0, .append 0 (turnStarts 1)] = some t ∧
    t.broadcasts.map Broadcast.notification = [.event "a" 1 .turnStart 0 (turnStarts 1).data] ∧
    t.sentTo 0 = [] ∧ t.sentTo 1 = [.event "a" 1 .turnStart 0 (turnStarts 1).data] :=
  ⟨_, _, rfl, rfl, rfl, rfl, rfl, rfl⟩

end Pydsh
