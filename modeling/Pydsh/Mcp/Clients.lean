import Pydsh.Mcp.Catalogue

/-!
# Clients are closed

`mcp/connection.py`, `_connect_and_sync`: a client becomes the connection's when it is connected; `dispose` closes the connection's client,
and nothing else closes one. So a client whose handshake fails, or is cancelled, is left running; so is one whose first sync failed, when
the retry puts another in its place; and so is one that `start` goes on to start after a disposal (`clients_closed`).
-/

namespace Pydsh

namespace McpConnection

variable {sha : Sha256} {server : McpServer} {s t s' : McpConnection}

/-- A client is started and not closed. -/
def IsOpen (s : McpConnection) (client : Nat) : Prop := ∃ peer, s.clients[client]? = some peer ∧ peer.isOpen = true

/-- A phase in which the connection may have a client: its attempt syncs, or the attempts ended otherwise than by giving up. -/
def MayHold (phase : Phase) : Prop := phase = .syncing ∨ ∃ how, how ≠ .gaveUp ∧ phase = .ended how

/-- Every client that is open is the connection's, or the attempt's in its handshake, and never both. -/
structure Owned (s : McpConnection) : Prop where
  owned : ∀ client, s.IsOpen client → s.client = some client ∨ s.supervisor.phase = .handshaking client
  handshaking : ∀ client, s.supervisor.phase = .handshaking client → s.IsOpen client ∧ s.disposed = false
  connecting : ∀ client, s.supervisor.phase = .connecting client → client < s.clients.length
  single : s.client ≠ none → MayHold s.supervisor.phase
  recorded : s.supervisor.phase = .syncing → s.disposed = false → s.client ≠ none
  fresh : s.supervisor.phase = .syncing → s.supervisor.attempts = 0
  disposing : s.disposing ≠ .notYet → s.disposed = true
  closing : s.disposing = .closing ∨ s.disposing = .done ∨ s.disposing = .cancelled → s.client = none

/-- A step leaves a client running that nobody will close: its handshake fails or is cancelled, or the connection is disposed of
meanwhile; its transport starts on a connection that is disposed of; or its first sync fails and is retried. -/
inductive Leaks (sha : Sha256) (server : McpServer) (s : McpConnection) : ConnectionAction → Prop where
  | handshake {client : Nat} (hphase : s.supervisor.phase = .handshaking client) : Leaks sha server s .connectFails
  | abandoned {client : Nat} (hphase : s.supervisor.phase = .handshaking client) : Leaks sha server s .abandoned
  | disposed {client : Nat} (hphase : s.supervisor.phase = .handshaking client) : Leaks sha server s .dispose
  | late (hdisposed : s.disposed = true) : Leaks sha server s .spawned
  | retried {a : ConnectionAction} {retries : Nat} (hfails : AttemptFails sha server s a retries) (hphase : s.supervisor.phase = .syncing)
    (hdisposed : s.disposed = false) (henabled : server.reconnect.enabled = true)
    (hraises : ¬ (retries = 0 ∧ server.failOnStartupError = true)) : Leaks sha server s a

/-! ## What is open after a step -/

theorem isOpen_append (s : McpConnection) (supervisor : Supervisor) (client : Nat) :
    ({ s with
      clients := s.clients ++ [({} : McpPeer)]
      supervisor } : McpConnection).IsOpen client ↔ s.IsOpen client := by
  unfold IsOpen
  simp only [List.getElem?_append]
  split
  · exact Iff.rfl
  · rename_i hlt
    constructor
    · rintro ⟨peer, hpeer, hopen⟩
      rw [List.mem_singleton.mp (List.mem_of_getElem? hpeer)] at hopen
      cases hopen
    · rintro ⟨peer, hpeer, -⟩
      exact absurd (List.getElem?_eq_some_iff.mp hpeer).1 hlt

theorem isOpen_started (s : McpConnection) (supervisor : Supervisor) {client : Nat} (hlt : client < s.clients.length) (other : Nat) :
    ({ s.putClient client { started := true } with supervisor } : McpConnection).IsOpen other ↔ other = client ∨ s.IsOpen other := by
  unfold IsOpen
  simp only [putClient, List.getElem?_set]
  by_cases heq : client = other
  · subst heq
    simp [hlt, McpPeer.isOpen]
  · rw [if_neg heq]
    simp [eq_comm (a := other), heq]

theorem isOpen_closed (s : McpConnection) {client : Nat} (other : Nat) (h : (s.clients.modify client
    (fun peer => { peer with closed := true }))[other]? = some peer) (hopen : peer.isOpen = true) : other ≠ client ∧ s.IsOpen other := by
  rw [List.getElem?_modify] at h
  split at h
  · rename_i heq
    obtain ⟨before, -, rfl⟩ := Option.map_eq_some_iff.mp h
    simp [McpPeer.isOpen] at hopen
  · rename_i hne
    obtain ⟨before, hget, rfl⟩ := Option.map_eq_some_iff.mp h
    exact ⟨fun heq => hne heq.symm, before, hget, hopen⟩

theorem isOpen_ended {client : Nat} {peer : McpPeer} (hpeer : s.clients[client]? = some peer) (other : Nat) :
    (s.putClient client { peer with ended := true }).IsOpen other ↔ s.IsOpen other := by
  unfold IsOpen
  simp only [putClient, List.getElem?_set]
  obtain ⟨hlt, hget⟩ := List.getElem?_eq_some_iff.mp hpeer
  by_cases heq : client = other
  · subst heq
    simp [hlt, hget, McpPeer.isOpen]
  · rw [if_neg heq]

/-! ## Where a failed attempt leaves the supervisor -/

/-- A phase in which no client is being connected or synced, and nothing was given up yet. -/
def Resting (phase : Phase) : Prop := phase = .givingUp ∨ (∃ delay, phase = .sleeping delay) ∨ ∃ how, how ≠ .gaveUp ∧ phase = .ended how

theorem attemptFails_resting (server : McpServer) (disposed : Bool) (now : Nat) (s : Supervisor) :
    Resting (s.attemptFails server disposed now).phase := by
  unfold Supervisor.attemptFails
  split
  · exact Or.inr (Or.inr ⟨.raised, Ending.noConfusion, rfl⟩)
  · rcases scheduleRetry_cases server.reconnect disposed now s with ⟨-, heq⟩ | ⟨-, -, -, connectedAt, heq⟩ |
      ⟨-, -, -, -, connectedAt, delay, heq⟩ | ⟨-, -, -, -, hdied⟩
    · rw [heq]
      exact Or.inr (Or.inr ⟨.stopped, Ending.noConfusion, rfl⟩)
    · rw [heq]
      exact Or.inl rfl
    · rw [heq]
      exact Or.inr (Or.inl ⟨delay, rfl⟩)
    · rw [hdied]
      exact Or.inr (Or.inr ⟨.died, Ending.noConfusion, rfl⟩)

/-- The first failure that is counted is retried, unless `start` raises or the connection is not to be reconnected. -/
theorem attemptFails_first (server : McpServer) (disposed : Bool) (now : Nat) {s : Supervisor} (hattempts : s.attempts = 0) :
    ((disposed = false ∧ server.reconnect.enabled = true ∧ ¬ (s.retries = 0 ∧ server.failOnStartupError = true)) ∧
      ∃ delay, (s.attemptFails server disposed now).phase = .sleeping delay) ∨
    (¬ (disposed = false ∧ server.reconnect.enabled = true ∧ ¬ (s.retries = 0 ∧ server.failOnStartupError = true)) ∧
      ∃ how, how ≠ .gaveUp ∧ (s.attemptFails server disposed now).phase = .ended how) := by
  have hcounted : s.counted now = 1 := by
    unfold Supervisor.counted
    rw [hattempts, ite_self]
  have hsome := server.reconnect.some_attempt
  unfold Supervisor.attemptFails
  split
  · rename_i hraises
    exact Or.inr ⟨fun hgo => hgo.2.2 hraises, .raised, Ending.noConfusion, rfl⟩
  · rename_i hraises
    rcases scheduleRetry_cases server.reconnect disposed now s with ⟨hstopped, heq⟩ | ⟨-, -, hmany, -⟩ |
      ⟨hdisposed, henabled, -, -, connectedAt, delay, heq⟩ | ⟨-, -, -, hpower, -⟩
    · right
      rw [heq]
      refine ⟨?_, .stopped, Ending.noConfusion, rfl⟩
      rintro ⟨hdisposed, henabled, -⟩
      simp [hdisposed, henabled] at hstopped
    · omega
    · left
      rw [heq]
      exact ⟨⟨hdisposed, henabled, hraises⟩, delay, rfl⟩
    · omega

/-! ## Every open client is somebody's -/

/-- At most one client is open, and none when a give-up or a disposal is over. -/
theorem Owned.one (h : s.Owned) : (∀ client other, s.IsOpen client → s.IsOpen other → client = other) ∧
    (s.Finished → ∀ client, ¬ s.IsOpen client) := by
  have hnever : ∀ client, s.client ≠ none → s.supervisor.phase ≠ .handshaking client := by
    intro client hclient hphase
    have hhold := h.single hclient
    rw [hphase] at hhold
    rcases hhold with hsyncing | ⟨how, -, hended⟩
    · cases hsyncing
    · cases hended
  constructor
  · intro client other hclient hother
    rcases h.owned client hclient with hheld | hphase
    · rcases h.owned other hother with hheld' | hphase'
      · exact Option.some.inj (hheld.symm.trans hheld')
      · exact absurd hphase' (hnever other (by simp [hheld]))
    · rcases h.owned other hother with hheld' | hphase'
      · exact absurd hphase (hnever client (by simp [hheld']))
      · exact Phase.handshaking.inj (hphase.symm.trans hphase')
  · intro hfinished client hopen
    rcases hfinished with hended | hdisposing
    · rcases h.owned client hopen with hheld | hphase
      · have hhold := h.single (by simp [hheld])
        rw [hended] at hhold
        rcases hhold with hsyncing | ⟨how, hhow, heq⟩
        · cases hsyncing
        · exact hhow (Phase.ended.inj heq).symm
      · rw [hended] at hphase
        cases hphase
    · have hnone := h.closing (Or.inr hdisposing)
      rcases h.owned client hopen with hheld | hphase
      · rw [hnone] at hheld
        cases hheld
      · have hflag := (h.handshaking client hphase).2
        have hdisposed : s.disposed = true := h.disposing (by rcases hdisposing with heq | heq <;> simp [heq])
        exact Bool.false_ne_true (hflag.symm.trans hdisposed)

/-- The attempts are at rest, with no client or the connection's own. -/
theorem Owned.rests (h : s.Owned) {supervisor : Supervisor} (hnot : ∀ client, s.supervisor.phase ≠ .handshaking client)
    (hrests : Resting supervisor.phase) (hsingle : s.client ≠ none → ∃ how, how ≠ .gaveUp ∧ supervisor.phase = .ended how) :
    ({ s with supervisor } : McpConnection).Owned := by
  have hquiet : ∀ phase, Resting phase →
      (∀ client, phase ≠ .handshaking client) ∧ (∀ client, phase ≠ .connecting client) ∧ phase ≠ .syncing := by
    rintro phase (rfl | ⟨delay, rfl⟩ | ⟨how, -, rfl⟩) <;> simp
  obtain ⟨hhandshaking, hconnecting, hsyncing⟩ := hquiet supervisor.phase hrests
  refine ⟨?_, ?_, ?_, ?_, ?_, ?_, h.disposing, h.closing⟩
  · intro client hopen
    exact Or.inl ((h.owned client hopen).resolve_right (hnot client))
  · intro client hphase
    exact absurd hphase (hhandshaking client)
  · intro client hphase
    exact absurd hphase (hconnecting client)
  · intro hclient
    exact Or.inr (hsingle hclient)
  · intro hphase
    exact absurd hphase hsyncing
  · intro hphase
    exact absurd hphase hsyncing

/-- The clients and what the connection knows of them stay as they are. -/
theorem Owned.of_same (h : s.Owned) (hclient : t.client = s.client) (hphase : t.supervisor.phase = s.supervisor.phase)
    (hattempts : t.supervisor.attempts = s.supervisor.attempts) (hdisposed : t.disposed = s.disposed)
    (hdisposing : t.disposing = s.disposing) (hlength : t.clients.length = s.clients.length)
    (hopen : ∀ client, t.IsOpen client ↔ s.IsOpen client) : t.Owned := by
  constructor
  · intro client hisOpen
    rw [hclient, hphase]
    exact h.owned client ((hopen client).mp hisOpen)
  · intro client hhandshaking
    rw [hphase] at hhandshaking
    rw [hopen, hdisposed]
    exact h.handshaking client hhandshaking
  · intro client hconnecting
    rw [hphase] at hconnecting
    rw [hlength]
    exact h.connecting client hconnecting
  · rw [hclient, hphase]
    exact h.single
  · rw [hclient, hphase, hdisposed]
    exact h.recorded
  · rw [hphase, hattempts]
    exact h.fresh
  · rw [hdisposed, hdisposing]
    exact h.disposing
  · rw [hclient, hdisposing]
    exact h.closing

/-- The lock is given to an attempt that syncs, a give-up of a connection without a client, or a call. -/
theorem Owned.takesLock (h : s.Owned) {waiter : Waiter} (hattempt : waiter = .attempt → s.supervisor.phase = .syncing)
    (hgiveUp : waiter = .giveUp → s.supervisor.phase = .givingUp) : (s.takesLock waiter).Owned := by
  rcases takesLock_cases s waiter with ⟨hwaiter, heq⟩ | ⟨-, -, client, -, heq⟩ | ⟨-, -, heq⟩
  · have hphase := hgiveUp hwaiter
    have hnone : s.client = none := by
      by_contra hclient
      have hhold := h.single hclient
      rw [hphase] at hhold
      rcases hhold with hsyncing | ⟨how, -, hended⟩
      · cases hsyncing
      · cases hended
    rw [heq]
    refine ⟨?_, ?_, ?_, ?_, ?_, ?_, h.disposing, h.closing⟩
    · intro client hopen
      have howned := h.owned client hopen
      rw [hphase] at howned
      exact Or.inl (howned.resolve_right (by simp))
    · rintro client ⟨⟩
    · rintro client ⟨⟩
    · intro hclient
      exact absurd hnone hclient
    · rintro ⟨⟩
    · rintro ⟨⟩
  · rw [heq]
    exact h.of_same rfl rfl rfl rfl rfl rfl (fun _ => Iff.rfl)
  · rw [heq]
    cases waiter with
    | attempt =>
      have hphase := hattempt rfl
      exact h.rests (by simp [hphase]) (Or.inr (Or.inr ⟨.synced, Ending.noConfusion, rfl⟩)) (fun _ => ⟨.synced, Ending.noConfusion, rfl⟩)
    | call => exact h
    | giveUp => exact h

theorem Owned.enters (h : s.Owned) {waiter : Waiter} (hattempt : waiter = .attempt → s.supervisor.phase = .syncing)
    (hgiveUp : waiter = .giveUp → s.supervisor.phase = .givingUp) : (s.enters waiter).Owned := by
  rcases enters_cases s waiter with ⟨-, -, heq⟩ | heq
  · rw [heq]
    exact h.takesLock hattempt hgiveUp
  · rw [heq]
    exact h.of_same rfl rfl rfl rfl rfl rfl (fun _ => Iff.rfl)

theorem Owned.no_client (h : s.Owned) (hnot : ¬ MayHold s.supervisor.phase) : s.client = none := by
  by_contra hclient
  exact hnot (h.single hclient)

theorem Owned.fails_early (h : s.Owned) (server : McpServer) (hnot : ¬ MayHold s.supervisor.phase)
    (hhandshaking : ∀ client, s.supervisor.phase ≠ .handshaking client) : (s.fails server .attempt).Owned :=
  h.rests hhandshaking (attemptFails_resting server s.disposed s.now s.supervisor) (fun hclient => absurd (h.no_client hnot) hclient)

theorem Owned.begins (h : s.Owned) (server : McpServer) (made : Bool) (hnot : ¬ MayHold s.supervisor.phase)
    (hhandshaking : ∀ client, s.supervisor.phase ≠ .handshaking client) : (s.begins server made).Owned := by
  rcases begins_cases server s made with ⟨-, heq⟩ | ⟨-, heq⟩
  · rw [heq]
    refine ⟨?_, ?_, ?_, ?_, ?_, ?_, h.disposing, h.closing⟩
    · intro client hopen
      exact Or.inl ((h.owned client ((isOpen_append s _ client).mp hopen)).resolve_right (hhandshaking client))
    · rintro client ⟨⟩
    · rintro client ⟨⟩
      simp
    · intro hclient
      exact absurd (h.no_client hnot) hclient
    · rintro ⟨⟩
    · rintro ⟨⟩
  · rw [heq]
    exact h.fails_early server hnot hhandshaking

theorem Owned.closes (h : s.Owned) (hdisposed : s.disposed = true) : s.closes.Owned := by
  have hhandshaking : ∀ client, s.supervisor.phase ≠ .handshaking client := by
    intro client hphase
    exact Bool.false_ne_true ((h.handshaking client hphase).2.symm.trans hdisposed)
  unfold McpConnection.closes
  split
  · rename_i hnone
    exact ⟨h.owned, h.handshaking, h.connecting, h.single, h.recorded, h.fresh, fun _ => hdisposed, fun _ => hnone⟩
  · rename_i client hclient
    refine ⟨?_, ?_, ?_, ?_, ?_, h.fresh, fun _ => hdisposed, fun _ => rfl⟩
    · rintro other ⟨peer, hpeer, hopen⟩
      obtain ⟨hne, hwas⟩ := isOpen_closed s other hpeer hopen
      rcases h.owned other hwas with hheld | hphase
      · exact absurd (Option.some.inj (hheld.symm.trans hclient)) hne
      · exact absurd hphase (hhandshaking other)
    · intro other hphase
      exact absurd hphase (hhandshaking other)
    · intro other hphase
      rw [List.length_modify]
      exact h.connecting other hphase
    · intro hnone
      exact absurd rfl hnone
    · intro _ hflag
      exact absurd (hflag.symm.trans hdisposed) Bool.false_ne_true

/-- An attempt whose sync fails is not to be retried, as its client is the connection's. -/
theorem Owned.fails_syncing (h : s.Owned) (hphase : s.supervisor.phase = .syncing) (server : McpServer) :
    (s.fails server .attempt).Owned ↔ ¬ (s.disposed = false ∧ server.reconnect.enabled = true ∧
      ¬ (s.supervisor.retries = 0 ∧ server.failOnStartupError = true)) := by
  rcases attemptFails_first server s.disposed s.now (h.fresh hphase) with ⟨hgo, delay, hsleeps⟩ | ⟨hnot, how, hhow, hended⟩
  · refine iff_of_false ?_ (not_not.mpr hgo)
    intro howned
    have hhold : MayHold (s.supervisor.attemptFails server s.disposed s.now).phase := howned.single (h.recorded hphase hgo.1)
    rw [hsleeps] at hhold
    rcases hhold with hsyncing | ⟨how, -, hended⟩
    · cases hsyncing
    · cases hended
  · exact iff_of_true (h.rests (by simp [hphase]) (attemptFails_resting server s.disposed s.now s.supervisor)
      (fun _ => ⟨how, hhow, hended⟩)) hnot

/-- A failure of an attempt in its sync leaks exactly if it is retried. -/
theorem Leaks.retried_iff {a : ConnectionAction} {retries : Nat} (hfails : AttemptFails sha server s a retries)
    (hphase : s.supervisor.phase = .syncing) (hstep : s.step sha server a = some s') (hsyncs : a ≠ .abandoned ∧ a ≠ .connectFails ∧
      a ≠ .dispose ∧ a ≠ .spawned) : Leaks sha server s a ↔ s.disposed = false ∧ server.reconnect.enabled = true ∧
        ¬ (retries = 0 ∧ server.failOnStartupError = true) := by
  constructor
  · intro hleaks
    cases hleaks with
    | handshake _ => exact absurd rfl hsyncs.2.1
    | abandoned _ => exact absurd rfl hsyncs.1
    | disposed _ => exact absurd rfl hsyncs.2.2.1
    | late _ => exact absurd rfl hsyncs.2.2.2
    | retried hfails' _ hdisposed henabled hraises =>
      obtain rfl := hfails.unique hfails' hstep
      exact ⟨hdisposed, henabled, hraises⟩
  · rintro ⟨hdisposed, henabled, hraises⟩
    exact .retried hfails hphase hdisposed henabled hraises

theorem Leaks.phase {a : ConnectionAction} (h : Leaks sha server s a) :
    ((∃ client, s.supervisor.phase = .handshaking client) ∧ (a = .connectFails ∨ a = .abandoned ∨ a = .dispose)) ∨
    (a = .spawned ∧ s.disposed = true) ∨ (s.supervisor.phase = .syncing ∧ ∃ retries, AttemptFails sha server s a retries) := by
  cases h with
  | handshake hphase => exact Or.inl ⟨⟨_, hphase⟩, Or.inl rfl⟩
  | abandoned hphase => exact Or.inl ⟨⟨_, hphase⟩, Or.inr (Or.inl rfl)⟩
  | disposed hphase => exact Or.inl ⟨⟨_, hphase⟩, Or.inr (Or.inr rfl)⟩
  | late hdisposed => exact Or.inr (Or.inl ⟨rfl, hdisposed⟩)
  | retried hfails hphase _ _ _ => exact Or.inr (Or.inr ⟨hphase, _, hfails⟩)

/-- An action that fails no attempt, is none of those that end a handshake, and starts no transport leaks nothing. -/
theorem not_leaks {a : ConnectionAction} (hfails : ∀ retries, ¬ AttemptFails sha server s a retries)
    (hactions : a ≠ .connectFails ∧ a ≠ .abandoned ∧ a ≠ .dispose ∧ a ≠ .spawned) : ¬ Leaks sha server s a := by
  intro hleaks
  rcases hleaks.phase with ⟨-, hone | htwo | hthree⟩ | ⟨hspawned, -⟩ | ⟨-, retries, hfail⟩
  · exact hactions.1 hone
  · exact hactions.2.1 htwo
  · exact hactions.2.2.1 hthree
  · exact hactions.2.2.2 hspawned
  · exact hfails retries hfail

/-- A sync that ends in a failure: of the attempt, or of a call. -/
theorem Owned.sync_fails (h : s.Owned) (horderly : s.Orderly) {a : ConnectionAction} {sync : Syncing} (hsync : s.syncing = some sync)
    (catalogue : Catalogue) (hresult : s' = ({ s with
      syncing := none
      catalogue } : McpConnection).fails server sync.caller)
    (hfails : sync.caller = .attempt → AttemptFails sha server s a s.supervisor.retries)
    (hcall : sync.caller ≠ .attempt → ∀ retries, ¬ AttemptFails sha server s a retries)
    (hstep : s.step sha server a = some s') (hactions : a ≠ .connectFails ∧ a ≠ .abandoned ∧ a ≠ .dispose ∧ a ≠ .spawned) :
    s'.Owned ↔ ¬ Leaks sha server s a := by
  have hsame : ({ s with
      syncing := none
      catalogue } : McpConnection).Owned := h.of_same rfl rfl rfl rfl rfl rfl (fun _ => Iff.rfl)
  cases hcaller : sync.caller with
  | attempt =>
    have hlacks := horderly.lacks_released hsync catalogue
    rw [hcaller] at hlacks
    have hphase : s.supervisor.phase = .syncing := hlacks.syncing.1
    rw [Leaks.retried_iff (hfails hcaller) hphase hstep ⟨hactions.2.1, hactions.1, hactions.2.2.1, hactions.2.2.2⟩, hresult, hcaller]
    exact hsame.fails_syncing hphase server
  | call =>
    rw [hresult, hcaller]
    exact iff_of_true hsame (not_leaks (hcall (by simp [hcaller])) hactions)
  | giveUp => exact absurd hcaller (horderly.caller sync hsync)

theorem trying_cases (h : s.supervisor.trying = true) : (∃ client, s.supervisor.phase = .connecting client) ∨
    (∃ client, s.supervisor.phase = .handshaking client) ∨ s.supervisor.phase = .syncing := by
  unfold Supervisor.trying at h
  split at h
  · rename_i client hphase
    exact Or.inl ⟨client, hphase⟩
  · rename_i client hphase
    exact Or.inr (Or.inl ⟨client, hphase⟩)
  · rename_i hphase
    exact Or.inr (Or.inr hphase)
  · cases h

theorem retrying_cases (h : s.supervisor.retrying = true) : (∃ delay, s.supervisor.phase = .sleeping delay) ∨
    (∃ client, s.supervisor.phase = .connecting client) ∨ (∃ client, s.supervisor.phase = .handshaking client) ∨
    s.supervisor.phase = .syncing := by
  unfold Supervisor.retrying at h
  split at h
  · rename_i delay hphase
    exact Or.inl ⟨delay, hphase⟩
  · rw [Bool.and_eq_true] at h
    exact Or.inr (trying_cases h.1)

theorem Lacks.givingUp (h : s.Lacks .giveUp) : s.supervisor.phase = .givingUp := by
  have hself := h.claims .giveUp (fun hcall => Waiter.noConfusion hcall)
  rw [if_pos rfl] at hself
  have hle := awaited_le s.supervisor .giveUp
  have hone : awaited s.supervisor .giveUp = 1 := by omega
  have hboth : s.supervisor.phase = .givingUp ∧ s.supervisor.gaveUp = true := by simpa [awaited] using hone
  exact hboth.1

theorem Owned.cancelAttempt (h : s.Owned) (hnot : ∀ client, s.supervisor.phase ≠ .handshaking client) : s.cancelAttempt.Owned := by
  have hrests : ({ s with supervisor := s.supervisor.ends .cancelled } : McpConnection).Owned :=
    h.rests hnot (Or.inr (Or.inr ⟨.cancelled, Ending.noConfusion, rfl⟩)) (fun _ => ⟨.cancelled, Ending.noConfusion, rfl⟩)
  exact hrests.of_same rfl rfl rfl rfl rfl rfl (fun _ => Iff.rfl)

/-- While no client is recorded, the client of a handshake is somebody's only as long as the handshake lasts. -/
theorem Owned.still_handshaking (h : s.Owned) {client : Nat} (hphase : s.supervisor.phase = .handshaking client) {t : McpConnection}
    (howned : t.Owned) (hclient : t.client = s.client) (hclients : t.clients = s.clients) : t.supervisor.phase = .handshaking client := by
  have hnone := h.no_client (by simp [hphase, MayHold])
  have hopen : t.IsOpen client := by
    unfold McpConnection.IsOpen
    rw [hclients]
    exact (h.handshaking client hphase).1
  rcases howned.owned client hopen with hheld | hhandshaking
  · rw [hclient, hnone] at hheld
    cases hheld
  · exact hhandshaking

theorem Owned.not_cancelAttempt (h : s.Owned) {client : Nat} (hphase : s.supervisor.phase = .handshaking client) (disposed : Bool)
    (disposing : Disposing) : ¬ ({ s.cancelAttempt with
      disposed
      disposing } : McpConnection).Owned := by
  intro howned
  cases h.still_handshaking hphase howned rfl rfl

/-- The connection is disposed of when no handshake is awaited. -/
theorem Owned.disposed (h : s.Owned) (hnot : ∀ client, s.supervisor.phase ≠ .handshaking client) (disposing : Disposing)
    (hdisposing : disposing = s.disposing ∨ disposing = .supervisor) : ({ s with
      disposed := true
      disposing } : McpConnection).Owned := by
  refine ⟨h.owned, ?_, h.connecting, h.single, ?_, h.fresh, fun _ => rfl, ?_⟩
  · intro client hphase
    exact absurd hphase (hnot client)
  · rintro - ⟨⟩
  · intro hclosing
    rcases hdisposing with rfl | rfl
    · exact h.closing hclosing
    · simp at hclosing

theorem Orderly.syncing_of_attempt (horderly : s.Orderly) {sync : Syncing} (hheld : s.syncing = some sync)
    (hcaller : sync.caller = .attempt) : s.supervisor.phase = .syncing := by
  have hlacks := horderly.lacks_released hheld s.catalogue
  rw [hcaller] at hlacks
  exact hlacks.syncing.1

/-! ### The steps one by one -/

/-- A child is spawned: its client is somebody's where the connection is not disposed of. -/
theorem Owned.spawns (h : s.Owned) {client : Nat} (hphase : s.supervisor.phase = .connecting client) :
    ({ s.putClient client { started := true } with
      supervisor := { s.supervisor with phase := .handshaking client } } : McpConnection).Owned ↔ ¬ Leaks sha server s .spawned := by
  have hlt := h.connecting client hphase
  have hnone := h.no_client (by simp [hphase, MayHold])
  have hclosed : ∀ other, ¬ s.IsOpen other := by
    intro other hopen
    rcases h.owned other hopen with hheld | hhandshaking
    · rw [hnone] at hheld
      cases hheld
    · rw [hphase] at hhandshaking
      cases hhandshaking
  constructor
  · intro howned hleaks
    rcases hleaks.phase with ⟨⟨other, hhandshaking⟩, -⟩ | ⟨-, hdisposed⟩ | ⟨hsyncs, -⟩
    · rw [hphase] at hhandshaking
      cases hhandshaking
    · exact Bool.false_ne_true ((howned.handshaking client rfl).2.symm.trans hdisposed)
    · rw [hphase] at hsyncs
      cases hsyncs
  · intro hnot
    have hdisposed : s.disposed = false := by
      rw [← Bool.not_eq_true]
      intro hflag
      exact hnot (.late hflag)
    refine ⟨?_, ?_, ?_, ?_, ?_, ?_, h.disposing, h.closing⟩
    · intro other hopen
      rcases (isOpen_started s _ hlt other).mp hopen with rfl | hwas
      · exact Or.inr rfl
      · exact absurd hwas (hclosed other)
    · rintro other ⟨⟩
      exact ⟨(isOpen_started s _ hlt client).mpr (Or.inl rfl), hdisposed⟩
    · rintro other ⟨⟩
    · intro hclient
      exact absurd hnone hclient
    · rintro ⟨⟩
    · rintro ⟨⟩

theorem Owned.connects (h : s.Owned) {client : Nat} (hphase : s.supervisor.phase = .handshaking client) : ({ s with
      client := some client
      supervisor := { s.supervisor with
        phase := .syncing
        attempts := 0
        connectedAt := some s.now } } : McpConnection).Owned := by
  obtain ⟨-, hdisposed⟩ := h.handshaking client hphase
  have hnone := h.no_client (by simp [hphase, MayHold])
  refine ⟨?_, ?_, ?_, fun _ => Or.inl rfl, ?_, fun _ => rfl, h.disposing, ?_⟩
  · intro other hother
    rcases h.owned other hother with hheld | hhandshaking
    · rw [hnone] at hheld
      cases hheld
    · rw [hphase] at hhandshaking
      exact Or.inl (congrArg some (Phase.handshaking.inj hhandshaking))
  · rintro other ⟨⟩
  · rintro other ⟨⟩
  · intro _ _ hcontra
    cases hcontra
  · intro hdisposing
    have hnot : s.disposing ≠ .notYet := by
      rcases hdisposing with heq | heq | heq <;> simp only at heq <;> simp [heq]
    exact absurd (hdisposed.symm.trans (h.disposing hnot)) Bool.false_ne_true

theorem Owned.not_fails (h : s.Owned) {client : Nat} (hphase : s.supervisor.phase = .handshaking client) :
    ¬ (s.fails server .attempt).Owned := by
  intro howned
  have hhandshaking : (s.supervisor.attemptFails server s.disposed s.now).phase = .handshaking client :=
    h.still_handshaking hphase howned rfl rfl
  have hrests := attemptFails_resting server s.disposed s.now s.supervisor
  rw [hhandshaking] at hrests
  rcases hrests with hgiving | ⟨delay, hsleeps⟩ | ⟨how, -, hended⟩
  · cases hgiving
  · cases hsleeps
  · cases hended

theorem not_attemptFails_syncs {sync : Syncing} (hheld : s.syncing = some sync) (hcaller : sync.caller ≠ .attempt)
    {refused refusedBack : String → Bool} (retries : Nat) : ¬ AttemptFails sha server s (.syncs refused refusedBack) retries := by
  intro hfails
  cases hfails with
  | listedTwice _ _ hheld' hcaller' _ _ =>
    obtain rfl := Option.some.inj (hheld.symm.trans hheld')
    exact hcaller hcaller'
  | raises hheld' hcaller' _ _ _ =>
    obtain rfl := Option.some.inj (hheld.symm.trans hheld')
    exact hcaller hcaller'

theorem Owned.registers (h : s.Owned) (horderly : s.Orderly) {sync : Syncing} {rawNames : List String} {tools : Dict String McpTool}
    {refused refusedBack : String → Bool} (hheld : s.syncing = some sync) (hlisted : sync.listed = some rawNames)
    (hfetch : fetchTools sha server.name sync.client rawNames .empty = some tools)
    (hstep : s.step sha server (.syncs refused refusedBack) = some (s.registers server refused refusedBack sync tools)) :
    (s.registers server refused refusedBack sync tools).Owned ↔ ¬ Leaks sha server s (.syncs refused refusedBack) := by
  have hgeneration : ∀ {sync' rawNames' tools'}, s.syncing = some sync' → sync'.listed = some rawNames' →
      fetchTools sha server.name sync'.client rawNames' .empty = some tools' → sync' = sync ∧ tools' = tools := by
    intro sync' rawNames' tools' hheld' hlisted' hfetch'
    obtain rfl := Option.some.inj (hheld.symm.trans hheld')
    obtain rfl := Option.some.inj (hlisted.symm.trans hlisted')
    exact ⟨rfl, Option.some.inj (hfetch'.symm.trans hfetch)⟩
  cases hsynced : (syncTools server.failOnStartupError refused refusedBack s.catalogue.registry sync.previous tools).generation with
  | some generation =>
    have hresult : s.registers server refused refusedBack sync tools = ({ s with
        syncing := none
        catalogue := ⟨(syncTools server.failOnStartupError refused refusedBack s.catalogue.registry sync.previous tools).registry,
          generation⟩ } : McpConnection).returns sync.caller := by
      simp only [McpConnection.registers, hsynced]
    have hsame : ∀ catalogue, ({ s with
        syncing := none
        catalogue } : McpConnection).Owned := fun _ => h.of_same rfl rfl rfl rfl rfl rfl (fun _ => Iff.rfl)
    have hfails : ∀ retries, ¬ AttemptFails sha server s (.syncs refused refusedBack) retries := by
      intro retries hfails
      cases hfails with
      | listedTwice _ _ hheld' _ hlisted' hfetch' =>
        obtain rfl := Option.some.inj (hheld.symm.trans hheld')
        obtain rfl := Option.some.inj (hlisted.symm.trans hlisted')
        rw [hfetch] at hfetch'
        cases hfetch'
      | raises hheld' _ hlisted' hfetch' hraises =>
        obtain ⟨rfl, rfl⟩ := hgeneration hheld' hlisted' hfetch'
        rw [hsynced] at hraises
        cases hraises
    rw [hresult]
    refine iff_of_true ?_ (not_leaks hfails (by simp))
    cases hcaller : sync.caller with
    | attempt =>
      have hphase := horderly.syncing_of_attempt hheld hcaller
      exact (hsame _).rests (by simp [hphase]) (Or.inr (Or.inr ⟨.synced, Ending.noConfusion, rfl⟩))
        (fun _ => ⟨.synced, Ending.noConfusion, rfl⟩)
    | call => exact hsame _
    | giveUp => exact hsame _
  | none =>
    have hresult : s.registers server refused refusedBack sync tools = ({ s with
        syncing := none
        catalogue := ⟨(syncTools server.failOnStartupError refused refusedBack s.catalogue.registry sync.previous tools).registry,
          { s.catalogue.generation with disposers := [] }⟩ } : McpConnection).fails server sync.caller := by
      simp only [McpConnection.registers, hsynced]
    refine h.sync_fails horderly hheld _ hresult ?_ ?_ hstep (by simp)
    · intro hcaller
      exact .raises hheld hcaller hlisted hfetch hsynced
    · exact fun hcaller => not_attemptFails_syncs hheld hcaller

theorem Owned.listedTwice (h : s.Owned) (horderly : s.Orderly) {sync : Syncing} {rawNames : List String}
    {refused refusedBack : String → Bool} (hheld : s.syncing = some sync) (hlisted : sync.listed = some rawNames)
    (hfetch : fetchTools sha server.name sync.client rawNames .empty = none)
    (hstep : s.step sha server (.syncs refused refusedBack) = some ({ s with syncing := none }.fails server sync.caller)) :
    ({ s with syncing := none }.fails server sync.caller).Owned ↔ ¬ Leaks sha server s (.syncs refused refusedBack) := by
  refine h.sync_fails horderly hheld s.catalogue rfl ?_ ?_ hstep (by simp)
  · intro hcaller
    exact .listedTwice refused refusedBack hheld hcaller hlisted hfetch
  · exact fun hcaller => not_attemptFails_syncs hheld hcaller

/-- Where no handshake is awaited, disposing of the connection leaks nothing. -/
theorem not_leaks_dispose (hnot : ∀ client, s.supervisor.phase ≠ .handshaking client) : ¬ Leaks sha server s .dispose := by
  intro hleaks
  rcases hleaks.phase with ⟨⟨client, hhandshaking⟩, -⟩ | ⟨heq, -⟩ | ⟨-, retries, hfail⟩
  · exact hnot client hhandshaking
  · cases heq
  · cases hfail

theorem Owned.disposeCancels (h : s.Owned) : ({ s.cancelAttempt with
      disposed := true
      disposing := .supervisor } : McpConnection).Owned ↔ ¬ Leaks sha server s .dispose := by
  by_cases hphase : ∃ client, s.supervisor.phase = .handshaking client
  · obtain ⟨client, hphase⟩ := hphase
    exact iff_of_false (h.not_cancelAttempt hphase true .supervisor) (not_not.mpr (.disposed hphase))
  · have hnot : ∀ client, s.supervisor.phase ≠ .handshaking client := not_exists.mp hphase
    refine iff_of_true ((h.cancelAttempt hnot).disposed ?_ .supervisor (Or.inr rfl)) ?_
    · rintro client ⟨⟩
    · exact not_leaks_dispose hnot

/-- The connection is disposed of while its supervisor has nothing to cancel. -/
theorem Owned.disposes (h : s.Owned) : ({ s with disposed := true } : McpConnection).closes.Owned ↔ ¬ Leaks sha server s .dispose := by
  by_cases hphase : ∃ client, s.supervisor.phase = .handshaking client
  · obtain ⟨client, hphase⟩ := hphase
    refine iff_of_false ?_ (not_not.mpr (.disposed hphase))
    intro howned
    have hkept : ({ s with disposed := true } : McpConnection).closes.supervisor.phase = .handshaking client := by
      rw [supervisor_closes]
      exact hphase
    have hflag : ({ s with disposed := true } : McpConnection).closes.disposed = true := by
      unfold McpConnection.closes
      split <;> rfl
    exact Bool.false_ne_true ((howned.handshaking client hkept).2.symm.trans hflag)
  · have hnot : ∀ client, s.supervisor.phase ≠ .handshaking client := not_exists.mp hphase
    exact iff_of_true ((h.disposed hnot s.disposing (Or.inl rfl)).closes rfl) (not_leaks_dispose hnot)

/-- A step keeps every open client somebody's, exactly if it leaks none. -/
theorem Owned.step (h : s.Owned) (horderly : s.Orderly) {a : ConnectionAction} (hstep : s.step sha server a = some s') :
    s'.Owned ↔ ¬ Leaks sha server s a := by
  have hquiet : ∀ {phase}, s.supervisor.phase = phase → (∀ client, phase ≠ .handshaking client) → phase ≠ .syncing →
      a ≠ .spawned → ¬ Leaks sha server s a := by
    intro phase hphase hnot hsyncing hspawned hleaks
    rcases hleaks.phase with ⟨⟨client, hhandshaking⟩, -⟩ | ⟨heq, -⟩ | ⟨hsyncs, -⟩
    · exact hnot client (hphase.symm.trans hhandshaking)
    · exact hspawned heq
    · exact hsyncing (hphase.symm.trans hsyncs)
  have hplain : s'.Owned → (∀ retries, ¬ AttemptFails sha server s a retries) →
      a ≠ .connectFails ∧ a ≠ .abandoned ∧ a ≠ .dispose ∧ a ≠ .spawned → (s'.Owned ↔ ¬ Leaks sha server s a) :=
    fun howned hfails hactions => iff_of_true howned (not_leaks hfails hactions)
  cases moves_of_step hstep with
  | start hphase =>
    exact iff_of_true (h.begins server _ (by simp [hphase, MayHold]) (by simp [hphase]))
      (hquiet hphase (by simp) (by simp) (by simp))
  | stopped hphase hdisposed =>
    exact iff_of_true (h.rests (by simp [hphase]) (Or.inr (Or.inr ⟨.stopped, Ending.noConfusion, rfl⟩))
      (fun _ => ⟨.stopped, Ending.noConfusion, rfl⟩)) (hquiet hphase (by simp) (by simp) (by simp))
  | wake hphase hdisposed =>
    have hsame : ({ s with supervisor := { s.supervisor with retries := s.supervisor.retries + 1 } } : McpConnection).Owned :=
      h.of_same rfl rfl rfl rfl rfl rfl (fun _ => Iff.rfl)
    exact iff_of_true (hsame.begins server _ (by simp [hphase, MayHold]) (by simp [hphase]))
      (hquiet hphase (by simp) (by simp) (by simp))
  | spawned hphase => exact h.spawns hphase
  | connected hphase =>
    refine hplain ((h.connects hphase).enters (fun _ => rfl) (fun hgiveUp => Waiter.noConfusion hgiveUp)) ?_ (by simp)
    rintro retries ⟨⟩
  | @connectFails hphase =>
    rcases hphase with ⟨client, hphase⟩ | ⟨client, hphase⟩
    · exact iff_of_true (h.fails_early server (by simp [hphase, MayHold]) (by simp [hphase]))
        (hquiet hphase (by simp) (by simp) (by simp))
    · exact iff_of_false (h.not_fails hphase) (not_not.mpr (.handshake hphase))
  | abandoned htrying hstart =>
    have hfails : ∀ retries, ¬ AttemptFails sha server s .abandoned retries := by
      rintro retries ⟨⟩
    rcases trying_cases htrying with ⟨client, hphase⟩ | ⟨client, hphase⟩ | hphase
    · exact iff_of_true (h.cancelAttempt (by simp [hphase])) (hquiet hphase (by simp) (by simp) (by simp))
    · exact iff_of_false (h.not_cancelAttempt hphase s.disposed s.disposing) (not_not.mpr (.abandoned hphase))
    · refine iff_of_true (h.cancelAttempt (by simp [hphase])) ?_
      intro hleaks
      rcases hleaks.phase with ⟨⟨client, hhandshaking⟩, -⟩ | ⟨heq, -⟩ | ⟨-, retries, hfail⟩
      · rw [hphase] at hhandshaking
        cases hhandshaking
      · cases heq
      · exact hfails retries hfail
  | sync =>
    refine hplain (h.enters (fun hattempt => Waiter.noConfusion hattempt) (fun hgiveUp => Waiter.noConfusion hgiveUp)) ?_ (by simp)
    rintro retries ⟨⟩
  | @acquire waiter waiting hfree hwaiting =>
    have hsame : ({ s with waiting := waiting } : McpConnection).Owned := h.of_same rfl rfl rfl rfl rfl rfl (fun _ => Iff.rfl)
    have hlacks := horderly.lacks_head hwaiting
    refine hplain (hsame.takesLock ?_ ?_) ?_ (by simp)
    · rintro rfl
      exact hlacks.syncing.1
    · rintro rfl
      exact hlacks.givingUp
    · rintro retries ⟨⟩
  | listed hheld hnone hlive =>
    refine hplain (h.of_same rfl rfl rfl rfl rfl rfl (fun _ => Iff.rfl)) ?_ (by simp)
    rintro retries ⟨⟩
  | @fetchFails sync hheld hnone =>
    refine h.sync_fails horderly hheld s.catalogue rfl ?_ ?_ hstep (by simp)
    · intro hcaller
      exact .fetch hheld hcaller hnone
    · intro hcaller retries hfails
      cases hfails with
      | fetch hheld' hcaller' _ =>
        obtain rfl := Option.some.inj (hheld.symm.trans hheld')
        exact hcaller hcaller'
  | registers hheld hlisted hfetch => exact h.registers horderly hheld hlisted hfetch hstep
  | listedTwice hheld hlisted hfetch => exact h.listedTwice horderly hheld hlisted hfetch hstep
  | syncCancelled hheld hcaller =>
    refine hplain (h.of_same rfl rfl rfl rfl rfl rfl (fun _ => Iff.rfl)) ?_ (by simp)
    rintro retries ⟨⟩
  | waitCancelled hplace =>
    refine hplain (h.of_same rfl rfl rfl rfl rfl rfl (fun _ => Iff.rfl)) ?_ (by simp)
    rintro retries ⟨⟩
  | giveUp hphase hnot =>
    have hsame : ({ s with supervisor := { s.supervisor with gaveUp := true } } : McpConnection).Owned :=
      h.of_same rfl rfl rfl rfl rfl rfl (fun _ => Iff.rfl)
    refine hplain (hsame.enters (fun hattempt => Waiter.noConfusion hattempt) (fun _ => hphase)) ?_ (by simp)
    rintro retries ⟨⟩
  | disposed hdisposed =>
    refine iff_of_true h (not_leaks_dispose ?_)
    intro client hhandshaking
    exact Bool.false_ne_true ((h.handshaking client hhandshaking).2.symm.trans hdisposed)
  | disposeCancels _ _ => exact h.disposeCancels
  | disposes _ _ => exact h.disposes
  | disposeGoesOn hdisposing =>
    refine hplain (h.closes (h.disposing (by simp [hdisposing]))) ?_ (by simp)
    rintro retries ⟨⟩
  | disposeEnds hdisposing =>
    have hnone := h.closing (Or.inl hdisposing)
    have hdisposed := h.disposing (by simp [hdisposing])
    refine hplain ⟨h.owned, h.handshaking, h.connecting, h.single, h.recorded, h.fresh, fun _ => hdisposed, fun _ => hnone⟩ ?_ (by simp)
    rintro retries ⟨⟩
  | disposeCancelled hdisposing =>
    have hnone := h.closing (Or.inl hdisposing)
    have hdisposed := h.disposing (by simp [hdisposing])
    refine hplain ⟨h.owned, h.handshaking, h.connecting, h.single, h.recorded, h.fresh, fun _ => hdisposed, fun _ => hnone⟩ ?_ (by simp)
    rintro retries ⟨⟩
  | endOfInput hpeer hlive =>
    refine hplain (h.of_same rfl rfl rfl rfl rfl ?_ (isOpen_ended hpeer)) ?_ (by simp)
    · exact List.length_set
    · rintro retries ⟨⟩
  | tick =>
    refine hplain (h.of_same rfl rfl rfl rfl rfl rfl (fun _ => Iff.rfl)) ?_ (by simp)
    rintro retries ⟨⟩
  | register hfree =>
    refine hplain (h.of_same rfl rfl rfl rfl rfl rfl (fun _ => Iff.rfl)) ?_ (by simp)
    rintro retries ⟨⟩
  | unregister hother =>
    refine hplain (h.of_same rfl rfl rfl rfl rfl rfl (fun _ => Iff.rfl)) ?_ (by simp)
    rintro retries ⟨⟩

theorem owned_start : ({} : McpConnection).Owned := by
  refine ⟨?_, ?_, ?_, ?_, ?_, ?_, ?_, ?_⟩
  · rintro client ⟨peer, hpeer, -⟩
    cases hpeer
  · rintro client ⟨⟩
  · rintro client ⟨⟩
  · intro hclient
    exact absurd rfl hclient
  · rintro ⟨⟩
  · rintro ⟨⟩
  · intro hdisposing
    exact absurd rfl hdisposing
  · intro _
    rfl

end McpConnection

open McpConnection in
/-- In every run in which no step leaks a client at most one is open, and none after a give-up or a disposal is over; every client that is
open is the connection's or that of the handshake under way, and the next step keeps that exactly if it leaks none. -/
theorem clients_closed (sha : Sha256) (server : McpServer) (s : McpConnection)
    (hreach : Machine.Reach (step sha server) (fun s a => ¬ Leaks sha server s a) {} s) :
    (∀ client other, s.IsOpen client → s.IsOpen other → client = other) ∧ (s.Finished → ∀ client, ¬ s.IsOpen client) ∧
    s.Owned ∧ ∀ a s', s.step sha server a = some s' → (s'.Owned ↔ ¬ Leaks sha server s a) := by
  obtain ⟨horderly, howned⟩ := hreach.invariant (P := fun s => s.Orderly ∧ s.Owned) ⟨orderly_start, owned_start⟩ (by
    rintro s a s' ⟨horderly, howned⟩ hnot hstep
    exact ⟨horderly.step hstep, (howned.step horderly hstep).mpr hnot⟩)
  refine ⟨howned.one.1, howned.one.2, howned, ?_⟩
  intro a s' hstep
  exact howned.step horderly hstep

open McpConnection in
theorem not_leaks_connecting {s : McpConnection} (hphase : s.supervisor.phase ≠ .syncing) {a : ConnectionAction}
    (hactions : a ≠ .connectFails ∧ a ≠ .abandoned ∧ a ≠ .dispose) (hspawned : a = .spawned → s.disposed = false) :
    ¬ Leaks oneHash retriedOnce s a := by
  intro hleaks
  rcases hleaks.phase with ⟨-, hone | htwo | hthree⟩ | ⟨heq, hdisposed⟩ | ⟨hsyncing, -⟩
  · exact hactions.1 hone
  · exact hactions.2.1 htwo
  · exact hactions.2.2 hthree
  · exact Bool.false_ne_true ((hspawned heq).symm.trans hdisposed)
  · exact hphase hsyncing

open McpConnection in
/-- A connected client is the one that is open, whatever it makes of its sync. -/
theorem clients_closed_connected : ∃ s, Machine.exec (step oneHash retriedOnce) {} [.start true, .spawned, .connected] = some s ∧
    s.IsOpen 0 ∧ ∀ client, s.IsOpen client → client = 0 := by
  have hopen : (connectionAfter [.start true, .spawned, .connected]).IsOpen 0 := ⟨_, rfl, rfl⟩
  refine ⟨_, rfl, hopen, ?_⟩
  intro client hclient
  refine (clients_closed oneHash retriedOnce _ ?_).1 client 0 hclient hopen
  refine .next .connected (.next .spawned (.next (.start true) .start ?_ rfl) ?_ rfl) ?_ rfl
  · exact not_leaks_connecting (by simp) (by simp) (by simp)
  · exact not_leaks_connecting (fun hphase => Phase.noConfusion hphase) (by simp) (fun _ => rfl)
  · exact not_leaks_connecting (fun hphase => Phase.noConfusion hphase) (by simp) (by simp)

open McpConnection in
/-- The handshakes of two clients fail: both are open, and the connection has been given up. -/
theorem clients_left_open : ∃ s, Machine.exec (step oneHash retriedOnce) {}
      [.start true, .spawned, .connectFails, .wake true, .spawned, .connectFails, .giveUp] = some s ∧
    s.Finished ∧ s.IsOpen 0 ∧ s.IsOpen 1 :=
  ⟨_, rfl, Or.inl rfl, ⟨_, rfl, rfl⟩, ⟨_, rfl, rfl⟩⟩

end Pydsh
