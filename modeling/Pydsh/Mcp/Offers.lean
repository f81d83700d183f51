import Pydsh.Mcp.Clients

/-!
# Dead tools are offered

`mcp/connection.py`, under "supervision": while no attempt is under way or scheduled, the client is live or none of the server's tools are
registered. The reader of a transport that comes to the end of its input tells nobody, so a connection that was synced and drops is
neither retried nor given up, and its tools stay; so they do between the closing of the client and the end of `dispose`, and when an
attempt is the last one and does not lead to a give-up (`no_dead_tools`).
-/

namespace Pydsh

/-- An attempt is in progress, or scheduled. -/
def Phase.underWay : Phase → Bool
  | .connecting _ | .handshaking _ | .syncing | .sleeping _ => true
  | _ => false

/-- A registry offers a tool of the server. -/
def Offering (registry : Dict String Registered) : Prop := ∃ name tool, registry.get? name = some (.server tool)

namespace McpConnection

variable {sha : Sha256} {server : McpServer} {s t s' : McpConnection}

/-- No attempt is in progress or scheduled. -/
def Settled (s : McpConnection) : Prop := s.supervisor.phase.underWay = false

/-- The transport of the current client is live. -/
def Live (s : McpConnection) : Prop := ∃ client, s.client = some client ∧ s.liveAt client = true

/-- A tool is offered that cannot be called. -/
def Stale (s : McpConnection) : Prop := ¬ s.Live ∧ Offering s.catalogue.registry

/-- No dead tool is offered. -/
def NoDead (s : McpConnection) : Prop := s.Settled → ¬ s.Stale

/-- A failed attempt is followed by another. -/
structure Retried (server : McpServer) (disposed : Bool) (now : Nat) (supervisor : Supervisor) : Prop where
  disposed : disposed = false
  enabled : server.reconnect.enabled = true
  contained : ¬ (supervisor.retries = 0 ∧ server.failOnStartupError = true)
  some_left : supervisor.counted now ≤ server.reconnect.maxAttempts
  computed : supervisor.counted now - 1 < 1024

/-- A sync leaves a tool of the server in the registry: one of the new tools; a previous one that is put back; or one that the previous
generation does not take out. -/
def LeavesTools (s : McpConnection) (refused refusedBack : String → Bool) (sync : Syncing) (tools : Dict String McpTool) : Prop :=
  (s.Accepts refused sync tools ∧ ∃ name tool, tools.get? name = some tool) ∨
  (¬ s.Accepts refused sync tools ∧ s.Accepts refusedBack sync sync.previous.tools ∧ ∃ name tool, sync.previous.tools.get? name = some tool) ∨
  Offering (sync.previous.leaves s.catalogue.registry)

/-- A step drops the connection and leaves its tools: the transport of the client ends when no attempt is under way; the last attempt ends
without a live client, as it fails, is cancelled or returns; the client is closed; or tools are registered without a live client. -/
inductive Drops (sha : Sha256) (server : McpServer) (s : McpConnection) : ConnectionAction → Prop where
  | ended {client : Nat} (hclient : s.client = some client) (hsettled : s.Settled) (hoffers : Offering s.catalogue.registry) :
    Drops sha server s (.endOfInput client)
  | failed {a : ConnectionAction} {retries : Nat} (hfails : AttemptFails sha server s a retries)
    (hfetched : ∀ sync tools, Fetched sha server s sync tools → ∀ refused refusedBack, a ≠ .syncs refused refusedBack)
    (hlast : ¬ Retried server s.disposed s.now { s.supervisor with retries }) (hstale : s.Stale) : Drops sha server s a
  | abandoned (hstale : s.Stale) : Drops sha server s .abandoned
  | stopped {made : Bool} (hdisposed : s.disposed = true) (hstale : s.Stale) : Drops sha server s (.wake made)
  | returned {waiting : List Waiter} (hwaiting : s.waiting = .attempt :: waiting) (hnothing : s.disposed = true ∨ s.client = none)
    (hstale : s.Stale) : Drops sha server s .acquire
  | connected {client : Nat} (hphase : s.supervisor.phase = .handshaking client) (hfree : s.syncing = none ∧ s.waiting = [])
    (hdisposed : s.disposed = true) (hdead : s.liveAt client = false) (hoffers : Offering s.catalogue.registry) :
    Drops sha server s .connected
  | cancelled (hdisposed : s.disposed = false) (hretrying : s.supervisor.retrying = true) (hstale : s.Stale) : Drops sha server s .dispose
  | disposed {client : Nat} (hdisposed : s.disposed = false) (hsettled : s.Settled) (hclient : s.client = some client)
    (hoffers : Offering s.catalogue.registry) : Drops sha server s .dispose
  | closed {client : Nat} (hsettled : s.Settled) (hclient : s.client = some client) (hoffers : Offering s.catalogue.registry) :
    Drops sha server s .disposeGoesOn
  | resynced {sync : Syncing} {tools : Dict String McpTool} {refused refusedBack : String → Bool}
    (hfetched : Fetched sha server s sync tools) (hcaller : sync.caller ≠ .attempt) (hsettled : s.Settled) (hdead : ¬ s.Live)
    (hleaves : s.LeavesTools refused refusedBack sync tools) : Drops sha server s (.syncs refused refusedBack)
  | synced {sync : Syncing} {tools : Dict String McpTool} {refused refusedBack : String → Bool}
    (hfetched : Fetched sha server s sync tools) (hcaller : sync.caller = .attempt) (hdead : ¬ s.Live)
    (hleaves : s.LeavesTools refused refusedBack sync tools)
    (hlast : ¬ s.Accepts refused sync tools → server.failOnStartupError = true → ¬ Retried server s.disposed s.now s.supervisor) :
    Drops sha server s (.syncs refused refusedBack)

/-! ## What is offered after a step -/

theorem noDead_underWay (h : s.supervisor.phase.underWay = true) : s.NoDead := by
  intro hsettled
  exact absurd (hsettled.symm.trans h) Bool.false_ne_true

theorem noDead_settled (h : s.Settled) : s.NoDead ↔ ¬ s.Stale := ⟨fun hnoDead => hnoDead h, fun hnot _ => hnot⟩

/-- Nothing is offered that was not, and the client is as live as it was. -/
theorem NoDead.of_same (h : s.NoDead) (hphase : t.Settled → s.Settled) (hlive : s.Live → t.Live)
    (hoffers : Offering t.catalogue.registry → ¬ s.Live → Offering s.catalogue.registry) : t.NoDead := by
  intro hsettled hstale
  have hdead : ¬ s.Live := fun hwas => hstale.1 (hlive hwas)
  exact h (hphase hsettled) ⟨hdead, hoffers hstale.2 hdead⟩

theorem offering_leaves {generation : Generation} {registry : Dict String Registered} (h : Offering (generation.leaves registry)) :
    Offering registry := by
  obtain ⟨name, tool, hget⟩ := h
  rw [get?_leaves] at hget
  split at hget
  · cases hget
  · exact ⟨name, tool, hget⟩

theorem offering_clear (h : Offering s.catalogue.clear.registry) : Offering s.catalogue.registry := offering_leaves h

theorem offering_holds {registry before : Dict String Registered} {tools : Dict String McpTool} {generation : Generation}
    (h : Holds registry before tools generation) : Offering registry ↔ (∃ name tool, tools.get? name = some tool) ∨ Offering before := by
  constructor
  · rintro ⟨name, tool, hget⟩
    rcases (h.entries name _).mp hget with ⟨tool', htool, -⟩ | hbefore
    · exact Or.inl ⟨name, tool', htool⟩
    · exact Or.inr ⟨name, tool, hbefore⟩
  · rintro (⟨name, tool, htool⟩ | ⟨name, tool, hbefore⟩)
    · exact ⟨name, tool, (h.entries name _).mpr (Or.inl ⟨tool, htool, rfl⟩)⟩
    · exact ⟨name, tool, (h.entries name _).mpr (Or.inr hbefore)⟩

theorem offering_same {registry before : Dict String Registered} (h : ∀ name, registry.get? name = before.get? name) :
    Offering registry ↔ Offering before := by
  simp only [Offering, h]

theorem retried_iff (server : McpServer) (disposed : Bool) (now : Nat) (supervisor : Supervisor) :
    (supervisor.attemptFails server disposed now).phase.underWay = true ↔ Retried server disposed now supervisor := by
  unfold Supervisor.attemptFails
  split
  · rename_i hraises
    exact iff_of_false Bool.false_ne_true (fun hretried => hretried.contained hraises)
  · rename_i hcontained
    rcases scheduleRetry_cases server.reconnect disposed now supervisor with ⟨hstopped, heq⟩ |
      ⟨hdisposed, henabled, hmany, connectedAt, heq⟩ | ⟨hdisposed, henabled, hfew, hpower, connectedAt, delay, heq⟩ |
      ⟨hdisposed, henabled, hfew, hpower, hdied⟩
    · rw [heq]
      refine iff_of_false Bool.false_ne_true ?_
      intro hretried
      simp [hretried.disposed, hretried.enabled] at hstopped
    · rw [heq]
      refine iff_of_false Bool.false_ne_true ?_
      intro hretried
      exact absurd hretried.some_left (Nat.not_le_of_lt hmany)
    · rw [heq]
      exact iff_of_true rfl ⟨hdisposed, henabled, hcontained, hfew, hpower⟩
    · rw [hdied]
      refine iff_of_false Bool.false_ne_true ?_
      intro hretried
      exact absurd hretried.computed (Nat.not_lt_of_le hpower)

theorem noDead_fails (server : McpServer) (s : McpConnection) :
    (s.fails server .attempt).NoDead ↔ ¬ (¬ Retried server s.disposed s.now s.supervisor ∧ s.Stale) := by
  have hiff := retried_iff server s.disposed s.now s.supervisor
  by_cases hretried : Retried server s.disposed s.now s.supervisor
  · exact iff_of_true (noDead_underWay (hiff.mpr hretried)) (fun hand => hand.1 hretried)
  · have hsettled : (s.fails server .attempt).Settled := by
      rw [Settled, ← Bool.not_eq_true]
      exact fun hunder => hretried (hiff.mp hunder)
    rw [noDead_settled hsettled]
    exact not_congr ⟨fun hstale => ⟨hretried, hstale⟩, fun hand => hand.2⟩

/-- What a sync leaves in the registry, and whether it raises. -/
theorem registers_leaves (server : McpServer) (refused refusedBack : String → Bool) (s : McpConnection) (sync : Syncing)
    (tools : Dict String McpTool) : ∃ catalogue, (Offering catalogue.registry ↔ s.LeavesTools refused refusedBack sync tools) ∧
      ((¬ (¬ s.Accepts refused sync tools ∧ server.failOnStartupError = true) ∧
        s.registers server refused refusedBack sync tools = ({ s with
          syncing := none
          catalogue } : McpConnection).returns sync.caller) ∨
      (¬ s.Accepts refused sync tools ∧ server.failOnStartupError = true ∧
        s.registers server refused refusedBack sync tools = ({ s with
          syncing := none
          catalogue } : McpConnection).fails server sync.caller)) := by
  have hback : ∀ {registry}, ¬ s.Accepts refused sync tools → s.PutBack refusedBack sync registry →
      (Offering registry ↔ s.LeavesTools refused refusedBack sync tools) := by
    rintro registry hrefuses (⟨haccepts, generation, hholds⟩ | ⟨hnot, hsame⟩)
    · rw [offering_holds hholds]
      simp [LeavesTools, hrefuses, haccepts]
    · rw [offering_same hsame]
      simp [LeavesTools, hrefuses, hnot]
  rcases registers_cases server refused refusedBack s sync tools with ⟨haccepts, catalogue, hholds, heq⟩ |
    ⟨hrefuses, hcontained, haccepts, catalogue, hholds, heq⟩ | ⟨hrefuses, hcontained, hnot, registry, hsame, heq⟩ |
    ⟨hrefuses, hraises, registry, hputs, heq⟩
  · refine ⟨catalogue, ?_, Or.inl ⟨fun hand => hand.1 haccepts, heq⟩⟩
    rw [offering_holds hholds]
    simp [LeavesTools, haccepts]
  · exact ⟨catalogue, hback hrefuses (Or.inl ⟨haccepts, _, hholds⟩), Or.inl ⟨by simp [hcontained], heq⟩⟩
  · exact ⟨⟨registry, ⟨sync.previous.tools, []⟩⟩, hback hrefuses (Or.inr ⟨hnot, hsame⟩), Or.inl ⟨by simp [hcontained], heq⟩⟩
  · exact ⟨⟨registry, { s.catalogue.generation with disposers := [] }⟩, hback hrefuses hputs, Or.inr ⟨hrefuses, hraises, heq⟩⟩

/-! ## One step -/

theorem Drops.action {a : ConnectionAction} (h : Drops sha server s a) (hfails : ∀ retries, ¬ AttemptFails sha server s a retries) :
    (∃ client, a = .endOfInput client) ∨ a = .abandoned ∨ (∃ made, a = .wake made) ∨ a = .acquire ∨ a = .connected ∨ a = .dispose ∨
      a = .disposeGoesOn ∨ ∃ refused refusedBack, a = .syncs refused refusedBack := by
  cases h with
  | ended _ _ _ => simp
  | failed hfail _ _ _ => exact absurd hfail (hfails _)
  | abandoned _ => simp
  | stopped _ _ => simp
  | returned _ _ _ => simp
  | connected _ _ _ _ _ => simp
  | cancelled _ _ _ => simp
  | disposed _ _ _ _ => simp
  | closed _ _ _ => simp
  | resynced _ _ _ _ _ => simp
  | synced _ _ _ _ _ => simp

theorem noDead_ends (s : McpConnection) (how : Ending) :
    ({ s with supervisor := s.supervisor.ends how } : McpConnection).NoDead ↔ ¬ s.Stale :=
  noDead_settled (s := { s with supervisor := s.supervisor.ends how }) rfl

/-- The lock is given to an attempt, which returns or goes on; to a give-up; or to a call. -/
theorem NoDead.takesLock (h : s.NoDead) {waiter : Waiter} (hgiveUp : waiter = .giveUp → s.supervisor.phase = .givingUp)
    (hattempt : waiter = .attempt → s.supervisor.phase = .syncing) :
    (s.takesLock waiter).NoDead ↔ ¬ (waiter = .attempt ∧ (s.disposed = true ∨ s.client = none) ∧ s.Stale) := by
  rcases takesLock_cases s waiter with ⟨hwaiter, heq⟩ | ⟨-, hdisposed, client, hclient, heq⟩ | ⟨-, hnothing, heq⟩
  · have hsettled : s.Settled := by rw [Settled, hgiveUp hwaiter]; rfl
    refine iff_of_true ?_ (by simp [hwaiter])
    rw [heq]
    exact h.of_same (fun _ => hsettled) id (fun hoffers _ => offering_clear hoffers)
  · refine iff_of_true ?_ ?_
    · rw [heq]
      exact h.of_same id id (fun hoffers _ => hoffers)
    · rintro ⟨-, hflag | hnone, -⟩
      · exact Bool.false_ne_true (hdisposed.symm.trans hflag)
      · rw [hclient] at hnone
        cases hnone
  · rw [heq]
    cases waiter with
    | attempt =>
      refine (noDead_ends s .synced).trans (not_congr ?_)
      simp [hnothing]
    | call => exact iff_of_true h (by simp)
    | giveUp => exact iff_of_true h (by simp)

theorem NoDead.enters (h : s.NoDead) {waiter : Waiter} (hgiveUp : waiter = .giveUp → s.supervisor.phase = .givingUp)
    (hwaiter : waiter ≠ .attempt) : (s.enters waiter).NoDead := by
  rcases enters_cases s waiter with ⟨-, -, heq⟩ | heq
  · rw [heq]
    exact (h.takesLock hgiveUp (fun hattempt => absurd hattempt hwaiter)).mpr (fun hand => hwaiter hand.1)
  · rw [heq]
    exact h.of_same id id (fun hoffers _ => hoffers)

theorem liveAt_ended (s : McpConnection) (client : Nat) (peer : McpPeer) (other : Nat) :
    (s.putClient client { peer with ended := true }).liveAt other = (if client = other then false else s.liveAt other) := by
  unfold liveAt
  simp only [putClient, List.getElem?_set]
  split
  · split <;> simp [McpPeer.live]
  · rfl

/-- Closing the client leaves no live one; without a client, the tools are taken out. -/
theorem NoDead.closes (h : s.NoDead) : s.closes.NoDead ↔
    ¬ (s.Settled ∧ (∃ client, s.client = some client) ∧ Offering s.catalogue.registry) := by
  unfold McpConnection.closes
  split
  · rename_i hnone
    refine iff_of_true (h.of_same id id (fun hoffers _ => offering_clear hoffers)) ?_
    rintro ⟨-, ⟨client, hclient⟩, -⟩
    rw [hnone] at hclient
    cases hclient
  · rename_i client hclient
    constructor
    · rintro hnoDead ⟨hsettled, -, hoffers⟩
      refine hnoDead hsettled ⟨?_, hoffers⟩
      rintro ⟨other, ⟨⟩, -⟩
    · intro hnot hsettled hstale
      exact hnot ⟨hsettled, ⟨client, hclient⟩, hstale.2⟩

theorem noDead_registers (horderly : s.Orderly) {sync : Syncing} {tools : Dict String McpTool}
    {refused refusedBack : String → Bool} (hfetched : Fetched sha server s sync tools) :
    (s.registers server refused refusedBack sync tools).NoDead ↔ ¬ Drops sha server s (.syncs refused refusedBack) := by
  obtain ⟨catalogue, hleaves, hresult⟩ := registers_leaves server refused refusedBack s sync tools
  have hdrops : Drops sha server s (.syncs refused refusedBack) ↔ ¬ s.Live ∧ s.LeavesTools refused refusedBack sync tools ∧
      ((sync.caller ≠ .attempt ∧ s.Settled) ∨ (sync.caller = .attempt ∧
        (¬ s.Accepts refused sync tools → server.failOnStartupError = true → ¬ Retried server s.disposed s.now s.supervisor))) := by
    constructor
    · intro hdrops
      cases hdrops with
      | failed _ hnot _ _ => exact absurd rfl (hnot sync tools hfetched refused refusedBack)
      | resynced hfetched' hcaller hsettled hdead hleaves' =>
        obtain ⟨rfl, rfl⟩ := hfetched.unique hfetched'
        exact ⟨hdead, hleaves', Or.inl ⟨hcaller, hsettled⟩⟩
      | synced hfetched' hcaller hdead hleaves' hlast =>
        obtain ⟨rfl, rfl⟩ := hfetched.unique hfetched'
        exact ⟨hdead, hleaves', Or.inr ⟨hcaller, hlast⟩⟩
    · rintro ⟨hdead, hleaves', ⟨hcaller, hsettled⟩ | ⟨hcaller, hlast⟩⟩
      · exact .resynced hfetched hcaller hsettled hdead hleaves'
      · exact .synced hfetched hcaller hdead hleaves' hlast
  have hcall : sync.caller ≠ .attempt → (({ s with
      syncing := none
      catalogue } : McpConnection).NoDead ↔ ¬ Drops sha server s (.syncs refused refusedBack)) := by
    intro hcaller
    rw [hdrops]
    constructor
    · rintro hnoDead ⟨hdead, hleaves', ⟨-, hsettled⟩ | ⟨hattempt, -⟩⟩
      · exact hnoDead hsettled ⟨hdead, hleaves.mpr hleaves'⟩
      · exact hcaller hattempt
    · intro hnot hsettled hstale
      exact hnot ⟨hstale.1, hleaves.mp hstale.2, Or.inl ⟨hcaller, hsettled⟩⟩
  have hstale : ({ s with
      syncing := none
      catalogue } : McpConnection).Stale ↔ ¬ s.Live ∧ s.LeavesTools refused refusedBack sync tools := and_congr_right' hleaves
  rcases hresult with ⟨hreturns, heq⟩ | ⟨hrefuses, hraises, heq⟩
  · rw [heq]
    cases hcaller : sync.caller with
    | attempt =>
      refine (noDead_ends { s with
        syncing := none
        catalogue } .synced).trans (not_congr ?_)
      rw [hstale, hdrops]
      constructor
      · rintro ⟨hdead, hleaves'⟩
        exact ⟨hdead, hleaves', Or.inr ⟨hcaller, fun hrefuses hraises => absurd ⟨hrefuses, hraises⟩ hreturns⟩⟩
      · rintro ⟨hdead, hleaves', -⟩
        exact ⟨hdead, hleaves'⟩
    | call => exact hcall (by simp [hcaller])
    | giveUp => exact absurd hcaller (horderly.caller sync hfetched.syncing)
  · rw [heq]
    cases hcaller : sync.caller with
    | attempt =>
      refine (noDead_fails server { s with
        syncing := none
        catalogue }).trans (not_congr ?_)
      rw [hstale, hdrops]
      constructor
      · rintro ⟨hlast, hdead, hleaves'⟩
        exact ⟨hdead, hleaves', Or.inr ⟨hcaller, fun _ _ => hlast⟩⟩
      · rintro ⟨hdead, hleaves', ⟨hnot, -⟩ | ⟨-, hlast⟩⟩
        · exact absurd hcaller hnot
        · exact ⟨hlast hrefuses hraises, hdead, hleaves'⟩
    | call => exact hcall (by simp [hcaller])
    | giveUp => exact absurd hcaller (horderly.caller sync hfetched.syncing)

theorem Drops.failed_iff {a : ConnectionAction} {retries : Nat} (hfails : AttemptFails sha server s a retries)
    (hstep : s.step sha server a = some s')
    (hfetched : ∀ sync tools, Fetched sha server s sync tools → ∀ refused refusedBack, a ≠ .syncs refused refusedBack) :
    Drops sha server s a ↔ ¬ Retried server s.disposed s.now { s.supervisor with retries } ∧ s.Stale := by
  constructor
  · intro hdrops
    cases hdrops with
    | ended _ _ _ => cases hfails
    | failed hfails' _ hlast hstale =>
      obtain rfl := hfails.unique hfails' hstep
      exact ⟨hlast, hstale⟩
    | abandoned _ => cases hfails
    | stopped hdisposed _ =>
      cases hfails with
      | wake _ hnot => exact absurd (hnot.symm.trans hdisposed) Bool.false_ne_true
    | returned _ _ _ => cases hfails
    | connected _ _ _ _ _ => cases hfails
    | cancelled _ _ _ => cases hfails
    | disposed _ _ _ _ => cases hfails
    | closed _ _ _ => cases hfails
    | resynced hfetched' _ _ _ _ => exact absurd rfl (hfetched _ _ hfetched' _ _)
    | synced hfetched' _ _ _ _ => exact absurd rfl (hfetched _ _ hfetched' _ _)
  · rintro ⟨hlast, hstale⟩
    exact .failed hfails hfetched hlast hstale

/-! ### The steps one by one -/

theorem drops_connected_iff {client : Nat} (hphase : s.supervisor.phase = .handshaking client) : Drops sha server s .connected ↔
    s.syncing = none ∧ s.waiting = [] ∧ s.disposed = true ∧ s.liveAt client = false ∧ Offering s.catalogue.registry := by
  constructor
  · intro hdrops
    cases hdrops with
    | failed hfails _ _ _ => cases hfails
    | connected hphase' hfree hdisposed hdead hoffers =>
      obtain rfl := Phase.handshaking.inj (hphase.symm.trans hphase')
      exact ⟨hfree.1, hfree.2, hdisposed, hdead, hoffers⟩
  · rintro ⟨hsyncing, hwaiting, hdisposed, hdead, hoffers⟩
    exact .connected hphase ⟨hsyncing, hwaiting⟩ hdisposed hdead hoffers

/-- A handshake succeeds: its client is recorded, and the synchronisation enters. -/
theorem noDead_connects {client : Nat} (hphase : s.supervisor.phase = .handshaking client) : ({ s with
      client := some client
      supervisor := { s.supervisor with
        phase := .syncing
        attempts := 0
        connectedAt := some s.now } }.enters .attempt).NoDead ↔ ¬ Drops sha server s .connected := by
  rw [drops_connected_iff hphase]
  unfold McpConnection.enters
  split
  · rename_i hfree
    obtain ⟨hsyncing, hwaiting⟩ : s.syncing = none ∧ s.waiting = [] := by simpa using hfree
    refine (NoDead.takesLock (noDead_underWay rfl) (fun hgiveUp => Waiter.noConfusion hgiveUp) (fun _ => rfl)).trans (not_congr ?_)
    constructor
    · rintro ⟨-, hdisposed | hnone, hdead, hoffers⟩
      · refine ⟨hsyncing, hwaiting, hdisposed, ?_, hoffers⟩
        rw [← Bool.not_eq_true]
        exact fun hlive => hdead ⟨client, rfl, hlive⟩
      · cases hnone
    · rintro ⟨-, -, hdisposed, hdead, hoffers⟩
      refine ⟨rfl, Or.inl hdisposed, ?_, hoffers⟩
      rintro ⟨other, ⟨⟩, hlive⟩
      exact Bool.false_ne_true (hdead.symm.trans hlive)
  · rename_i hheld
    refine iff_of_true (noDead_underWay rfl) ?_
    rintro ⟨hsyncing, hwaiting, -⟩
    exact hheld (by simp [hsyncing, hwaiting])

theorem drops_ended_iff {client : Nat} : Drops sha server s (.endOfInput client) ↔
    s.client = some client ∧ s.Settled ∧ Offering s.catalogue.registry := by
  constructor
  · intro hdrops
    cases hdrops with
    | ended hclient hsettled hoffers => exact ⟨hclient, hsettled, hoffers⟩
    | failed hfails _ _ _ => cases hfails
  · rintro ⟨hclient, hsettled, hoffers⟩
    exact .ended hclient hsettled hoffers

theorem NoDead.ended (h : s.NoDead) {client : Nat} {peer : McpPeer} :
    (s.putClient client { peer with ended := true }).NoDead ↔ ¬ Drops sha server s (.endOfInput client) := by
  rw [drops_ended_iff]
  constructor
  · rintro hnoDead ⟨hclient, hsettled, hoffers⟩
    refine hnoDead hsettled ⟨?_, hoffers⟩
    rintro ⟨other, hother, hlive'⟩
    obtain rfl : client = other := Option.some.inj (hclient.symm.trans hother)
    rw [liveAt_ended, if_pos rfl] at hlive'
    cases hlive'
  · intro hnot hsettled hstale
    refine h hsettled ⟨?_, hstale.2⟩
    rintro ⟨other, hother, hlive'⟩
    refine hstale.1 ⟨other, hother, ?_⟩
    rw [liveAt_ended, if_neg]
    · exact hlive'
    · rintro rfl
      exact hnot ⟨hother, hsettled, hstale.2⟩

theorem NoDead.listedTwice (h : s.NoDead) (horderly : s.Orderly) {sync : Syncing} {rawNames : List String}
    {refused refusedBack : String → Bool} (hsync : s.syncing = some sync) (hlisted : sync.listed = some rawNames)
    (hfetch : fetchTools sha server.name sync.client rawNames .empty = none)
    (hstep : s.step sha server (.syncs refused refusedBack) = some ({ s with syncing := none }.fails server sync.caller)) :
    ({ s with syncing := none }.fails server sync.caller).NoDead ↔ ¬ Drops sha server s (.syncs refused refusedBack) := by
  have hfetched : ∀ sync tools, ¬ Fetched sha server s sync tools := by
    rintro sync' tools ⟨hsync', rawNames', hlisted', hfetch'⟩
    obtain rfl := Option.some.inj (hsync.symm.trans hsync')
    obtain rfl := Option.some.inj (hlisted.symm.trans hlisted')
    rw [hfetch] at hfetch'
    cases hfetch'
  cases hcaller : sync.caller with
  | attempt =>
    rw [Drops.failed_iff (.listedTwice refused refusedBack hsync hcaller hlisted hfetch) hstep
      (fun sync tools hheld => absurd hheld (hfetched sync tools))]
    exact noDead_fails server { s with syncing := none }
  | call =>
    refine iff_of_true h ?_
    intro hdrops
    have hattempt : ∀ sync', s.syncing = some sync' → sync'.caller ≠ .attempt := by
      intro sync' hsync' hcaller'
      obtain rfl := Option.some.inj (hsync.symm.trans hsync')
      rw [hcaller] at hcaller'
      cases hcaller'
    cases hdrops with
    | failed hfails _ _ _ =>
      cases hfails with
      | listedTwice _ _ hsync' hcaller' _ _ => exact hattempt _ hsync' hcaller'
      | raises hsync' hcaller' _ _ _ => exact hattempt _ hsync' hcaller'
    | resynced hheld _ _ _ _ => exact hfetched _ _ hheld
    | synced hheld _ _ _ _ => exact hfetched _ _ hheld
  | giveUp => exact absurd hcaller (horderly.caller sync hsync)

theorem noDead_disposeCancels (hdisposed : s.disposed = false) (hretrying : s.supervisor.retrying = true) :
    ({ s.cancelAttempt with
      disposed := true
      disposing := .supervisor } : McpConnection).NoDead ↔ ¬ Drops sha server s .dispose := by
  refine (noDead_settled (s := { s.cancelAttempt with
    disposed := true
    disposing := .supervisor }) rfl).trans (not_congr ⟨fun hstale => .cancelled hdisposed hretrying hstale, ?_⟩)
  intro hdrops
  cases hdrops with
  | failed hfails _ _ _ => cases hfails
  | cancelled _ _ hstale => exact hstale
  | disposed _ hsettled _ _ =>
    have hunder : s.supervisor.phase.underWay = true := by
      rcases retrying_cases hretrying with ⟨delay, hphase⟩ | ⟨client, hphase⟩ | ⟨client, hphase⟩ | hphase <;> rw [hphase] <;> rfl
    exact absurd (hsettled.symm.trans hunder) Bool.false_ne_true

/-- The connection is disposed of while its supervisor has nothing to cancel. -/
theorem NoDead.disposes (h : s.NoDead) (hdisposed : s.disposed = false) (hretrying : s.supervisor.retrying = false) :
    ({ s with disposed := true } : McpConnection).closes.NoDead ↔ ¬ Drops sha server s .dispose := by
  have hsame : ({ s with disposed := true } : McpConnection).NoDead := h
  refine hsame.closes.trans (not_congr ⟨?_, ?_⟩)
  · rintro ⟨hsettled, ⟨client, hclient⟩, hoffers⟩
    exact .disposed hdisposed hsettled hclient hoffers
  · intro hdrops
    cases hdrops with
    | failed hfails _ _ _ => cases hfails
    | cancelled _ hnot _ => exact absurd (hretrying.symm.trans hnot) Bool.false_ne_true
    | disposed _ hsettled hclient hoffers => exact ⟨hsettled, ⟨_, hclient⟩, hoffers⟩

theorem NoDead.step (h : s.NoDead) (horderly : s.Orderly) {a : ConnectionAction} (hstep : s.step sha server a = some s') :
    s'.NoDead ↔ ¬ Drops sha server s a := by
  have hplain : s'.NoDead → (∀ retries, ¬ AttemptFails sha server s a retries) → ((∀ client, a ≠ .endOfInput client) ∧ a ≠ .abandoned ∧
      (∀ made, a ≠ .wake made) ∧ a ≠ .acquire ∧ a ≠ .connected ∧ a ≠ .dispose ∧ a ≠ .disposeGoesOn ∧
      ∀ refused refusedBack, a ≠ .syncs refused refusedBack) → (s'.NoDead ↔ ¬ Drops sha server s a) := by
    rintro hnoDead hfails ⟨hended, habandoned, hwake, hacquire, hconnected, hdispose, hgoesOn, hsyncs⟩
    refine iff_of_true hnoDead ?_
    intro hdrops
    rcases hdrops.action hfails with ⟨client, heq⟩ | heq | ⟨made, heq⟩ | heq | heq | heq | heq | ⟨refused, refusedBack, heq⟩
    · exact hended client heq
    · exact habandoned heq
    · exact hwake made heq
    · exact hacquire heq
    · exact hconnected heq
    · exact hdispose heq
    · exact hgoesOn heq
    · exact hsyncs refused refusedBack heq
  cases moves_of_step hstep with
  | @start made hphase =>
    rcases begins_cases server s made with ⟨rfl, heq⟩ | ⟨rfl, heq⟩
    · refine hplain (by rw [heq]; exact noDead_underWay rfl) ?_ (by simp)
      rintro retries ⟨⟩
    · rw [Drops.failed_iff (.start hphase) hstep (by simp), heq]
      exact noDead_fails server s
  | @stopped made delay hphase hdisposed =>
    refine (noDead_ends s .stopped).trans (not_congr ⟨fun hstale => .stopped hdisposed hstale, ?_⟩)
    intro hdrops
    cases hdrops with
    | failed _ _ _ hstale => exact hstale
    | stopped _ hstale => exact hstale
  | @wake made delay hphase hdisposed =>
    rcases begins_cases server { s with supervisor := { s.supervisor with retries := s.supervisor.retries + 1 } } made with
      ⟨rfl, heq⟩ | ⟨rfl, heq⟩
    · refine iff_of_true (by rw [heq]; exact noDead_underWay rfl) ?_
      intro hdrops
      cases hdrops with
      | failed hfails _ _ _ => cases hfails
      | stopped hflag _ => exact Bool.false_ne_true (hdisposed.symm.trans hflag)
    · rw [Drops.failed_iff (.wake hphase hdisposed) hstep (by simp), heq]
      exact noDead_fails server { s with supervisor := { s.supervisor with retries := s.supervisor.retries + 1 } }
  | spawned hphase =>
    refine hplain (noDead_underWay rfl) ?_ (by simp)
    rintro retries ⟨⟩
  | connected hphase => exact noDead_connects hphase
  | connectFails hphase =>
    rw [Drops.failed_iff (.connect hphase) hstep (by simp)]
    exact noDead_fails server s
  | abandoned htrying hstart =>
    refine (noDead_settled (s := s.cancelAttempt) rfl).trans (not_congr ⟨fun hstale => .abandoned hstale, ?_⟩)
    intro hdrops
    cases hdrops with
    | failed hfails _ _ _ => cases hfails
    | abandoned hstale => exact hstale
  | sync =>
    refine hplain (h.enters (fun hgiveUp => Waiter.noConfusion hgiveUp) (by simp)) ?_ (by simp)
    rintro retries ⟨⟩
  | @acquire waiter waiting hfree hwaiting =>
    have hlacks := horderly.lacks_head hwaiting
    have hsame : ({ s with waiting := waiting } : McpConnection).NoDead := h
    refine (hsame.takesLock ?_ ?_).trans (not_congr ?_)
    · rintro rfl
      exact hlacks.givingUp
    · rintro rfl
      exact hlacks.syncing.1
    · constructor
      · rintro ⟨rfl, hnothing, hstale⟩
        exact .returned hwaiting hnothing hstale
      · intro hdrops
        cases hdrops with
        | failed hfails _ _ _ => cases hfails
        | returned hwaiting' hnothing hstale =>
          obtain ⟨rfl, -⟩ := List.cons.inj (hwaiting.symm.trans hwaiting')
          exact ⟨rfl, hnothing, hstale⟩
  | listed hsync hnone hlive =>
    refine hplain h ?_ (by simp)
    rintro retries ⟨⟩
  | @fetchFails sync hsync hnone =>
    cases hcaller : sync.caller with
    | attempt =>
      rw [Drops.failed_iff (.fetch hsync hcaller hnone) hstep (by simp)]
      exact noDead_fails server { s with syncing := none }
    | call =>
      rw [hcaller] at hplain
      refine hplain h ?_ (by simp)
      intro retries hfails
      cases hfails with
      | fetch hsync' hcaller' _ =>
        obtain rfl := Option.some.inj (hsync.symm.trans hsync')
        rw [hcaller] at hcaller'
        cases hcaller'
    | giveUp => exact absurd hcaller (horderly.caller sync hsync)
  | @registers sync rawNames tools refused refusedBack hsync hlisted hfetch =>
    exact noDead_registers horderly ⟨hsync, rawNames, hlisted, hfetch⟩
  | listedTwice hsync hlisted hfetch => exact h.listedTwice horderly hsync hlisted hfetch hstep
  | syncCancelled hsync hcaller =>
    refine hplain h ?_ (by simp)
    rintro retries ⟨⟩
  | waitCancelled hplace =>
    refine hplain h ?_ (by simp)
    rintro retries ⟨⟩
  | giveUp hphase hnot =>
    have hsame : ({ s with supervisor := { s.supervisor with gaveUp := true } } : McpConnection).NoDead := h
    refine hplain (hsame.enters (fun _ => hphase) (by simp)) ?_ (by simp)
    rintro retries ⟨⟩
  | disposed hdisposed =>
    refine iff_of_true h ?_
    intro hdrops
    cases hdrops with
    | failed hfails _ _ _ => cases hfails
    | cancelled hnot _ _ => exact Bool.false_ne_true (hnot.symm.trans hdisposed)
    | disposed hnot _ _ _ => exact Bool.false_ne_true (hnot.symm.trans hdisposed)
  | disposeCancels hdisposed hretrying => exact noDead_disposeCancels hdisposed hretrying
  | disposes hdisposed hretrying => exact h.disposes hdisposed hretrying
  | disposeGoesOn hdisposing =>
    refine h.closes.trans (not_congr ⟨?_, ?_⟩)
    · rintro ⟨hsettled, ⟨client, hclient⟩, hoffers⟩
      exact .closed hsettled hclient hoffers
    · intro hdrops
      cases hdrops with
      | failed hfails _ _ _ => cases hfails
      | closed hsettled hclient hoffers => exact ⟨hsettled, ⟨_, hclient⟩, hoffers⟩
  | disposeEnds hdisposing =>
    refine hplain (h.of_same id id (fun hoffers _ => offering_clear hoffers)) ?_ (by simp)
    rintro retries ⟨⟩
  | disposeCancelled hdisposing =>
    refine hplain h ?_ (by simp)
    rintro retries ⟨⟩
  | endOfInput _ _ => exact h.ended
  | tick =>
    refine hplain h ?_ (by simp)
    rintro retries ⟨⟩
  | @register name owner hfree =>
    refine hplain (h.of_same id id ?_) ?_ (by simp)
    · rintro ⟨other, tool, hget⟩ -
      rw [Dict.get?_set] at hget
      split at hget
      · cases hget
      · exact ⟨other, tool, hget⟩
    · rintro retries ⟨⟩
  | @unregister name owner hother =>
    refine hplain (h.of_same id id ?_) ?_ (by simp)
    · rintro ⟨other, tool, hget⟩ -
      rw [Dict.get?_pop] at hget
      split at hget
      · cases hget
      · exact ⟨other, tool, hget⟩
    · rintro retries ⟨⟩

theorem noDead_start : ({} : McpConnection).NoDead := by
  rintro - ⟨-, name, tool, ⟨⟩⟩

end McpConnection

open McpConnection in
/-- In every run in which no step drops the connection and leaves its tools, the client is live or none of them is registered whenever no
attempt is under way or scheduled; the next step keeps that exactly if it does not drop them either. -/
theorem no_dead_tools (sha : Sha256) (server : McpServer) (s : McpConnection)
    (hreach : Machine.Reach (step sha server) (fun s a => ¬ Drops sha server s a) {} s) :
    (s.Settled → s.Live ∨ ∀ name tool, s.catalogue.registry.get? name ≠ some (.server tool)) ∧
    ∀ a s', s.step sha server a = some s' → (s'.NoDead ↔ ¬ Drops sha server s a) := by
  obtain ⟨horderly, hnoDead⟩ := hreach.invariant (P := fun s => s.Orderly ∧ s.NoDead) ⟨orderly_start, noDead_start⟩ (by
    rintro s a s' ⟨horderly, hnoDead⟩ hnot hstep
    exact ⟨horderly.step hstep, (hnoDead.step horderly hstep).mpr hnot⟩)
  constructor
  · intro hsettled
    by_cases hlive : s.Live
    · exact Or.inl hlive
    · right
      intro name tool hget
      exact hnoDead hsettled ⟨hlive, name, tool, hget⟩
  · intro a s' hstep
    exact hnoDead.step horderly hstep

open McpConnection in
/-- The server's tool is offered, and its client is live. -/
theorem no_dead_tools_synced : ∃ s,
    Machine.exec (step oneHash retriedOnce) {} (listedOnce ++ [.syncs (fun _ => false) (fun _ => false)]) = some s ∧
    s.catalogue.registry.get? "mcp__s__a" = some (.server ⟨"a", 0⟩) ∧ s.Live := by
  have hnot : ∀ {s : McpConnection} {a : ConnectionAction}, a = .start true ∨ a = .spawned ∨ (a = .connected ∧ s.disposed = false) ∨
      a = .listed ["a"] → ¬ Drops oneHash retriedOnce s a := by
    rintro s a (rfl | rfl | ⟨rfl, hdisposed⟩ | rfl) hdrops
    · cases hdrops with
      | failed hfails _ _ _ => cases hfails
    · cases hdrops with
      | failed hfails _ _ _ => cases hfails
    · cases hdrops with
      | failed hfails _ _ _ => cases hfails
      | connected _ _ hflag _ _ => exact Bool.false_ne_true (hdisposed.symm.trans hflag)
    · cases hdrops with
      | failed hfails _ _ _ => cases hfails
  have hlisted : Machine.Reach (step oneHash retriedOnce) (fun s a => ¬ Drops oneHash retriedOnce s a) {}
      (connectionAfter listedOnce) := by
    refine .next (.listed ["a"]) (.next .connected (.next .spawned (.next (.start true) .start ?_ rfl) ?_ rfl) ?_ rfl) ?_ rfl
    · exact hnot (Or.inl rfl)
    · exact hnot (Or.inr (Or.inl rfl))
    · exact hnot (Or.inr (Or.inr (Or.inl ⟨rfl, rfl⟩)))
    · exact hnot (Or.inr (Or.inr (Or.inr rfl)))
  have hlive : (connectionAfter listedOnce).Live := ⟨0, rfl, rfl⟩
  have htool : (connectionAfter (listedOnce ++ [.syncs (fun _ => false) (fun _ => false)])).catalogue.registry.get? "mcp__s__a" =
      some (.server ⟨"a", 0⟩) := by decide +kernel
  refine ⟨_, rfl, htool, ?_⟩
  refine ((no_dead_tools oneHash retriedOnce _ (.next (.syncs (fun _ => false) (fun _ => false)) hlisted ?_ rfl)).1 rfl).resolve_right ?_
  · intro hdrops
    cases hdrops with
    | failed _ hfetched _ _ => exact hfetched _ _ ⟨rfl, ["a"], rfl, rfl⟩ _ _ rfl
    | resynced _ _ _ hdead _ => exact hdead hlive
    | synced _ _ hdead _ _ => exact hdead hlive
  · intro hnone
    exact hnone _ _ htool

open McpConnection in
/-- The connection is synced, and its transport ends: the tool is still offered, and no attempt is under way or scheduled. -/
theorem dead_tool_offered : ∃ s, Machine.exec (step oneHash retriedOnce) {}
      (listedOnce ++ [.syncs (fun _ => false) (fun _ => false), .endOfInput 0]) = some s ∧
    s.supervisor.phase = .ended .synced ∧ s.Settled ∧ ¬ s.Live ∧ s.catalogue.registry.get? "mcp__s__a" = some (.server ⟨"a", 0⟩) := by
  refine ⟨_, rfl, rfl, rfl, ?_, ?_⟩
  · rintro ⟨client, ⟨⟩, ⟨⟩⟩
  · decide +kernel

end Pydsh
