import Pydsh.Mcp.Connection

/-!
# The supervisor gives up

`mcp/connection.py`, `_schedule_retry`: failed attempts are counted, and when there are more than `max_attempts` the connection is given
up. But the count starts anew when a client is connected, before its tools are synced, and when the last connection is a minute old, even
one whose sync failed; so a server that connects and cannot list its tools is retried for ever. And past the thousandth doubling the delay
cannot be computed, and the task of the retry dies (`supervisor_gives_up`).
-/

namespace Pydsh

/-- A supervisor goes on, other than by a failure of an attempt. -/
inductive Supervisor.Moves (s : Supervisor) : Supervisor → Prop where
  | same (gaveUp : Bool) : s.Moves { s with gaveUp }
  | ends (gaveUp : Bool) (how : Ending) (hhow : how ≠ .died) : s.Moves ({ s with gaveUp }.ends how)
  | begun (client : Nat) (hphase : s.phase = .unstarted) : s.Moves { s with phase := .connecting client }
  | woken {delay : ℚ} (client : Nat) (hphase : s.phase = .sleeping delay) : s.Moves { s with
      phase := .connecting client
      retries := s.retries + 1 }
  | spawned (client : Nat) (hphase : s.phase = .connecting client) : s.Moves { s with phase := .handshaking client }
  | connected {client : Nat} (now : Nat) (hphase : s.phase = .handshaking client) : s.Moves { s with
      phase := .syncing
      attempts := 0
      connectedAt := some now }
  | returned (now : Nat) (how : Ending) (hhow : how ≠ .died) : s.Moves ({ s with
      phase := .syncing
      attempts := 0
      connectedAt := some now }.ends how)

namespace McpConnection

variable {sha : Sha256} {server : McpServer} {s s' : McpConnection}

/-- An action makes an attempt fail, when so many retries were begun. -/
inductive AttemptFails (sha : Sha256) (server : McpServer) (s : McpConnection) : ConnectionAction → Nat → Prop where
  | start (hphase : s.supervisor.phase = .unstarted) : AttemptFails sha server s (.start false) s.supervisor.retries
  | wake {delay : ℚ} (hphase : s.supervisor.phase = .sleeping delay) (hdisposed : s.disposed = false) :
    AttemptFails sha server s (.wake false) (s.supervisor.retries + 1)
  | connect (hphase : (∃ client, s.supervisor.phase = .connecting client) ∨ ∃ client, s.supervisor.phase = .handshaking client) :
    AttemptFails sha server s .connectFails s.supervisor.retries
  | fetch {sync : Syncing} (hsync : s.syncing = some sync) (hcaller : sync.caller = .attempt) (hnone : sync.listed = none) :
    AttemptFails sha server s .fetchFails s.supervisor.retries
  | listedTwice {sync : Syncing} {rawNames : List String} (refused refusedBack : String → Bool) (hsync : s.syncing = some sync)
    (hcaller : sync.caller = .attempt) (hlisted : sync.listed = some rawNames)
    (hfetch : fetchTools sha server.name sync.client rawNames .empty = none) :
    AttemptFails sha server s (.syncs refused refusedBack) s.supervisor.retries
  | raises {sync : Syncing} {rawNames : List String} {tools : Dict String McpTool} {refused refusedBack : String → Bool}
    (hsync : s.syncing = some sync) (hcaller : sync.caller = .attempt) (hlisted : sync.listed = some rawNames)
    (hfetch : fetchTools sha server.name sync.client rawNames .empty = some tools)
    (hraises : (syncTools server.failOnStartupError refused refusedBack s.catalogue.registry sync.previous tools).generation = none) :
    AttemptFails sha server s (.syncs refused refusedBack) s.supervisor.retries

theorem AttemptFails.supervisor {a : ConnectionAction} {retries : Nat} (h : AttemptFails sha server s a retries)
    (hstep : s.step sha server a = some s') :
    s'.supervisor = { s.supervisor with retries }.attemptFails server s.disposed s.now := by
  cases h with
  | start hphase =>
    simp only [step, if_pos hphase] at hstep
    obtain rfl := Option.some.inj hstep
    rfl
  | wake hphase hdisposed =>
    cases moves_of_step hstep with
    | stopped _ hstopped => exact absurd (hdisposed.symm.trans hstopped) Bool.false_ne_true
    | wake _ _ => rfl
  | connect hphase =>
    cases moves_of_step hstep with
    | connectFails _ => rfl
  | fetch hsync hcaller hnone =>
    simp only [step, hsync, hnone, hcaller] at hstep
    obtain rfl := Option.some.inj hstep
    rfl
  | listedTwice refused refusedBack hsync hcaller hlisted hfetch =>
    simp only [step, hsync, hlisted, hfetch, hcaller] at hstep
    obtain rfl := Option.some.inj hstep
    rfl
  | raises hsync hcaller hlisted hfetch hraises =>
    simp only [step, hsync, hlisted, hfetch, registers, hraises, hcaller] at hstep
    obtain rfl := Option.some.inj hstep
    rfl

theorem supervisor_takesLock (s : McpConnection) (waiter : Waiter) :
    (s.takesLock waiter).supervisor = s.supervisor ∨ ∃ how, how ≠ .died ∧ (s.takesLock waiter).supervisor = s.supervisor.ends how := by
  rcases takesLock_cases s waiter with ⟨-, heq⟩ | ⟨-, -, client, -, heq⟩ | ⟨-, -, heq⟩
  · rw [heq]
    exact Or.inr ⟨.gaveUp, Ending.noConfusion, rfl⟩
  · rw [heq]
    exact Or.inl rfl
  · rw [heq]
    cases waiter with
    | attempt => exact Or.inr ⟨.synced, Ending.noConfusion, rfl⟩
    | call => exact Or.inl rfl
    | giveUp => exact Or.inl rfl

theorem supervisor_enters (s : McpConnection) (waiter : Waiter) :
    (s.enters waiter).supervisor = s.supervisor ∨ ∃ how, how ≠ .died ∧ (s.enters waiter).supervisor = s.supervisor.ends how := by
  rcases enters_cases s waiter with ⟨-, -, heq⟩ | heq
  · rw [heq]
    exact supervisor_takesLock s waiter
  · rw [heq]
    exact Or.inl rfl

theorem supervisor_closes (s : McpConnection) : s.closes.supervisor = s.supervisor := by
  unfold closes
  split <;> rfl

theorem moves_of_ends {s t : Supervisor} (h : t = s ∨ ∃ how, how ≠ .died ∧ t = s.ends how) : s.Moves t := by
  rcases h with rfl | ⟨how, hhow, rfl⟩
  · exact .same _
  · exact .ends _ how hhow

theorem supervisor_moves {a : ConnectionAction} (hnot : ∀ retries, ¬ AttemptFails sha server s a retries)
    (hstep : s.step sha server a = some s') : s.supervisor.Moves s'.supervisor := by
  cases moves_of_step hstep with
  | @start made hphase =>
    rcases begins_cases server s made with ⟨rfl, heq⟩ | ⟨rfl, heq⟩
    · rw [heq]
      exact .begun s.clients.length hphase
    · exact absurd (.start hphase) (hnot _)
  | stopped hphase hdisposed => exact .ends _ .stopped Ending.noConfusion
  | @wake made delay hphase hdisposed =>
    rcases begins_cases server { s with supervisor := { s.supervisor with retries := s.supervisor.retries + 1 } } made with
      ⟨rfl, heq⟩ | ⟨rfl, heq⟩
    · rw [heq]
      exact .woken s.clients.length hphase
    · exact absurd (.wake hphase hdisposed) (hnot _)
  | spawned hphase => exact .spawned _ hphase
  | connected hphase =>
    rcases supervisor_enters { s with
        client := some _
        supervisor := { s.supervisor with
          phase := .syncing
          attempts := 0
          connectedAt := some s.now } } .attempt with heq | ⟨how, hhow, heq⟩
    · rw [heq]
      exact .connected s.now hphase
    · rw [heq]
      exact .returned s.now how hhow
  | connectFails hphase => exact absurd (.connect hphase) (hnot _)
  | abandoned htrying hstart => exact .ends _ .cancelled Ending.noConfusion
  | sync => exact moves_of_ends (supervisor_enters s .call)
  | acquire hfree hwaiting => exact moves_of_ends (supervisor_takesLock { s with waiting := _ } _)
  | listed hsync hnone hlive => exact .same _
  | @fetchFails sync hsync hnone =>
    cases hcaller : sync.caller with
    | attempt => exact absurd (.fetch hsync hcaller hnone) (hnot _)
    | call => exact .same _
    | giveUp => exact .same _
  | @registers sync rawNames tools refused refusedBack hsync hlisted hfetch =>
    unfold registers
    simp only
    split
    · cases sync.caller with
      | attempt => exact .ends _ .synced Ending.noConfusion
      | call => exact .same _
      | giveUp => exact .same _
    · rename_i hraises
      cases hcaller : sync.caller with
      | attempt => exact absurd (.raises hsync hcaller hlisted hfetch hraises) (hnot _)
      | call => exact .same _
      | giveUp => exact .same _
  | @listedTwice sync rawNames refused refusedBack hsync hlisted hfetch =>
    cases hcaller : sync.caller with
    | attempt => exact absurd (.listedTwice refused refusedBack hsync hcaller hlisted hfetch) (hnot _)
    | call => exact .same _
    | giveUp => exact .same _
  | syncCancelled hsync hcaller => exact .same _
  | waitCancelled hplace => exact .same _
  | giveUp hphase hnot' =>
    rcases supervisor_enters { s with supervisor := { s.supervisor with gaveUp := true } } .giveUp with heq | ⟨how, hhow, heq⟩
    · rw [heq]
      exact .same true
    · rw [heq]
      exact .ends true how hhow
  | disposed hdisposed => exact .same _
  | disposeCancels hdisposed hretrying => exact .ends _ .cancelled Ending.noConfusion
  | disposes hdisposed hretrying => exact moves_of_ends (Or.inl (supervisor_closes { s with disposed := true }))
  | disposeGoesOn hdisposing => exact moves_of_ends (Or.inl (supervisor_closes s))
  | disposeEnds hdisposing => exact .same _
  | disposeCancelled hdisposing => exact .same _
  | endOfInput hpeer hlive => exact .same _
  | tick => exact .same _
  | register hfree => exact .same _
  | unregister hother => exact .same _

/-- No more retries are begun than may be, none is stranded, and the attempts that are counted are those that failed. -/
structure Tracks (policy : ReconnectPolicy) (s : Supervisor) : Prop where
  bound : s.retries ≤ policy.maxAttempts
  fresh : s.phase = .unstarted → s.retries = 0 ∧ s.attempts = 0
  trying : ∀ client, s.phase = .connecting client ∨ s.phase = .handshaking client → s.attempts = s.retries
  syncing : s.phase = .syncing → s.attempts = 0
  sleeping : ∀ delay, s.phase = .sleeping delay → s.attempts = s.retries + 1 ∧ s.attempts ≤ policy.maxAttempts
  alive : s.phase ≠ .ended .died

/-- A failed attempt is miscounted: a retry that failed at its sync, or when a connection had been made a minute ago. Or it is counted, and
the delay of the next one cannot be computed. -/
inductive Miscounts (sha : Sha256) (server : McpServer) (s : McpConnection) (a : ConnectionAction) : Prop where
  | forgets {retries : Nat} (hfails : AttemptFails sha server s a retries) (henabled : server.reconnect.enabled = true)
    (hdisposed : s.disposed = false) (hretry : retries ≠ 0)
    (hreset : s.supervisor.phase = .syncing ∨ s.supervisor.forgiven s.now = true)
  | overflows {retries : Nat} (hfails : AttemptFails sha server s a retries) (henabled : server.reconnect.enabled = true)
    (hdisposed : s.disposed = false) (hlong : 1024 ≤ retries) (hmore : retries < server.reconnect.maxAttempts)

variable {policy : ReconnectPolicy}

theorem tracks_ends {s : Supervisor} (hbound : s.retries ≤ policy.maxAttempts) {how : Ending} (hhow : how ≠ .died) :
    Tracks policy (s.ends how) := by
  refine ⟨hbound, ?_, ?_, ?_, ?_, ?_⟩
  · rintro ⟨⟩
  · rintro client (⟨⟨⟩⟩ | ⟨⟨⟩⟩)
  · rintro ⟨⟩
  · rintro delay ⟨⟩
  · intro hdied
    exact hhow (Phase.ended.inj hdied)

theorem Tracks.moves {s t : Supervisor} (h : Tracks policy s) (hmoves : s.Moves t) : Tracks policy t := by
  cases hmoves with
  | same gaveUp => exact ⟨h.bound, h.fresh, h.trying, h.syncing, h.sleeping, h.alive⟩
  | ends gaveUp how hhow => exact tracks_ends (s := { s with gaveUp }) h.bound hhow
  | begun client hphase =>
    obtain ⟨hretries, hattempts⟩ := h.fresh hphase
    refine ⟨h.bound, ?_, ?_, ?_, ?_, ?_⟩
    · rintro ⟨⟩
    · intro _ _
      exact hattempts.trans hretries.symm
    · rintro ⟨⟩
    · rintro delay ⟨⟩
    · rintro ⟨⟩
  | woken client hphase =>
    obtain ⟨hattempts, hle⟩ := h.sleeping _ hphase
    refine ⟨hattempts.symm.trans_le hle, ?_, ?_, ?_, ?_, ?_⟩
    · rintro ⟨⟩
    · intro _ _
      exact hattempts
    · rintro ⟨⟩
    · rintro delay ⟨⟩
    · rintro ⟨⟩
  | spawned client hphase =>
    refine ⟨h.bound, ?_, ?_, ?_, ?_, ?_⟩
    · rintro ⟨⟩
    · intro _ _
      exact h.trying client (Or.inl hphase)
    · rintro ⟨⟩
    · rintro delay ⟨⟩
    · rintro ⟨⟩
  | connected now hphase =>
    refine ⟨h.bound, ?_, ?_, ?_, ?_, ?_⟩
    · rintro ⟨⟩
    · rintro client (⟨⟨⟩⟩ | ⟨⟨⟩⟩)
    · intro _
      rfl
    · rintro delay ⟨⟩
    · rintro ⟨⟩
  | returned now how hhow => exact tracks_ends (s := { s with
      phase := .syncing
      attempts := 0
      connectedAt := some now }) h.bound hhow

/-- What the supervisor knows when an attempt fails: the failures are counted, unless the sync of a connection failed. -/
theorem Tracks.failing (h : Tracks server.reconnect s.supervisor) (horderly : s.Orderly) {a : ConnectionAction} {retries : Nat}
    (hfails : AttemptFails sha server s a retries) : retries ≤ server.reconnect.maxAttempts ∧
      ((s.supervisor.phase = .syncing ∧ s.supervisor.attempts = 0) ∨
        (s.supervisor.phase ≠ .syncing ∧ s.supervisor.attempts = retries)) := by
  have hsync : ∀ sync, s.syncing = some sync → sync.caller = .attempt → s.supervisor.phase = .syncing := by
    intro sync hheld hcaller
    have hlacks := horderly.lacks_released hheld s.catalogue
    rw [hcaller] at hlacks
    exact hlacks.syncing.1
  cases hfails with
  | start hphase =>
    obtain ⟨hretries, hattempts⟩ := h.fresh hphase
    exact ⟨h.bound, Or.inr ⟨by simp [hphase], hattempts.trans hretries.symm⟩⟩
  | wake hphase hdisposed =>
    obtain ⟨hattempts, hle⟩ := h.sleeping _ hphase
    exact ⟨hattempts.symm.trans_le hle, Or.inr ⟨by simp [hphase], hattempts⟩⟩
  | connect hphase =>
    rcases hphase with ⟨client, hphase⟩ | ⟨client, hphase⟩
    · exact ⟨h.bound, Or.inr ⟨by simp [hphase], h.trying client (Or.inl hphase)⟩⟩
    · exact ⟨h.bound, Or.inr ⟨by simp [hphase], h.trying client (Or.inr hphase)⟩⟩
  | fetch hheld hcaller hnone =>
    have hphase := hsync _ hheld hcaller
    exact ⟨h.bound, Or.inl ⟨hphase, h.syncing hphase⟩⟩
  | listedTwice refused refusedBack hheld hcaller hlisted hfetch =>
    have hphase := hsync _ hheld hcaller
    exact ⟨h.bound, Or.inl ⟨hphase, h.syncing hphase⟩⟩
  | raises hheld hcaller hlisted hfetch hraises =>
    have hphase := hsync _ hheld hcaller
    exact ⟨h.bound, Or.inl ⟨hphase, h.syncing hphase⟩⟩

/-- After a failed attempt the supervisor stops, gives up, sleeps, or dies. -/
theorem scheduleRetry_cases (policy : ReconnectPolicy) (disposed : Bool) (now : Nat) (s : Supervisor) :
    ((disposed = true ∨ policy.enabled = false) ∧ s.scheduleRetry policy disposed now = s.ends .stopped) ∨
    (disposed = false ∧ policy.enabled = true ∧ policy.maxAttempts < s.counted now ∧ ∃ connectedAt,
      s.scheduleRetry policy disposed now = { s with
        attempts := s.counted now
        connectedAt
        phase := .givingUp }) ∨
    (disposed = false ∧ policy.enabled = true ∧ s.counted now ≤ policy.maxAttempts ∧ s.counted now - 1 < 1024 ∧ ∃ connectedAt delay,
      s.scheduleRetry policy disposed now = { s with
        attempts := s.counted now
        connectedAt
        phase := .sleeping delay }) ∨
    (disposed = false ∧ policy.enabled = true ∧ s.counted now ≤ policy.maxAttempts ∧ 1024 ≤ s.counted now - 1 ∧
      (s.scheduleRetry policy disposed now).phase = .ended .died) := by
  unfold Supervisor.scheduleRetry
  split
  · rename_i hstopped
    left
    simpa using hstopped
  · rename_i hgo
    obtain ⟨hdisposed, henabled⟩ : disposed = false ∧ policy.enabled = true := by simpa using hgo
    right
    simp only
    split
    · rename_i hmany
      exact Or.inl ⟨hdisposed, henabled, hmany, _, rfl⟩
    · rename_i hfew
      right
      unfold ReconnectPolicy.backoff
      by_cases hpower : s.counted now - 1 < 1024
      · left
        rw [if_pos hpower]
        exact ⟨hdisposed, henabled, Nat.le_of_not_lt hfew, hpower, _, _, rfl⟩
      · right
        rw [if_neg hpower]
        exact ⟨hdisposed, henabled, Nat.le_of_not_lt hfew, Nat.le_of_not_lt hpower, rfl⟩

/-- The count after a failure is that of the failures, unless it was reset. -/
theorem counted_eq_iff {s : Supervisor} {now retries : Nat}
    (h : (s.phase = .syncing ∧ s.attempts = 0) ∨ (s.phase ≠ .syncing ∧ s.attempts = retries)) :
    (s.counted now = retries + 1 ↔ ¬ (retries ≠ 0 ∧ (s.phase = .syncing ∨ s.forgiven now = true))) ∧
      (s.counted now = retries + 1 ∨ s.counted now = 1) := by
  unfold Supervisor.counted
  cases hforgiven : s.forgiven now with
  | true =>
    refine ⟨?_, Or.inr rfl⟩
    simp only [if_true, or_true, and_true]
    omega
  | false =>
    simp only [Bool.false_eq_true, if_false, or_false]
    rcases h with ⟨hphase, hattempts⟩ | ⟨hphase, hattempts⟩
    · rw [hattempts]
      refine ⟨?_, Or.inr rfl⟩
      simp only [hphase, and_true]
      omega
    · rw [hattempts]
      refine ⟨?_, Or.inl rfl⟩
      simp [hphase]

theorem retries_attemptFails (server : McpServer) (disposed : Bool) (now : Nat) (s : Supervisor) :
    (s.attemptFails server disposed now).retries = s.retries := by
  unfold Supervisor.attemptFails
  split
  · rfl
  · rcases scheduleRetry_cases server.reconnect disposed now s with ⟨-, heq⟩ | ⟨-, -, -, _, heq⟩ | ⟨-, -, -, -, _, _, heq⟩ | ⟨hdisposed, henabled, -, -, -⟩
    · rw [heq]
      rfl
    · rw [heq]
    · rw [heq]
    · unfold Supervisor.scheduleRetry
      simp only [hdisposed, henabled, Bool.not_true, Bool.or_false, Bool.false_eq_true, if_false]
      split
      · rfl
      · split <;> rfl

/-- An action that makes an attempt fail does so after a number of retries. -/
theorem AttemptFails.unique {a : ConnectionAction} {n m : Nat} (hn : AttemptFails sha server s a n) (hm : AttemptFails sha server s a m)
    (hstep : s.step sha server a = some s') : n = m := by
  have hsame := (hn.supervisor hstep).symm.trans (hm.supervisor hstep)
  have hretries := congrArg Supervisor.retries hsame
  rwa [retries_attemptFails, retries_attemptFails] at hretries

theorem Tracks.fails (h : Tracks server.reconnect s.supervisor) (horderly : s.Orderly) {a : ConnectionAction} {retries : Nat}
    (hfails : AttemptFails sha server s a retries) (hstep : s.step sha server a = some s') :
    Tracks server.reconnect s'.supervisor ↔ ¬ Miscounts sha server s a := by
  obtain ⟨hbound, hknown⟩ := h.failing horderly hfails
  have hcounts : (s.supervisor.counted s.now = retries + 1 ↔ ¬ (retries ≠ 0 ∧ (s.supervisor.phase = .syncing ∨
      s.supervisor.forgiven s.now = true))) ∧ (s.supervisor.counted s.now = retries + 1 ∨ s.supervisor.counted s.now = 1) :=
    counted_eq_iff hknown
  obtain ⟨hcounted, hone⟩ := hcounts
  have hforgets : ∀ {n}, AttemptFails sha server s a n → n = retries := fun hn => hn.unique hfails hstep
  rw [hfails.supervisor hstep, Supervisor.attemptFails]
  split
  · rename_i hraises
    refine iff_of_true (tracks_ends (s := { s.supervisor with retries }) hbound Ending.noConfusion) ?_
    have hzero : retries = 0 := hraises.1
    rintro (⟨hfails', -, -, hretry, -⟩ | ⟨hfails', -, -, hlong, -⟩)
    · exact hretry ((hforgets hfails').trans hzero)
    · have heq := hforgets hfails'
      omega
  · rcases scheduleRetry_cases server.reconnect s.disposed s.now { s.supervisor with retries } with
      ⟨hstopped, heq⟩ | ⟨-, -, hmany, connectedAt, heq⟩ | ⟨hdisposed, henabled, hfew, hpower, connectedAt, delay, heq⟩ |
      ⟨hdisposed, henabled, hfew, hpower, hdied⟩
    · rw [heq]
      refine iff_of_true (tracks_ends (s := { s.supervisor with retries }) hbound Ending.noConfusion) ?_
      rintro (⟨-, henabled, hdisposed, -, -⟩ | ⟨-, henabled, hdisposed, -, -⟩) <;> simp [henabled, hdisposed] at hstopped
    · have hmany' : server.reconnect.maxAttempts < s.supervisor.counted s.now := hmany
      have hsome := server.reconnect.some_attempt
      have hnext : s.supervisor.counted s.now = retries + 1 := hone.resolve_right (by omega)
      rw [heq]
      refine iff_of_true ⟨hbound, ?_, ?_, ?_, ?_, ?_⟩ ?_
      · rintro ⟨⟩
      · rintro client (⟨⟨⟩⟩ | ⟨⟨⟩⟩)
      · rintro ⟨⟩
      · rintro _ ⟨⟩
      · rintro ⟨⟩
      · rintro (⟨hfails', -, -, hretry, hreset⟩ | ⟨hfails', -, -, -, hmore⟩)
        · rw [hforgets hfails'] at hretry
          exact hcounted.mp hnext ⟨hretry, hreset⟩
        · rw [hforgets hfails'] at hmore
          omega
    · have hfew' : s.supervisor.counted s.now ≤ server.reconnect.maxAttempts := hfew
      have hpower' : s.supervisor.counted s.now - 1 < 1024 := hpower
      rw [heq]
      constructor
      · intro htracks
        have hnext : s.supervisor.counted s.now = retries + 1 := (htracks.sleeping delay rfl).1
        rintro (⟨hfails', -, -, hretry, hreset⟩ | ⟨hfails', -, -, hlong, -⟩)
        · rw [hforgets hfails'] at hretry
          exact hcounted.mp hnext ⟨hretry, hreset⟩
        · rw [hforgets hfails'] at hlong
          omega
      · intro hnot
        have hnext : s.supervisor.counted s.now = retries + 1 := by
          refine hcounted.mpr ?_
          rintro ⟨hretry, hreset⟩
          exact hnot (.forgets hfails henabled hdisposed hretry hreset)
        refine ⟨hbound, ?_, ?_, ?_, ?_, ?_⟩
        · rintro ⟨⟩
        · rintro client (⟨⟨⟩⟩ | ⟨⟨⟩⟩)
        · rintro ⟨⟩
        · intro _ _
          exact ⟨hnext, hfew'⟩
        · rintro ⟨⟩
    · have hfew' : s.supervisor.counted s.now ≤ server.reconnect.maxAttempts := hfew
      have hpower' : 1024 ≤ s.supervisor.counted s.now - 1 := hpower
      have hnext : s.supervisor.counted s.now = retries + 1 := hone.resolve_right (by omega)
      refine iff_of_false (fun htracks => htracks.alive hdied) (not_not.mpr ?_)
      exact .overflows hfails henabled hdisposed (by omega) (by omega)

theorem Tracks.step (h : Tracks server.reconnect s.supervisor) (horderly : s.Orderly) {a : ConnectionAction}
    (hstep : s.step sha server a = some s') : Tracks server.reconnect s'.supervisor ↔ ¬ Miscounts sha server s a := by
  by_cases hfails : ∃ retries, AttemptFails sha server s a retries
  · obtain ⟨retries, hfails⟩ := hfails
    exact h.fails horderly hfails hstep
  · have hnot : ∀ retries, ¬ AttemptFails sha server s a retries := not_exists.mp hfails
    refine iff_of_true (h.moves (supervisor_moves hnot hstep)) ?_
    rintro (⟨hfails', -, -, -, -⟩ | ⟨hfails', -, -, -, -⟩)
    · exact hnot _ hfails'
    · exact hnot _ hfails'

/-- A failed attempt that is counted is the last one exactly after as many retries as there may be. -/
theorem Tracks.givesUp (h : Tracks server.reconnect s.supervisor) (horderly : s.Orderly) {a : ConnectionAction} {retries : Nat}
    (hfails : AttemptFails sha server s a retries) (hstep : s.step sha server a = some s') (hnot : ¬ Miscounts sha server s a)
    (henabled : server.reconnect.enabled = true) (hdisposed : s.disposed = false)
    (hraises : ¬ (retries = 0 ∧ server.failOnStartupError = true)) :
    s'.supervisor.phase = .givingUp ↔ retries = server.reconnect.maxAttempts := by
  obtain ⟨hbound, hknown⟩ := h.failing horderly hfails
  have hnext : s.supervisor.counted s.now = retries + 1 := by
    refine (counted_eq_iff hknown).1.mpr ?_
    rintro ⟨hretry, hreset⟩
    exact hnot (.forgets hfails henabled hdisposed hretry hreset)
  rw [hfails.supervisor hstep, Supervisor.attemptFails, if_neg hraises]
  rcases scheduleRetry_cases server.reconnect s.disposed s.now { s.supervisor with retries } with
    ⟨hstopped, -⟩ | ⟨-, -, hmany, connectedAt, heq⟩ | ⟨-, -, hfew, -, connectedAt, delay, heq⟩ | ⟨-, -, hfew, -, hdied⟩
  · simp [henabled, hdisposed] at hstopped
  · have hmany' : server.reconnect.maxAttempts < s.supervisor.counted s.now := hmany
    rw [heq]
    exact iff_of_true rfl (by omega)
  · have hfew' : s.supervisor.counted s.now ≤ server.reconnect.maxAttempts := hfew
    rw [heq]
    refine iff_of_false ?_ (by omega)
    rintro ⟨⟩
  · have hfew' : s.supervisor.counted s.now ≤ server.reconnect.maxAttempts := hfew
    refine iff_of_false ?_ (by omega)
    rw [hdied]
    rintro ⟨⟩

theorem retries_ended (horderly : s.Orderly) {how : Ending} (hended : s.supervisor.phase = .ended how) {a : ConnectionAction}
    (hstep : s.step sha server a = some s') : s'.supervisor.retries = s.supervisor.retries := by
  have hnot : ∀ retries, ¬ AttemptFails sha server s a retries := by
    intro retries hfails
    have hsync : ∀ sync, s.syncing = some sync → sync.caller ≠ .attempt := by
      intro sync hheld hcaller
      have hlacks := horderly.lacks_released hheld s.catalogue
      rw [hcaller] at hlacks
      have hphase := hlacks.syncing.1
      rw [hended] at hphase
      cases hphase
    cases hfails with
    | start hphase => simp [hended] at hphase
    | wake hphase hdisposed => simp [hended] at hphase
    | connect hphase => simp [hended] at hphase
    | fetch hheld hcaller hnone => exact hsync _ hheld hcaller
    | listedTwice refused refusedBack hheld hcaller hlisted hfetch => exact hsync _ hheld hcaller
    | raises hheld hcaller hlisted hfetch hraises => exact hsync _ hheld hcaller
  have hmoves := supervisor_moves hnot hstep
  revert hmoves
  generalize s'.supervisor = t
  intro hmoves
  cases hmoves with
  | same gaveUp => rfl
  | ends gaveUp how hhow => rfl
  | begun client hphase => rfl
  | woken client hphase => simp [hended] at hphase
  | spawned client hphase => rfl
  | connected now hphase => rfl
  | returned now how hhow => rfl

end McpConnection

open McpConnection in
/-- In every run in which no failure is miscounted, no more retries are begun than may be, and no retry's task has died; the next step
keeps that, with the count, exactly if it miscounts no failure. A failed attempt is the last one, and the connection given up, exactly
after as many retries as there may be, and no retry is begun once the attempts are over. -/
theorem supervisor_gives_up (sha : Sha256) (server : McpServer) (s : McpConnection)
    (hreach : Machine.Reach (step sha server) (fun s a => ¬ Miscounts sha server s a) {} s) :
    s.supervisor.retries ≤ server.reconnect.maxAttempts ∧ s.supervisor.phase ≠ .ended .died ∧
    (∀ a s', s.step sha server a = some s' → (Tracks server.reconnect s'.supervisor ↔ ¬ Miscounts sha server s a)) ∧
    (∀ a s' retries, s.step sha server a = some s' → AttemptFails sha server s a retries → ¬ Miscounts sha server s a →
      server.reconnect.enabled = true → s.disposed = false → ¬ (retries = 0 ∧ server.failOnStartupError = true) →
      (s'.supervisor.phase = .givingUp ↔ retries = server.reconnect.maxAttempts)) ∧
    ∀ a s' how, s.supervisor.phase = .ended how → s.step sha server a = some s' → s'.supervisor.retries = s.supervisor.retries := by
  have hstart : Tracks server.reconnect ({} : McpConnection).supervisor := by
    refine ⟨Nat.zero_le _, fun _ => ⟨rfl, rfl⟩, ?_, ?_, ?_, ?_⟩
    · rintro client (⟨⟨⟩⟩ | ⟨⟨⟩⟩)
    · rintro ⟨⟩
    · rintro delay ⟨⟩
    · rintro ⟨⟩
  obtain ⟨horderly, htracks⟩ := hreach.invariant (P := fun s => s.Orderly ∧ Tracks server.reconnect s.supervisor)
    ⟨orderly_start, hstart⟩ (by
      rintro s a s' ⟨horderly, htracks⟩ hnot hstep
      exact ⟨horderly.step hstep, (htracks.step horderly hstep).mpr hnot⟩)
  refine ⟨htracks.bound, htracks.alive, ?_, ?_, ?_⟩
  · intro a s' hstep
    exact htracks.step horderly hstep
  · intro a s' retries hstep hfails hnot henabled hdisposed hraises
    exact htracks.givesUp horderly hfails hstep hnot henabled hdisposed hraises
  · intro a s' how hended hstep
    exact retries_ended horderly hended hstep

/-- A server that is retried once. -/
def retriedOnce : McpServer where
  name := "s"
  failOnStartupError := false
  reconnect :=
    { enabled := true
      initialDelay := 1
      maxDelay := 1
      maxAttempts := 1
      positive := zero_lt_one
      bounded := le_rfl
      some_attempt := le_rfl }

open McpConnection in
theorem not_miscounts {sha : Sha256} {s : McpConnection} (hphase : s.supervisor.phase ≠ .syncing)
    (hconnected : s.supervisor.connectedAt = none) (a : ConnectionAction) : ¬ Miscounts sha retriedOnce s a := by
  rintro (⟨-, -, -, -, hsyncing | hforgiven⟩ | ⟨-, -, -, hlong, hmore⟩)
  · exact hphase hsyncing
  · simp [Supervisor.forgiven, hconnected] at hforgiven
  · have hone : retriedOnce.reconnect.maxAttempts = 1 := rfl
    omega

open McpConnection in
/-- A server that cannot be started is given up after its retry. -/
theorem supervisor_gives_up_unstarted : ∃ s, Machine.exec (step oneHash retriedOnce) {} [.start false, .wake false] = some s ∧
    s.supervisor.retries ≤ 1 ∧ s.supervisor.phase = .givingUp := by
  refine ⟨_, rfl, ?_, rfl⟩
  refine (supervisor_gives_up oneHash retriedOnce _ (.next (.wake false) (.next (.start false) .start ?_ rfl) ?_ rfl)).1
  · exact not_miscounts (fun hphase => Phase.noConfusion hphase) rfl _
  · exact not_miscounts (fun hphase => Phase.noConfusion hphase) rfl _

open McpConnection in
/-- The server connects and its tools cannot be listed: it is retried a second time, and will be again. -/
theorem supervisor_retries_on : ∃ s, Machine.exec (step oneHash retriedOnce) {} [.start true, .spawned, .connected, .fetchFails,
      .wake true, .spawned, .connected, .fetchFails, .wake true, .spawned, .connected, .fetchFails] = some s ∧
    s.supervisor.retries = 2 ∧ retriedOnce.reconnect.maxAttempts = 1 ∧ s.supervisor.gaveUp = false ∧ s.supervisor.attempts = 1 :=
  ⟨_, rfl, rfl, rfl, rfl, rfl⟩

end Pydsh
