import Mathlib.Algebra.Order.Field.Rat
import Mathlib.Data.List.Perm.Basic
import Pydsh.Lib.Machine
import Pydsh.Mcp.Bridge

/-!
# A supervised connection

`mcp/connection.py`, `Connection`: `start` makes a client, connects it and syncs its tools; an attempt that fails is retried after a
delay, or given up when there were too many. Syncs take a lock, in the order they come: those of the attempts, those that the server's
`list_changed` or another caller asks for, and the end of a give-up. `dispose` cancels the retry that is under way, closes the client and
takes the tools out. What a client's transport does is foreign: it starts or does not, answers what it likes, and ends when it likes. The
clock counts nanoseconds.
-/

namespace Pydsh

/-- A reconnect policy, as `resolve_reconnect_policy` lets it through. -/
structure ReconnectPolicy where
  enabled : Bool
  initialDelay : ℚ
  maxDelay : ℚ
  maxAttempts : Nat
  positive : 0 < initialDelay
  bounded : initialDelay ≤ maxDelay
  some_attempt : 1 ≤ maxAttempts

/-- The configuration of a server. -/
structure McpServer where
  name : String
  failOnStartupError : Bool
  reconnect : ReconnectPolicy

/-- `STABILITY_WINDOW_SECONDS`, in nanoseconds. -/
def stabilityWindow : Nat := 60000000000

/-- `backoff`; `none` where it raises, as the power of two is no float. -/
def ReconnectPolicy.backoff (policy : ReconnectPolicy) (attempts : Nat) : Option ℚ :=
  if attempts - 1 < 1024 then some (min (policy.initialDelay * 2 ^ (attempts - 1)) policy.maxDelay) else none

/-- How the attempts of a connection ended. -/
inductive Ending where
  | synced
  | raised
  | cancelled
  /-- Disposed, or not to be reconnected. -/
  | stopped
  /-- `backoff` raised in the retry's task. -/
  | died
  | gaveUp
  deriving DecidableEq

/-- Where the attempts are: `start` and the chain of retries after it, one at a time. -/
inductive Phase where
  | unstarted
  /-- The transport of a client is being started. -/
  | connecting (client : Nat)
  /-- It is started, and the handshake awaited. -/
  | handshaking (client : Nat)
  | syncing
  | sleeping (delay : ℚ)
  /-- `_give_up` is scheduled, or waits for the lock. -/
  | givingUp
  | ended (how : Ending)
  deriving DecidableEq

/-- What a connection knows of its attempts; `retries` are those that were begun. -/
structure Supervisor where
  phase : Phase := .unstarted
  attempts : Nat := 0
  connectedAt : Option Nat := none
  gaveUp : Bool := false
  retries : Nat := 0

/-- Who waits for the lock. -/
inductive Waiter where
  | attempt
  | call
  | giveUp
  deriving DecidableEq

/-- The call of `sync` that has the lock: whose it is, the client and the generation it began with, which is an object that it shares
with the connection, and what the server listed once that has come. -/
structure Syncing where
  caller : Waiter
  client : Nat
  previous : Generation
  listed : Option (List String) := none

/-- How far `dispose` is. -/
inductive Disposing where
  | notYet
  /-- The retry that was cancelled is awaited. -/
  | supervisor
  /-- The client is closing. -/
  | closing
  | done
  /-- Cancelled, while the client was closing. -/
  | cancelled
  deriving DecidableEq

/-- A client that was made: its transport is started, its reader is at the end of the input, it is closed. -/
structure McpPeer where
  started : Bool := false
  ended : Bool := false
  closed : Bool := false
  deriving DecidableEq

namespace McpPeer

/-- A client that runs until it is closed. -/
def isOpen (peer : McpPeer) : Bool := peer.started && !peer.closed

/-- A client that can be called. -/
def live (peer : McpPeer) : Bool := peer.isOpen && !peer.ended

end McpPeer

/-- A `Connection`, with the clients it made, the tool registry and the clock. -/
structure McpConnection where
  client : Option Nat := none
  catalogue : Catalogue := {}
  supervisor : Supervisor := {}
  disposed : Bool := false
  disposing : Disposing := .notYet
  syncing : Option Syncing := none
  waiting : List Waiter := []
  clients : List McpPeer := []
  now : Nat := 0

/-- What happens: to the attempts, to the calls of `sync`, to the connection as a whole, to its clients, and around it. -/
inductive ConnectionAction where
  /-- `start`; a client is made, or `_make_client` raises. -/
  | start (made : Bool)
  /-- The delay of a retry is over. -/
  | wake (made : Bool)
  | spawned
  | connected
  | connectFails
  /-- The caller of `start` is cancelled. -/
  | abandoned
  /-- `sync` is called. -/
  | sync
  /-- The lock goes to the first that waits for it. -/
  | acquire
  /-- The server listed all its tools. -/
  | listed (rawNames : List String)
  | fetchFails
  /-- The sync goes on; the names that the registry refuses, in the new generation and when the previous one is put back. -/
  | syncs (refused refusedBack : String → Bool)
  /-- A call of `sync` is cancelled: the one that has the lock, or one that waits for it. -/
  | syncCancelled (place : Option Nat)
  | giveUp
  | dispose
  /-- The retry that `dispose` cancelled is over. -/
  | disposeGoesOn
  /-- The client is closed. -/
  | disposeEnds
  | disposeCancelled
  | endOfInput (client : Nat)
  | tick (nanoseconds : Nat)
  /-- Another owner registers a tool, or takes one out. -/
  | register (name : String) (owner : Nat)
  | unregister (name : String)

namespace Supervisor

/-- The attempts are over. -/
def ends (s : Supervisor) (how : Ending) : Supervisor := { s with phase := .ended how }

/-- `_forgiven`. -/
def forgiven (s : Supervisor) (now : Nat) : Bool := (s.connectedAt.map (fun t => decide (t + stabilityWindow ≤ now))).getD false

/-- The attempts counted when one more has failed. -/
def counted (s : Supervisor) (now : Nat) : Nat := (if s.forgiven now then 0 else s.attempts) + 1

/-- `_schedule_retry`. -/
def scheduleRetry (policy : ReconnectPolicy) (disposed : Bool) (now : Nat) (s : Supervisor) : Supervisor :=
  if disposed || !policy.enabled then s.ends .stopped
  else
    let s' : Supervisor :=
      { s with
        attempts := s.counted now
        connectedAt := if s.forgiven now then none else s.connectedAt }
    if policy.maxAttempts < s'.attempts then { s' with phase := .givingUp }
    else
      match policy.backoff s'.attempts with
      | some delay => { s' with phase := .sleeping delay }
      | none => s'.ends .died

/-- An attempt raises: `start` may raise too. -/
def attemptFails (server : McpServer) (disposed : Bool) (now : Nat) (s : Supervisor) : Supervisor :=
  if s.retries = 0 ∧ server.failOnStartupError = true then s.ends .raised else s.scheduleRetry server.reconnect disposed now

/-- An attempt is under way. -/
def trying (s : Supervisor) : Bool :=
  match s.phase with
  | .connecting _ | .handshaking _ | .syncing => true
  | _ => false

/-- The task of a retry is under way, and can be cancelled. -/
def retrying (s : Supervisor) : Bool :=
  match s.phase with
  | .sleeping _ => true
  | _ => s.trying && decide (s.retries ≠ 0)

end Supervisor

namespace Catalogue

/-- The generation is disposed of, and an empty one takes its place. -/
def clear (c : Catalogue) : Catalogue :=
  { registry := c.generation.leaves c.registry
    generation := {} }

end Catalogue

namespace McpConnection

/-- The client of an index as it is now. -/
def putClient (s : McpConnection) (index : Nat) (peer : McpPeer) : McpConnection := { s with clients := s.clients.set index peer }

/-- A call of `sync` returns. -/
def returns (s : McpConnection) : Waiter → McpConnection
  | .attempt => { s with supervisor := s.supervisor.ends .synced }
  | _ => s

/-- An attempt raises, or a call of `sync` does. -/
def fails (server : McpServer) (s : McpConnection) : Waiter → McpConnection
  | .attempt => { s with supervisor := s.supervisor.attemptFails server s.disposed s.now }
  | _ => s

/-- An attempt begins: with a client, or without one, when making it raises. -/
def begins (server : McpServer) (s : McpConnection) (made : Bool) : McpConnection :=
  if made then
    { s with
      clients := s.clients ++ [{}]
      supervisor := { s.supervisor with phase := .connecting s.clients.length } }
  else s.fails server .attempt

/-- The lock is taken: by a sync, which returns at once on a connection that is disposed or has no client; or by a give-up. -/
def takesLock (s : McpConnection) : Waiter → McpConnection
  | .giveUp =>
    { s with
      catalogue := s.catalogue.clear
      supervisor := s.supervisor.ends .gaveUp }
  | caller =>
    match s.client with
    | some client =>
      if s.disposed then s.returns caller
      else
        { s with syncing := some {
            caller
            client
            previous := s.catalogue.generation } }
    | none => s.returns caller

/-- The lock is taken if it is free and nobody waits for it. -/
def enters (s : McpConnection) (waiter : Waiter) : McpConnection :=
  if s.syncing.isNone && s.waiting.isEmpty then s.takesLock waiter else { s with waiting := s.waiting ++ [waiter] }

/-- An attempt is cancelled, and has or awaits the lock no longer. -/
def cancelAttempt (s : McpConnection) : McpConnection :=
  { s with
    supervisor := s.supervisor.ends .cancelled
    syncing := s.syncing.filter (fun sync => decide (sync.caller ≠ .attempt))
    waiting := s.waiting.erase .attempt }

/-- The tools are taken out at the end of `dispose`; a sync under way has the same generation. -/
def unregisters (s : McpConnection) : McpConnection :=
  { s with
    catalogue := s.catalogue.clear
    syncing := s.syncing.map (fun sync => { sync with previous := { sync.previous with disposers := [] } })
    disposing := .done }

/-- `dispose` from the closing of the client on. -/
def closes (s : McpConnection) : McpConnection :=
  match s.client with
  | none => s.unregisters
  | some client =>
    { s with
      client := none
      clients := s.clients.modify client (fun peer => { peer with closed := true })
      disposing := .closing }

/-- A sync whose tools are fetched. -/
def registers (server : McpServer) (refused refusedBack : String → Bool) (s : McpConnection) (sync : Syncing)
    (tools : Dict String McpTool) : McpConnection :=
  let synced := syncTools server.failOnStartupError refused refusedBack s.catalogue.registry sync.previous tools
  match synced.generation with
  | some generation =>
    { s with
      syncing := none
      catalogue := ⟨synced.registry, generation⟩ }.returns sync.caller
  | none =>
    { s with
      syncing := none
      catalogue := ⟨synced.registry, { s.catalogue.generation with disposers := [] }⟩ }.fails server sync.caller

/-- The client of an index can be called. -/
def liveAt (s : McpConnection) (index : Nat) : Bool := (s.clients[index]?.map McpPeer.live).getD false

/-- What an action does; `none` where it cannot happen. -/
def step (sha : Sha256) (server : McpServer) (s : McpConnection) : ConnectionAction → Option McpConnection
  | .start made => if s.supervisor.phase = .unstarted then some (s.begins server made) else none
  | .wake made =>
    match s.supervisor.phase with
    | .sleeping _ =>
      if s.disposed then some { s with supervisor := s.supervisor.ends .stopped }
      else some ({ s with supervisor := { s.supervisor with retries := s.supervisor.retries + 1 } }.begins server made)
    | _ => none
  | .spawned =>
    match s.supervisor.phase with
    | .connecting client =>
      some { s.putClient client { started := true } with supervisor := { s.supervisor with phase := .handshaking client } }
    | _ => none
  | .connected =>
    match s.supervisor.phase with
    | .handshaking client =>
      some ({ s with
        client := some client
        supervisor := { s.supervisor with
          phase := .syncing
          attempts := 0
          connectedAt := some s.now } }.enters .attempt)
    | _ => none
  | .connectFails =>
    match s.supervisor.phase with
    | .connecting _ | .handshaking _ => some (s.fails server .attempt)
    | _ => none
  | .abandoned => if s.supervisor.trying && decide (s.supervisor.retries = 0) then some s.cancelAttempt else none
  | .sync => some (s.enters .call)
  | .acquire =>
    match s.syncing, s.waiting with
    | none, waiter :: waiting => some ({ s with waiting := waiting }.takesLock waiter)
    | _, _ => none
  | .listed rawNames =>
    match s.syncing with
    | some sync =>
      if sync.listed.isNone && s.liveAt sync.client then some { s with syncing := some { sync with listed := some rawNames } } else none
    | none => none
  | .fetchFails =>
    match s.syncing with
    | some sync => if sync.listed.isNone then some ({ s with syncing := none }.fails server sync.caller) else none
    | none => none
  | .syncs refused refusedBack =>
    match s.syncing with
    | some sync =>
      match sync.listed with
      | some rawNames =>
        match fetchTools sha server.name sync.client rawNames .empty with
        | some tools => some (s.registers server refused refusedBack sync tools)
        | none => some ({ s with syncing := none }.fails server sync.caller)
      | none => none
    | none => none
  | .syncCancelled none =>
    match s.syncing with
    | some sync => if sync.caller = .call then some { s with syncing := none } else none
    | none => none
  | .syncCancelled (some place) =>
    if s.waiting[place]? = some .call then some { s with waiting := s.waiting.eraseIdx place } else none
  | .giveUp =>
    if s.supervisor.phase = .givingUp ∧ s.supervisor.gaveUp = false then
      some ({ s with supervisor := { s.supervisor with gaveUp := true } }.enters .giveUp)
    else none
  | .dispose =>
    if s.disposed then some s
    else if s.supervisor.retrying then some { s.cancelAttempt with
      disposed := true
      disposing := .supervisor }
    else some { s with disposed := true }.closes
  | .disposeGoesOn => if s.disposing = .supervisor then some s.closes else none
  | .disposeEnds => if s.disposing = .closing then some s.unregisters else none
  | .disposeCancelled => if s.disposing = .closing then some { s with disposing := .cancelled } else none
  | .endOfInput client =>
    match s.clients[client]? with
    | some peer => if peer.live then some (s.putClient client { peer with ended := true }) else none
    | none => none
  | .tick nanoseconds => some { s with now := s.now + nanoseconds }
  | .register name owner =>
    match s.catalogue.registry.get? name with
    | none => some { s with catalogue := { s.catalogue with registry := s.catalogue.registry.set name (.other owner) } }
    | some _ => none
  | .unregister name =>
    match s.catalogue.registry.get? name with
    | some (.other _) => some { s with catalogue := { s.catalogue with registry := s.catalogue.registry.pop name } }
    | _ => none


/-! ## What a step does -/

section Steps

variable {sha : Sha256} {server : McpServer} {s s' : McpConnection}

/-- The steps, one for each branch. -/
inductive Moves (sha : Sha256) (server : McpServer) (s : McpConnection) : ConnectionAction → McpConnection → Prop where
  | start {made : Bool} (hphase : s.supervisor.phase = .unstarted) : Moves sha server s (.start made) (s.begins server made)
  | stopped {made : Bool} {delay : ℚ} (hphase : s.supervisor.phase = .sleeping delay) (hdisposed : s.disposed = true) :
    Moves sha server s (.wake made) { s with supervisor := s.supervisor.ends .stopped }
  | wake {made : Bool} {delay : ℚ} (hphase : s.supervisor.phase = .sleeping delay) (hdisposed : s.disposed = false) :
    Moves sha server s (.wake made)
      ({ s with supervisor := { s.supervisor with retries := s.supervisor.retries + 1 } }.begins server made)
  | spawned {client : Nat} (hphase : s.supervisor.phase = .connecting client) :
    Moves sha server s .spawned
      { s.putClient client { started := true } with supervisor := { s.supervisor with phase := .handshaking client } }
  | connected {client : Nat} (hphase : s.supervisor.phase = .handshaking client) :
    Moves sha server s .connected ({ s with
      client := some client
      supervisor := { s.supervisor with
        phase := .syncing
        attempts := 0
        connectedAt := some s.now } }.enters .attempt)
  | connectFails (hphase : (∃ client, s.supervisor.phase = .connecting client) ∨ ∃ client, s.supervisor.phase = .handshaking client) :
    Moves sha server s .connectFails (s.fails server .attempt)
  | abandoned (htrying : s.supervisor.trying = true) (hstart : s.supervisor.retries = 0) : Moves sha server s .abandoned s.cancelAttempt
  | sync : Moves sha server s .sync (s.enters .call)
  | acquire {waiter : Waiter} {waiting : List Waiter} (hfree : s.syncing = none) (hwaiting : s.waiting = waiter :: waiting) :
    Moves sha server s .acquire ({ s with waiting := waiting }.takesLock waiter)
  | listed {sync : Syncing} {rawNames : List String} (hsync : s.syncing = some sync) (hnone : sync.listed = none)
    (hlive : s.liveAt sync.client = true) :
    Moves sha server s (.listed rawNames) { s with syncing := some { sync with listed := some rawNames } }
  | fetchFails {sync : Syncing} (hsync : s.syncing = some sync) (hnone : sync.listed = none) :
    Moves sha server s .fetchFails ({ s with syncing := none }.fails server sync.caller)
  | registers {sync : Syncing} {rawNames : List String} {tools : Dict String McpTool} {refused refusedBack : String → Bool}
    (hsync : s.syncing = some sync) (hlisted : sync.listed = some rawNames)
    (hfetch : fetchTools sha server.name sync.client rawNames .empty = some tools) :
    Moves sha server s (.syncs refused refusedBack) (s.registers server refused refusedBack sync tools)
  | listedTwice {sync : Syncing} {rawNames : List String} {refused refusedBack : String → Bool}
    (hsync : s.syncing = some sync) (hlisted : sync.listed = some rawNames)
    (hfetch : fetchTools sha server.name sync.client rawNames .empty = none) :
    Moves sha server s (.syncs refused refusedBack) ({ s with syncing := none }.fails server sync.caller)
  | syncCancelled {sync : Syncing} (hsync : s.syncing = some sync) (hcaller : sync.caller = .call) :
    Moves sha server s (.syncCancelled none) { s with syncing := none }
  | waitCancelled {place : Nat} (hplace : s.waiting[place]? = some .call) :
    Moves sha server s (.syncCancelled (some place)) { s with waiting := s.waiting.eraseIdx place }
  | giveUp (hphase : s.supervisor.phase = .givingUp) (hnot : s.supervisor.gaveUp = false) :
    Moves sha server s .giveUp ({ s with supervisor := { s.supervisor with gaveUp := true } }.enters .giveUp)
  | disposed (hdisposed : s.disposed = true) : Moves sha server s .dispose s
  | disposeCancels (hdisposed : s.disposed = false) (hretrying : s.supervisor.retrying = true) :
    Moves sha server s .dispose { s.cancelAttempt with
      disposed := true
      disposing := .supervisor }
  | disposes (hdisposed : s.disposed = false) (hretrying : s.supervisor.retrying = false) :
    Moves sha server s .dispose { s with disposed := true }.closes
  | disposeGoesOn (hdisposing : s.disposing = .supervisor) : Moves sha server s .disposeGoesOn s.closes
  | disposeEnds (hdisposing : s.disposing = .closing) : Moves sha server s .disposeEnds s.unregisters
  | disposeCancelled (hdisposing : s.disposing = .closing) : Moves sha server s .disposeCancelled { s with disposing := .cancelled }
  | endOfInput {client : Nat} {peer : McpPeer} (hpeer : s.clients[client]? = some peer) (hlive : peer.live = true) :
    Moves sha server s (.endOfInput client) (s.putClient client { peer with ended := true })
  | tick {nanoseconds : Nat} : Moves sha server s (.tick nanoseconds) { s with now := s.now + nanoseconds }
  | register {name : String} {owner : Nat} (hfree : s.catalogue.registry.get? name = none) :
    Moves sha server s (.register name owner)
      { s with catalogue := { s.catalogue with registry := s.catalogue.registry.set name (.other owner) } }
  | unregister {name : String} {owner : Nat} (hother : s.catalogue.registry.get? name = some (.other owner)) :
    Moves sha server s (.unregister name) { s with catalogue := { s.catalogue with registry := s.catalogue.registry.pop name } }

theorem moves_of_step {a : ConnectionAction} (hstep : s.step sha server a = some s') : Moves sha server s a s' := by
  cases a with
  | start made =>
    obtain ⟨hphase, hnext⟩ := Option.ite_none_right_eq_some.mp hstep
    obtain rfl := Option.some.inj hnext
    exact .start hphase
  | wake made =>
    simp only [step] at hstep
    split at hstep
    · rename_i delay hphase
      split at hstep
      · rename_i hdisposed
        obtain rfl := Option.some.inj hstep
        exact .stopped hphase hdisposed
      · rename_i hdisposed
        obtain rfl := Option.some.inj hstep
        exact .wake hphase (by simpa using hdisposed)
    · cases hstep
  | spawned =>
    simp only [step] at hstep
    split at hstep
    · rename_i client hphase
      obtain rfl := Option.some.inj hstep
      exact .spawned hphase
    · cases hstep
  | connected =>
    simp only [step] at hstep
    split at hstep
    · rename_i client hphase
      obtain rfl := Option.some.inj hstep
      exact .connected hphase
    · cases hstep
  | connectFails =>
    simp only [step] at hstep
    split at hstep
    · rename_i client hphase
      obtain rfl := Option.some.inj hstep
      exact .connectFails (Or.inl ⟨client, hphase⟩)
    · rename_i client hphase
      obtain rfl := Option.some.inj hstep
      exact .connectFails (Or.inr ⟨client, hphase⟩)
    · cases hstep
  | abandoned =>
    obtain ⟨htrying, hnext⟩ := Option.ite_none_right_eq_some.mp hstep
    obtain rfl := Option.some.inj hnext
    rw [Bool.and_eq_true, decide_eq_true_eq] at htrying
    exact .abandoned htrying.1 htrying.2
  | sync =>
    obtain rfl := Option.some.inj hstep
    exact .sync
  | acquire =>
    simp only [step] at hstep
    split at hstep
    · rename_i waiter waiting hfree hwaiting
      obtain rfl := Option.some.inj hstep
      exact .acquire hfree hwaiting
    · cases hstep
  | listed rawNames =>
    simp only [step] at hstep
    split at hstep
    · rename_i sync hsync
      obtain ⟨hgo, hnext⟩ := Option.ite_none_right_eq_some.mp hstep
      obtain rfl := Option.some.inj hnext
      rw [Bool.and_eq_true, Option.isNone_iff_eq_none] at hgo
      exact .listed hsync hgo.1 hgo.2
    · cases hstep
  | fetchFails =>
    simp only [step] at hstep
    split at hstep
    · rename_i sync hsync
      obtain ⟨hnone, hnext⟩ := Option.ite_none_right_eq_some.mp hstep
      obtain rfl := Option.some.inj hnext
      exact .fetchFails hsync (Option.isNone_iff_eq_none.mp hnone)
    · cases hstep
  | syncs refused refusedBack =>
    simp only [step] at hstep
    split at hstep
    · rename_i sync hsync
      split at hstep
      · rename_i rawNames hlisted
        split at hstep
        · rename_i tools hfetch
          obtain rfl := Option.some.inj hstep
          exact .registers hsync hlisted hfetch
        · rename_i hfetch
          obtain rfl := Option.some.inj hstep
          exact .listedTwice hsync hlisted hfetch
      · cases hstep
    · cases hstep
  | syncCancelled place =>
    cases place with
    | none =>
      simp only [step] at hstep
      split at hstep
      · rename_i sync hsync
        obtain ⟨hcaller, hnext⟩ := Option.ite_none_right_eq_some.mp hstep
        obtain rfl := Option.some.inj hnext
        exact .syncCancelled hsync hcaller
      · cases hstep
    | some place =>
      obtain ⟨hplace, hnext⟩ := Option.ite_none_right_eq_some.mp hstep
      obtain rfl := Option.some.inj hnext
      exact .waitCancelled hplace
  | giveUp =>
    obtain ⟨⟨hphase, hnot⟩, ⟨⟩⟩ := Option.ite_none_right_eq_some.mp hstep
    exact .giveUp hphase hnot
  | dispose =>
    simp only [step] at hstep
    split at hstep
    · rename_i hdisposed
      obtain rfl := Option.some.inj hstep
      exact .disposed hdisposed
    · rename_i hdisposed
      split at hstep
      · rename_i hretrying
        obtain rfl := Option.some.inj hstep
        exact .disposeCancels (by simpa using hdisposed) hretrying
      · rename_i hretrying
        obtain rfl := Option.some.inj hstep
        exact .disposes (by simpa using hdisposed) (by simpa using hretrying)
  | disposeGoesOn =>
    obtain ⟨hdisposing, hnext⟩ := Option.ite_none_right_eq_some.mp hstep
    obtain rfl := Option.some.inj hnext
    exact .disposeGoesOn hdisposing
  | disposeEnds =>
    obtain ⟨hdisposing, hnext⟩ := Option.ite_none_right_eq_some.mp hstep
    obtain rfl := Option.some.inj hnext
    exact .disposeEnds hdisposing
  | disposeCancelled =>
    obtain ⟨hdisposing, hnext⟩ := Option.ite_none_right_eq_some.mp hstep
    obtain rfl := Option.some.inj hnext
    exact .disposeCancelled hdisposing
  | endOfInput client =>
    simp only [step] at hstep
    split at hstep
    · rename_i peer hpeer
      obtain ⟨hlive, hnext⟩ := Option.ite_none_right_eq_some.mp hstep
      obtain rfl := Option.some.inj hnext
      exact .endOfInput hpeer hlive
    · cases hstep
  | tick nanoseconds =>
    obtain rfl := Option.some.inj hstep
    exact .tick
  | register name owner =>
    simp only [step] at hstep
    split at hstep
    · rename_i hfree
      obtain rfl := Option.some.inj hstep
      exact .register hfree
    · cases hstep
  | unregister name =>
    simp only [step] at hstep
    split at hstep
    · rename_i owner hother
      obtain rfl := Option.some.inj hstep
      exact .unregister hother
    · cases hstep

/-- An attempt begins with a client that is made, or fails as making it raises. -/
theorem begins_cases (server : McpServer) (s : McpConnection) (made : Bool) :
    (made = true ∧ s.begins server made = { s with
      clients := s.clients ++ [{}]
      supervisor := { s.supervisor with phase := .connecting s.clients.length } }) ∨
    (made = false ∧ s.begins server made = s.fails server .attempt) := by
  cases made with
  | true => exact Or.inl ⟨rfl, rfl⟩
  | false => exact Or.inr ⟨rfl, rfl⟩

/-- The lock is taken by a give-up; or by a sync, which begins with the client there is, or returns at once. -/
theorem takesLock_cases (s : McpConnection) (waiter : Waiter) :
    (waiter = .giveUp ∧ s.takesLock waiter = { s with
      catalogue := s.catalogue.clear
      supervisor := s.supervisor.ends .gaveUp }) ∨
    (waiter ≠ .giveUp ∧ s.disposed = false ∧ ∃ client, s.client = some client ∧ s.takesLock waiter =
      { s with syncing := some {
          caller := waiter
          client
          previous := s.catalogue.generation } }) ∨
    (waiter ≠ .giveUp ∧ (s.disposed = true ∨ s.client = none) ∧ s.takesLock waiter = s.returns waiter) := by
  have hsync : waiter ≠ .giveUp → s.takesLock waiter =
      match s.client with
      | some client =>
        if s.disposed then s.returns waiter
        else
          { s with syncing := some {
              caller := waiter
              client
              previous := s.catalogue.generation } }
      | none => s.returns waiter := by
    intro hwaiter
    cases waiter with
    | attempt => rfl
    | call => rfl
    | giveUp => exact absurd rfl hwaiter
  by_cases hwaiter : waiter = .giveUp
  · subst hwaiter
    exact Or.inl ⟨rfl, rfl⟩
  · right
    rw [hsync hwaiter]
    cases hclient : s.client with
    | none => exact Or.inr ⟨hwaiter, Or.inr rfl, rfl⟩
    | some client =>
      cases hdisposed : s.disposed with
      | true => exact Or.inr ⟨hwaiter, Or.inl rfl, rfl⟩
      | false => exact Or.inl ⟨hwaiter, rfl, client, rfl, rfl⟩

theorem enters_cases (s : McpConnection) (waiter : Waiter) :
    (s.syncing = none ∧ s.waiting = [] ∧ s.enters waiter = s.takesLock waiter) ∨
    s.enters waiter = { s with waiting := s.waiting ++ [waiter] } := by
  unfold enters
  split
  · rename_i hfree
    rw [Bool.and_eq_true, Option.isNone_iff_eq_none, List.isEmpty_iff] at hfree
    exact Or.inl ⟨hfree.1, hfree.2, rfl⟩
  · exact Or.inr rfl

/-! ## Who has the lock or waits for it -/

/-- How often a waiter has the lock or waits for it. -/
def claims (s : McpConnection) (waiter : Waiter) : Nat :=
  s.waiting.count waiter + (if s.syncing.map Syncing.caller = some waiter then 1 else 0)

/-- How often a waiter is to have the lock or wait for it. -/
def awaited (s : Supervisor) : Waiter → Nat
  | .attempt => if s.phase = .syncing then 1 else 0
  | .giveUp => if s.phase = .givingUp ∧ s.gaveUp = true then 1 else 0
  | .call => 0

/-- An attempt that syncs, and a give-up that has begun, have the lock or wait for it, once; and none else does for them. -/
structure Orderly (s : McpConnection) : Prop where
  claims : ∀ waiter, waiter ≠ .call → s.claims waiter = awaited s.supervisor waiter
  gaveUp : s.supervisor.gaveUp = true → s.supervisor.phase = .givingUp ∨ ∃ how, s.supervisor.phase = .ended how
  caller : ∀ sync, s.syncing = some sync → sync.caller ≠ .giveUp

/-- A state in which one more claim would be orderly. -/
structure Lacks (s : McpConnection) (waiter : Waiter) : Prop where
  claims : ∀ other, other ≠ .call → s.claims other + (if other = waiter then 1 else 0) = awaited s.supervisor other
  gaveUp : s.supervisor.gaveUp = true → s.supervisor.phase = .givingUp ∨ ∃ how, s.supervisor.phase = .ended how
  caller : ∀ sync, s.syncing = some sync → sync.caller ≠ .giveUp

theorem awaited_ended (s : Supervisor) (how : Ending) (waiter : Waiter) : awaited (s.ends how) waiter = 0 := by
  cases waiter <;> simp [awaited, Supervisor.ends]

theorem awaited_other {waiter other : Waiter} (h : awaited s.supervisor waiter = 1) (hne : other ≠ waiter) : awaited s.supervisor other = 0 := by
  cases waiter with
  | call => simp [awaited] at h
  | attempt =>
    have hphase : s.supervisor.phase = .syncing := by simpa [awaited] using h
    cases other with
    | attempt => exact absurd rfl hne
    | call => rfl
    | giveUp => simp [awaited, hphase]
  | giveUp =>
    have hphase : s.supervisor.phase = .givingUp := (by simpa [awaited] using h : _ ∧ _).1
    cases other with
    | attempt => simp [awaited, hphase]
    | call => rfl
    | giveUp => exact absurd rfl hne

theorem awaited_le (s : Supervisor) (waiter : Waiter) : awaited s waiter ≤ 1 := by
  cases waiter with
  | attempt =>
    simp only [awaited]
    split <;> omega
  | call => exact Nat.zero_le 1
  | giveUp =>
    simp only [awaited]
    split <;> omega

theorem Lacks.claims_zero (h : s.Lacks waiter) (hwaiter : waiter ≠ .call) : ∀ other, other ≠ .call → s.claims other = 0 := by
  intro other hother
  have hself := h.claims waiter hwaiter
  rw [if_pos rfl] at hself
  have hle := awaited_le s.supervisor waiter
  by_cases hne : other = waiter
  · subst hne
    omega
  · have hone : awaited s.supervisor waiter = 1 := by omega
    have hzero := awaited_other hone hne
    have hsame := h.claims other hother
    rw [if_neg hne] at hsame
    omega

theorem Lacks.ends (h : s.Lacks waiter) (hwaiter : waiter ≠ .call) (how : Ending) (catalogue : Catalogue) :
    { s with
      catalogue
      supervisor := s.supervisor.ends how }.Orderly := by
  refine ⟨?_, ?_, h.caller⟩
  · intro other hother
    exact (h.claims_zero hwaiter other hother).trans (awaited_ended s.supervisor how other).symm
  · intro _
    exact Or.inr ⟨how, rfl⟩

theorem Lacks.takesLock (h : s.Lacks waiter) (hfree : s.syncing = none) : (s.takesLock waiter).Orderly := by
  rcases takesLock_cases s waiter with ⟨rfl, heq⟩ | ⟨hnot, -, client, -, heq⟩ | ⟨hnot, -, heq⟩
  · rw [heq]
    exact h.ends (fun hcall => Waiter.noConfusion hcall) .gaveUp s.catalogue.clear
  · rw [heq]
    refine ⟨?_, h.gaveUp, ?_⟩
    rotate_left
    · rintro sync ⟨⟩
      exact hnot
    intro other hother
    have hclaims := h.claims other hother
    simp only [McpConnection.claims, hfree, Option.map_none, Option.map_some, Option.some.injEq] at hclaims ⊢
    simpa [eq_comm (a := other)] using hclaims
  · rw [heq]
    cases waiter with
    | attempt => exact h.ends (fun hcall => Waiter.noConfusion hcall) .synced s.catalogue
    | call =>
      refine ⟨?_, h.gaveUp, h.caller⟩
      intro other hother
      have hclaims := h.claims other hother
      rw [if_neg hother] at hclaims
      exact hclaims
    | giveUp => exact absurd rfl hnot

theorem Lacks.enters (h : s.Lacks waiter) : (s.enters waiter).Orderly := by
  rcases enters_cases s waiter with ⟨hfree, -, heq⟩ | heq
  · rw [heq]
    exact h.takesLock hfree
  · rw [heq]
    refine ⟨?_, h.gaveUp, h.caller⟩
    intro other hother
    have hclaims := h.claims other hother
    have hcount : [waiter].count other = if other = waiter then 1 else 0 := by
      rw [List.count_singleton]
      simp only [beq_iff_eq, eq_comm (a := other)]
    simp only [McpConnection.claims, List.count_append] at hclaims ⊢
    omega

theorem Orderly.lacks_call (h : s.Orderly) : s.Lacks .call := by
  refine ⟨?_, h.gaveUp, h.caller⟩
  intro other hother
  rw [if_neg hother]
  exact h.claims other hother

theorem Orderly.lacks_head (h : s.Orderly) {waiter : Waiter} {waiting : List Waiter} (hwaiting : s.waiting = waiter :: waiting) :
    ({ s with waiting := waiting } : McpConnection).Lacks waiter := by
  refine ⟨?_, h.gaveUp, h.caller⟩
  intro other hother
  have hclaims := h.claims other hother
  simp only [McpConnection.claims, hwaiting, List.count_cons, beq_iff_eq, eq_comm (a := waiter)] at hclaims ⊢
  omega

theorem Orderly.supervisor (h : s.Orderly) (supervisor : Supervisor)
    (hawaited : ∀ waiter, waiter ≠ .call → awaited supervisor waiter = awaited s.supervisor waiter)
    (hgaveUp : supervisor.gaveUp = true → supervisor.phase = .givingUp ∨ ∃ how, supervisor.phase = .ended how)
    (client : Option Nat) (clients : List McpPeer) :
    ({ s with
      client
      clients
      supervisor } : McpConnection).Orderly :=
  ⟨fun waiter hwaiter => (h.claims waiter hwaiter).trans (hawaited waiter hwaiter).symm, hgaveUp, h.caller⟩

/-- A phase in which the supervisor awaits nothing. -/
def Unclaimed (phase : Phase) : Prop := phase ≠ .syncing ∧ phase ≠ .givingUp

theorem awaited_unclaimed {supervisor : Supervisor} (h : Unclaimed supervisor.phase) (waiter : Waiter) : awaited supervisor waiter = 0 := by
  cases waiter <;> simp [awaited, h.1, h.2]

/-- A failed attempt leaves the supervisor with nothing to wait for. -/
theorem awaited_attemptFails (server : McpServer) (disposed : Bool) (now : Nat) {supervisor : Supervisor}
    (hgaveUp : supervisor.gaveUp = false) (waiter : Waiter) :
    awaited (supervisor.attemptFails server disposed now) waiter = 0 ∧ (supervisor.attemptFails server disposed now).gaveUp = false := by
  unfold Supervisor.attemptFails Supervisor.scheduleRetry
  split
  · exact ⟨awaited_ended supervisor _ waiter, hgaveUp⟩
  · split
    · exact ⟨awaited_ended supervisor _ waiter, hgaveUp⟩
    · simp only
      split
      · refine ⟨?_, hgaveUp⟩
        cases waiter <;> simp [awaited, hgaveUp]
      · split
        · exact ⟨awaited_unclaimed (by simp [Unclaimed]) waiter, hgaveUp⟩
        · exact ⟨awaited_ended _ _ waiter, hgaveUp⟩

theorem Orderly.gaveUp_false (h : s.Orderly) (hphase : s.supervisor.phase ≠ .givingUp)
    (hended : ∀ how, s.supervisor.phase ≠ .ended how) : s.supervisor.gaveUp = false := by
  rw [← Bool.not_eq_true]
  intro hgaveUp
  rcases h.gaveUp hgaveUp with hgiving | ⟨how, hends⟩
  · exact hphase hgiving
  · exact hended how hends

theorem Orderly.fails_attempt (h : s.Orderly) (hphase : Unclaimed s.supervisor.phase) (hgaveUp : s.supervisor.gaveUp = false)
    (server : McpServer) : (s.fails server .attempt).Orderly := by
  have hfails := awaited_attemptFails server s.disposed s.now hgaveUp
  refine ⟨?_, ?_, h.caller⟩
  · intro waiter hwaiter
    exact ((h.claims waiter hwaiter).trans (awaited_unclaimed hphase waiter)).trans (hfails waiter).1.symm
  · intro hgave
    exact absurd ((hfails .attempt).2.symm.trans hgave) Bool.false_ne_true

theorem Orderly.begins (h : s.Orderly) (hphase : Unclaimed s.supervisor.phase) (hgaveUp : s.supervisor.gaveUp = false)
    (server : McpServer) (made : Bool) : (s.begins server made).Orderly := by
  rcases begins_cases server s made with ⟨-, heq⟩ | ⟨-, heq⟩
  · rw [heq]
    refine h.supervisor _ ?_ ?_ s.client (s.clients ++ [({} : McpPeer)])
    · intro waiter _
      rw [awaited_unclaimed hphase, awaited_unclaimed]
      simp [Unclaimed]
    · intro hgave
      exact absurd (hgaveUp.symm.trans hgave) Bool.false_ne_true
  · rw [heq]
    exact h.fails_attempt hphase hgaveUp server

theorem Orderly.lacks_released (h : s.Orderly) {sync : Syncing} (hsync : s.syncing = some sync) (catalogue : Catalogue) :
    ({ s with
      syncing := none
      catalogue } : McpConnection).Lacks sync.caller := by
  refine ⟨?_, h.gaveUp, ?_⟩
  · intro other hother
    have hclaims := h.claims other hother
    simp only [McpConnection.claims, hsync, Option.map_some, Option.some.injEq, Option.map_none, reduceCtorEq, if_false,
      eq_comm (a := sync.caller)] at hclaims ⊢
    omega
  · rintro sync' ⟨⟩

theorem Lacks.of_call (h : s.Lacks .call) : s.Orderly := by
  refine ⟨?_, h.gaveUp, h.caller⟩
  intro other hother
  have hclaims := h.claims other hother
  rw [if_neg hother] at hclaims
  exact hclaims

theorem Lacks.returns (h : s.Lacks waiter) (hwaiter : waiter ≠ .giveUp) : (s.returns waiter).Orderly := by
  cases waiter with
  | attempt => exact h.ends (fun hcall => Waiter.noConfusion hcall) .synced s.catalogue
  | call => exact h.of_call
  | giveUp => exact absurd rfl hwaiter

/-- An attempt that lacks its claim is in its sync, and has not given up. -/
theorem Lacks.syncing (h : s.Lacks .attempt) : s.supervisor.phase = .syncing ∧ s.supervisor.gaveUp = false := by
  have hone : awaited s.supervisor .attempt = 1 := by
    have hself := h.claims .attempt (fun hcall => Waiter.noConfusion hcall)
    rw [if_pos rfl] at hself
    have hle := awaited_le s.supervisor .attempt
    omega
  have hphase : s.supervisor.phase = .syncing := by simpa [awaited] using hone
  refine ⟨hphase, ?_⟩
  rw [← Bool.not_eq_true]
  intro hgave
  rcases h.gaveUp hgave with hgiving | ⟨how, hends⟩
  · rw [hphase] at hgiving
    cases hgiving
  · rw [hphase] at hends
    cases hends

theorem Lacks.fails (h : s.Lacks waiter) (hwaiter : waiter ≠ .giveUp) (server : McpServer) : (s.fails server waiter).Orderly := by
  cases waiter with
  | attempt =>
    have hfails := awaited_attemptFails server s.disposed s.now h.syncing.2
    refine ⟨?_, ?_, h.caller⟩
    · intro other hother
      exact (h.claims_zero (fun hcall => Waiter.noConfusion hcall) other hother).trans (hfails other).1.symm
    · intro hgave
      exact absurd ((hfails .attempt).2.symm.trans hgave) Bool.false_ne_true
  | call => exact h.of_call
  | giveUp => exact absurd rfl hwaiter

theorem claims_of_unheld {waiter : Waiter} (h : s.syncing.map Syncing.caller ≠ some waiter) : s.claims waiter = s.waiting.count waiter := by
  rw [McpConnection.claims, if_neg h, Nat.add_zero]

theorem Orderly.cancelAttempt (h : s.Orderly) (hphase : s.supervisor.phase ≠ .givingUp) (disposed : Bool) (disposing : Disposing) :
    ({ s.cancelAttempt with
      disposed
      disposing } : McpConnection).Orderly := by
  refine ⟨?_, ?_, ?_⟩
  · intro waiter hwaiter
    refine Eq.trans ?_ (awaited_ended s.supervisor .cancelled waiter).symm
    have hclaims := h.claims waiter hwaiter
    cases waiter with
    | attempt =>
      have hle := awaited_le s.supervisor .attempt
      have hcount : (s.waiting.erase .attempt).count .attempt = s.waiting.count .attempt - 1 := List.count_erase_self
      have hheld : (s.syncing.filter (fun sync => decide (sync.caller ≠ .attempt))).map Syncing.caller ≠ some .attempt := by
        intro hmap
        obtain ⟨sync, hsync, hcaller⟩ := Option.map_eq_some_iff.mp hmap
        have hnot := (Option.filter_eq_some_iff.mp hsync).2
        simp [hcaller] at hnot
      refine (claims_of_unheld hheld).trans (hcount.trans ?_)
      unfold McpConnection.claims at hclaims
      omega
    | call => exact absurd rfl hwaiter
    | giveUp =>
      have hzero : awaited s.supervisor .giveUp = 0 := by simp [awaited, hphase]
      have hcount : (s.waiting.erase .attempt).count .giveUp = s.waiting.count .giveUp :=
        List.count_erase_of_ne (fun heq => Waiter.noConfusion heq)
      have hheld : (s.syncing.filter (fun sync => decide (sync.caller ≠ .attempt))).map Syncing.caller ≠ some .giveUp := by
        intro hmap
        obtain ⟨sync, hsync, hcaller⟩ := Option.map_eq_some_iff.mp hmap
        exact h.caller sync (Option.filter_eq_some_iff.mp hsync).1 hcaller
      refine (claims_of_unheld hheld).trans (hcount.trans ?_)
      unfold McpConnection.claims at hclaims
      omega
  · intro _
    exact Or.inr ⟨.cancelled, rfl⟩
  · intro sync hsync
    exact h.caller sync (Option.filter_eq_some_iff.mp hsync).1

theorem Orderly.same (h : s.Orderly) {t : McpConnection} (hsupervisor : t.supervisor = s.supervisor) (hwaiting : t.waiting = s.waiting)
    (hsyncing : t.syncing.map Syncing.caller = s.syncing.map Syncing.caller) : t.Orderly := by
  constructor
  · intro waiter hwaiter
    rw [McpConnection.claims, hwaiting, hsyncing, hsupervisor]
    exact h.claims waiter hwaiter
  · rw [hsupervisor]
    exact h.gaveUp
  · intro sync hsync hcaller
    have hmap : s.syncing.map Syncing.caller = some .giveUp := by rw [← hsyncing, hsync, ← hcaller]; rfl
    obtain ⟨sync', hsync', hcaller'⟩ := Option.map_eq_some_iff.mp hmap
    exact h.caller sync' hsync' hcaller'

theorem Orderly.unregisters (h : s.Orderly) : s.unregisters.Orderly := by
  refine h.same rfl rfl ?_
  simp only [McpConnection.unregisters, Option.map_map]
  rfl

theorem Orderly.closes (h : s.Orderly) : s.closes.Orderly := by
  unfold McpConnection.closes
  split
  · exact h.unregisters
  · exact h.same rfl rfl rfl

theorem Orderly.step (h : s.Orderly) {a : ConnectionAction} (hstep : s.step sha server a = some s') : s'.Orderly := by
  cases moves_of_step hstep with
  | start hphase =>
    exact h.begins (by simp [hphase, Unclaimed]) (h.gaveUp_false (by simp [hphase]) (by simp [hphase])) server _
  | stopped hphase hdisposed =>
    refine h.supervisor _ ?_ (fun _ => Or.inr ⟨.stopped, rfl⟩) s.client s.clients
    intro waiter _
    rw [awaited_ended, awaited_unclaimed]
    simp [Unclaimed, hphase]
  | wake hphase hdisposed =>
    have hgaveUp := h.gaveUp_false (by simp [hphase]) (by simp [hphase])
    have hsame : ({ s with supervisor := { s.supervisor with retries := s.supervisor.retries + 1 } } : McpConnection).Orderly := by
      refine h.supervisor { s.supervisor with retries := s.supervisor.retries + 1 } ?_ h.gaveUp s.client s.clients
      intro waiter _
      cases waiter <;> rfl
    exact hsame.begins (by simp [hphase, Unclaimed]) hgaveUp server _
  | spawned hphase =>
    refine h.supervisor _ ?_ ?_ s.client _
    · intro waiter _
      rw [awaited_unclaimed (by simp [Unclaimed]), awaited_unclaimed]
      simp [Unclaimed, hphase]
    · intro hgave
      exact absurd ((h.gaveUp_false (by simp [hphase]) (by simp [hphase])).symm.trans hgave) Bool.false_ne_true
  | connected hphase =>
    apply Lacks.enters
    refine ⟨?_, ?_, h.caller⟩
    · intro other hother
      have hclaims := h.claims other hother
      rw [awaited_unclaimed (by simp [Unclaimed, hphase])] at hclaims
      simp only [McpConnection.claims] at hclaims ⊢
      cases other with
      | attempt => simp [awaited] at hclaims ⊢; omega
      | call => exact absurd rfl hother
      | giveUp => simp [awaited] at hclaims ⊢; omega
    · intro hgave
      exact absurd ((h.gaveUp_false (by simp [hphase]) (by simp [hphase])).symm.trans hgave) Bool.false_ne_true
  | connectFails hphase =>
    refine h.fails_attempt ?_ (h.gaveUp_false ?_ ?_) server
    · rcases hphase with ⟨client, hphase⟩ | ⟨client, hphase⟩ <;> simp [Unclaimed, hphase]
    · rcases hphase with ⟨client, hphase⟩ | ⟨client, hphase⟩ <;> simp [hphase]
    · rcases hphase with ⟨client, hphase⟩ | ⟨client, hphase⟩ <;> simp [hphase]
  | abandoned htrying hstart =>
    refine h.cancelAttempt ?_ s.disposed s.disposing
    intro hphase
    simp [Supervisor.trying, hphase] at htrying
  | sync => exact h.lacks_call.enters
  | acquire hfree hwaiting => exact (h.lacks_head hwaiting).takesLock hfree
  | listed hsync hnone hlive => exact h.same rfl rfl (by rw [hsync]; rfl)
  | fetchFails hsync hnone => exact (h.lacks_released hsync s.catalogue).fails (h.caller _ hsync) server
  | @registers sync rawNames tools refused refusedBack hsync hlisted hfetch =>
    unfold McpConnection.registers
    simp only
    split
    · exact (h.lacks_released hsync _).returns (h.caller _ hsync)
    · exact (h.lacks_released hsync _).fails (h.caller _ hsync) server
  | listedTwice hsync hlisted hfetch => exact (h.lacks_released hsync s.catalogue).fails (h.caller _ hsync) server
  | syncCancelled hsync hcaller =>
    have hlacks := h.lacks_released hsync s.catalogue
    rw [hcaller] at hlacks
    exact hlacks.of_call
  | @waitCancelled place hplace =>
    refine ⟨?_, h.gaveUp, h.caller⟩
    intro waiter hwaiter
    have hcount : (s.waiting.eraseIdx place).count waiter = s.waiting.count waiter := by
      obtain ⟨hlt, hget⟩ := List.getElem?_eq_some_iff.mp hplace
      rw [← (List.getElem_cons_eraseIdx_perm hlt).count_eq waiter, hget, List.count_cons_of_ne (fun heq => hwaiter heq.symm)]
    simp only [McpConnection.claims, hcount]
    exact h.claims waiter hwaiter
  | giveUp hphase hnot =>
    apply Lacks.enters
    refine ⟨?_, fun _ => Or.inl hphase, h.caller⟩
    intro other hother
    have hclaims := h.claims other hother
    simp only [McpConnection.claims] at hclaims ⊢
    cases other with
    | attempt => simp [awaited, hphase] at hclaims ⊢; omega
    | call => exact absurd rfl hother
    | giveUp => simp [awaited, hphase, hnot] at hclaims ⊢; omega
  | disposed hdisposed => exact h
  | disposeCancels hdisposed hretrying =>
    refine h.cancelAttempt ?_ true .supervisor
    intro hphase
    simp [Supervisor.retrying, Supervisor.trying, hphase] at hretrying
  | disposes hdisposed hretrying => exact (h.same (t := { s with disposed := true }) rfl rfl rfl).closes
  | disposeGoesOn hdisposing => exact h.closes
  | disposeEnds hdisposing => exact h.unregisters
  | disposeCancelled hdisposing => exact h.same rfl rfl rfl
  | endOfInput hpeer hlive => exact h.same rfl rfl rfl
  | tick => exact h.same rfl rfl rfl
  | register hfree => exact h.same rfl rfl rfl
  | unregister hother => exact h.same rfl rfl rfl

theorem orderly_start : ({} : McpConnection).Orderly := by
  refine ⟨?_, ?_, ?_⟩
  · intro waiter _
    cases waiter <;> rfl
  · rintro ⟨⟩
  · rintro sync ⟨⟩

end Steps

end McpConnection

end Pydsh
