import Pydsh.Lib.Dict
import Pydsh.Lib.Machine

/-!
# Who owns a live shell

`capability/terminal.py`, and what the tool `terminal` makes of it: a table of sessions, each over the process of a shell. `spawn` tests
the table, suspends while the process is created, and then sets the entry of the id. And a session counts as closed when its output ended,
with the process running or not. A run keeps the shells owned exactly if each process that is created is so while the service is mounted
and no shell of its id runs (`shells_owned_iff`).
Processes are numbered as they are created. `close_all` is a `close` of each id it finds, with others' steps between them. No call is
cancelled, and a process group that gets SIGKILL is gone.
-/

namespace Pydsh

/-- A session and its process: whether that runs and whether its end was noticed (`returncode`); `_closed`; and whether a `close` of it is
at work. -/
structure TerminalSession where
  id : String
  running : Bool := true
  returncode : Bool := false
  shut : Bool := false
  closing : Bool := false
  deriving DecidableEq

/-- `closed`. -/
def TerminalSession.closed (session : TerminalSession) : Bool := session.shut || session.returncode

/-- `close`, up to its `await`: the process group has SIGTERM. -/
def TerminalSession.close (session : TerminalSession) : TerminalSession :=
  { session with shut := true, closing := session.closing || !session.returncode }

/-- Who called `spawn`: someone, or the tool because `get` found no session, or because the session was closed. -/
inductive SpawnCaller where
  | other
  | absent
  | closed
  deriving DecidableEq

/-- A `spawn` that waits for its process. -/
structure Spawning where
  id : String
  caller : SpawnCaller
  deriving DecidableEq

/-- The sessions by the numbers of their processes, the table of the service, the spawns and sends that wait, and whether the service was
unmounted. -/
structure Terminals where
  shells : List TerminalSession := []
  sessions : Dict String Nat := .empty
  spawns : List Spawning := []
  sends : List Nat := []
  unmounted : Bool := false

/-- What happens: `spawn` is called or the tool is; a spawn ends, with a process that runs or is over already, or raises; `send` is
called, ends with its marker or its time, or finds the end of the output; a process ends, and that is noticed; a session is closed through
the service or by itself; the service is unmounted. -/
inductive TerminalAction where
  | spawn (id : String)
  | tool (id : String)
  | spawned (place : Nat) (running : Bool)
  | refused (place : Nat)
  | send (n : Nat)
  | sent (n : Nat)
  | ended (n : Nat)
  | exit (n : Nat)
  | noticed (n : Nat)
  | close (id : String)
  | shut (n : Nat)
  | unmount

namespace Terminals

/-- What becomes of a session. -/
def modify (s : Terminals) (n : Nat) (f : TerminalSession → TerminalSession) : Terminals := { s with shells := s.shells.modify n f }

/-- A session that is not closed stands under the id. -/
def isOpen (s : Terminals) (id : String) : Bool :=
  ((s.sessions.get? id).bind (fun n => s.shells[n]?)).any (fun session => !session.closed)

/-- `spawn`, up to its `await`; it raises where the id is open. -/
def spawn (s : Terminals) (id : String) (caller : SpawnCaller) : Terminals :=
  if s.isOpen id then s else { s with spawns := s.spawns ++ [⟨id, caller⟩] }

/-- `send`, up to its `await`; it raises where the session is closed. -/
def send (s : Terminals) (n : Nat) : Terminals :=
  if (s.shells[n]?).any (fun session => !session.closed) then { s with sends := s.sends ++ [n] } else s

/-- The tool, up to its `await`. -/
def tool (s : Terminals) (id : String) : Terminals :=
  match s.sessions.get? id with
  | none => s.spawn id .absent
  | some n => if (s.shells[n]?).any TerminalSession.closed then s.spawn id .closed else s.send n

/-- A process was created: its session stands under the id. -/
def register (s : Terminals) (id : String) (running : Bool) : Terminals :=
  { s with
    shells := s.shells ++ [{ id, running, returncode := !running }]
    sessions := s.sessions.set id s.shells.length }

/-- What the caller of `spawn` does with the session: the tool spawns once more if it found no session before and this one is closed. -/
def goOn (s : Terminals) (spawning : Spawning) (n : Nat) : Terminals :=
  match spawning.caller with
  | .other => s
  | .absent => if (s.shells[n]?).any TerminalSession.closed then s.spawn spawning.id .closed else s.send n
  | .closed => s.send n

/-- `_abandon`. -/
def abandon (s : Terminals) : Terminals :=
  { s with
    shells := s.shells.mapIdx (fun n session => if n ∈ s.sessions.entries.map (·.2) then { session with running := false } else session)
    sessions := .empty
    unmounted := true }

/-- What an action does; `none` where it cannot happen. -/
def step (s : Terminals) : TerminalAction → Option Terminals
  | .spawn id => some (s.spawn id .other)
  | .tool id => some (s.tool id)
  | .spawned place running =>
    (s.spawns[place]?).map fun spawning =>
      goOn (register { s with spawns := s.spawns.eraseIdx place } spawning.id running) spawning s.shells.length
  | .refused place => (s.spawns[place]?).map (fun _ => { s with spawns := s.spawns.eraseIdx place })
  | .send n => if n < s.shells.length then some (s.send n) else none
  | .sent n => if n ∈ s.sends then some { s with sends := s.sends.erase n } else none
  | .ended n =>
    if n ∈ s.sends then some ({ s with sends := s.sends.erase n }.modify n fun session => { session with shut := true }) else none
  | .exit n =>
    if (s.shells[n]?).any TerminalSession.running then some (s.modify n fun session => { session with running := false }) else none
  | .noticed n =>
    if (s.shells[n]?).any (fun session => !session.running) then some (s.modify n fun session => { session with returncode := true })
    else none
  | .close id =>
    match s.sessions.get? id with
    | some n => some ({ s with sessions := s.sessions.pop id }.modify n TerminalSession.close)
    | none => some s
  | .shut n => if n < s.shells.length then some (s.modify n TerminalSession.close) else none
  | .unmount => some s.abandon

/-- Of one id at most one shell runs; a shell that runs and is not being closed stands under its id; and where the service was unmounted a
shell that runs is being closed. -/
structure Owned (s : Terminals) : Prop where
  one : ∀ (n m : Nat) (a b : TerminalSession), s.shells[n]? = some a → s.shells[m]? = some b → a.running = true → b.running = true →
    a.id = b.id → n = m
  registered : ∀ (n : Nat) (a : TerminalSession), s.shells[n]? = some a → a.running = true → a.closing = false →
    s.sessions.get? a.id = some n
  gone : s.unmounted = true → ∀ (n : Nat) (a : TerminalSession), s.shells[n]? = some a → a.running = true → a.closing = true

/-- When a process was created no shell of the id runs: none that another spawn made meanwhile, none whose output ended before it did,
none that is being closed; and the service is mounted. (A process that is over already matters only to a shell that is not being
closed.) -/
def Alone (s : Terminals) : TerminalAction → Prop
  | .spawned place running => ∀ spawning ∈ s.spawns[place]?,
    (running = true → s.unmounted = false) ∧
      ∀ a ∈ s.shells, a.id = spawning.id → a.running = true → running = false ∧ a.closing = true
  | _ => True

instance (s : Terminals) : ∀ a, Decidable (s.Alone a)
  | .spawned place _ => inferInstanceAs (Decidable (∀ spawning ∈ s.spawns[place]?, _ ∧ ∀ a ∈ s.shells, _ → _ → _))
  | .spawn _ | .tool _ | .refused _ | .send _ | .sent _ | .ended _ | .exit _ | .noticed _ | .close _ | .shut _ | .unmount =>
    inferInstanceAs (Decidable True)

/-! ## What leaves the sessions -/

variable {s s' : Terminals}

/-- The sessions, the table and the mount are the same. -/
structure SameShells (s s' : Terminals) : Prop where
  shells : s'.shells = s.shells
  sessions : s'.sessions = s.sessions
  unmounted : s'.unmounted = s.unmounted

theorem SameShells.symm (h : SameShells s s') : SameShells s' s := ⟨h.shells.symm, h.sessions.symm, h.unmounted.symm⟩

theorem sameShells_spawn (s : Terminals) (id : String) (caller : SpawnCaller) : SameShells s (s.spawn id caller) := by
  unfold Terminals.spawn
  split <;> exact ⟨rfl, rfl, rfl⟩

theorem sameShells_send (s : Terminals) (n : Nat) : SameShells s (s.send n) := by
  unfold Terminals.send
  split <;> exact ⟨rfl, rfl, rfl⟩

theorem sameShells_tool (s : Terminals) (id : String) : SameShells s (s.tool id) := by
  unfold Terminals.tool
  split
  · exact sameShells_spawn s id .absent
  · split
    · exact sameShells_spawn s id .closed
    · exact sameShells_send s _

theorem sameShells_goOn (s : Terminals) (spawning : Spawning) (n : Nat) : SameShells s (s.goOn spawning n) := by
  unfold Terminals.goOn
  split
  · exact ⟨rfl, rfl, rfl⟩
  · split
    · exact sameShells_spawn s spawning.id .closed
    · exact sameShells_send s n
  · exact sameShells_send s n

/-- A session as it may become: it keeps its id, does not run again, and its `close` goes on. -/
structure Fades (a b : TerminalSession) : Prop where
  id : b.id = a.id
  running : b.running = true → a.running = true
  closing : b.closing = false → a.closing = false

/-- Where the sessions only fade, and the table keeps those that run and are not being closed, the shells stay owned. -/
theorem Owned.fade (h : s.Owned) (hshells : ∀ (n : Nat) b, s'.shells[n]? = some b → ∃ a, s.shells[n]? = some a ∧ Fades a b)
    (hsessions : ∀ n b, s'.shells[n]? = some b → b.running = true → b.closing = false → s.sessions.get? b.id = some n →
      s'.sessions.get? b.id = some n)
    (hmounted : s'.unmounted = true → s.unmounted = true) : s'.Owned := by
  constructor
  · intro n m b b' hb hb' hrun hrun' hid
    obtain ⟨a, ha, hfade⟩ := hshells n b hb
    obtain ⟨a', ha', hfade'⟩ := hshells m b' hb'
    exact h.one n m a a' ha ha' (hfade.running hrun) (hfade'.running hrun') (hfade.id.symm.trans (hid.trans hfade'.id))
  · intro n b hb hrun hclosing
    obtain ⟨a, ha, hfade⟩ := hshells n b hb
    have hold := h.registered n a ha (hfade.running hrun) (hfade.closing hclosing)
    exact hsessions n b hb hrun hclosing (hfade.id.symm ▸ hold)
  · intro hunmounted n b hb hrun
    obtain ⟨a, ha, hfade⟩ := hshells n b hb
    have hold := h.gone (hmounted hunmounted) n a ha (hfade.running hrun)
    cases hclosing : b.closing with
    | true => rfl
    | false => exact absurd (hold.symm.trans (hfade.closing hclosing)) (by decide)

theorem Fades.refl (a : TerminalSession) : Fades a a := ⟨rfl, fun h => h, fun h => h⟩

theorem Owned.same (h : s.Owned) (hsame : SameShells s s') : s'.Owned := by
  refine h.fade ?_ ?_ (fun hmounted => hsame.unmounted ▸ hmounted)
  · intro n b hb
    exact ⟨b, hsame.shells ▸ hb, Fades.refl b⟩
  · intro n b _ _ _ hold
    rw [hsame.sessions]
    exact hold

theorem fades_modify {shells : List TerminalSession} {n : Nat} {f : TerminalSession → TerminalSession} (hf : ∀ a, Fades a (f a)) {m : Nat}
    {b : TerminalSession} (hb : (shells.modify n f)[m]? = some b) : ∃ a, shells[m]? = some a ∧ Fades a b := by
  rw [List.getElem?_modify] at hb
  obtain ⟨a, ha, rfl⟩ := Option.map_eq_some_iff.mp hb
  refine ⟨a, ha, ?_⟩
  split
  · exact hf a
  · exact Fades.refl a

theorem Owned.modify (h : s.Owned) (n : Nat) {f : TerminalSession → TerminalSession} (hf : ∀ a, Fades a (f a)) : (s.modify n f).Owned :=
  h.fade (fun _ _ hb => fades_modify hf hb) (fun _ _ _ _ _ hold => hold) (fun hmounted => hmounted)

theorem fades_close (a : TerminalSession) : Fades a a.close := by
  refine ⟨rfl, fun h => h, ?_⟩
  intro hclosing
  simp only [TerminalSession.close, Bool.or_eq_false_iff] at hclosing
  exact hclosing.1

/-- `close` of an id: what stood under it and runs is being closed. -/
theorem Owned.close (h : s.Owned) {id : String} {n : Nat} (hget : s.sessions.get? id = some n)
    (hreturn : ∀ a, s.shells[n]? = some a → a.running = true → a.returncode = false) :
    ({ s with sessions := s.sessions.pop id }.modify n TerminalSession.close).Owned := by
  refine h.fade (fun m b hb => fades_modify fades_close hb) ?_ (fun hmounted => hmounted)
  intro m b hb hrun hclosing hold
  by_cases hid : b.id = id
  · have hm : m = n := Option.some.inj (hold.symm.trans (hid ▸ hget))
    subst hm
    have hb' : (s.shells.modify m TerminalSession.close)[m]? = some b := hb
    rw [List.getElem?_modify_eq] at hb'
    obtain ⟨a, ha, rfl⟩ := Option.map_eq_some_iff.mp hb'
    have hreturned := hreturn a ha hrun
    simp [TerminalSession.close, hreturned] at hclosing
  · exact (Dict.get?_pop_of_ne _ hid).trans hold

/-- What is kept: the shells are owned, and the end of one that runs was not noticed. -/
structure Good (s : Terminals) : Prop where
  owned : s.Owned
  live : ∀ (n : Nat) (a : TerminalSession), s.shells[n]? = some a → a.running = true → a.returncode = false

theorem good_empty : ({} : Terminals).Good :=
  ⟨⟨nofun, nofun, nofun⟩, nofun⟩

theorem Good.same (h : s.Good) (hsame : SameShells s s') : s'.Good := by
  refine ⟨h.owned.same hsame, ?_⟩
  rw [hsame.shells]
  exact h.live

theorem Good.modify (h : s.Good) (n : Nat) {f : TerminalSession → TerminalSession} (hf : ∀ a, Fades a (f a))
    (hlive : ∀ a, (f a).running = true → a.returncode = false → (f a).returncode = false) : (s.modify n f).Good := by
  refine ⟨h.owned.modify n hf, ?_⟩
  intro m b hb hrun
  have hb' : (s.shells.modify n f)[m]? = some b := hb
  rw [List.getElem?_modify] at hb'
  obtain ⟨a, ha, rfl⟩ := Option.map_eq_some_iff.mp hb'
  by_cases hn : n = m
  · rw [if_pos hn] at hrun ⊢
    exact hlive a hrun (h.live m a ha ((hf a).running hrun))
  · rw [if_neg hn] at hrun ⊢
    exact h.live m a ha hrun

theorem Good.abandon (h : s.Good) : s.abandon.Good := by
  have hbefore : ∀ (n : Nat) b, s.abandon.shells[n]? = some b → ∃ a, s.shells[n]? = some a ∧ b.id = a.id ∧ b.closing = a.closing ∧
      b.returncode = a.returncode ∧ (b.running = true → a.running = true ∧ n ∉ s.sessions.entries.map (·.2)) := by
    intro n b hb
    have hb' : (s.shells.mapIdx _)[n]? = some b := hb
    rw [List.getElem?_mapIdx] at hb'
    obtain ⟨a, ha, rfl⟩ := Option.map_eq_some_iff.mp hb'
    refine ⟨a, ha, ?_⟩
    split
    · exact ⟨rfl, rfl, rfl, nofun⟩
    · rename_i hnot
      exact ⟨rfl, rfl, rfl, fun hrun => ⟨hrun, hnot⟩⟩
  -- what runs still is no longer in the table, so it was being closed
  have hclosing : ∀ (n : Nat) b, s.abandon.shells[n]? = some b → b.running = true → b.closing = true := by
    intro n b hb hrun
    obtain ⟨a, ha, hid, hclosing, -, hstill⟩ := hbefore n b hb
    obtain ⟨hwas, hnot⟩ := hstill hrun
    rw [hclosing]
    by_contra hopen
    have hget := h.owned.registered n a ha hwas (by simpa using hopen)
    exact hnot (List.mem_map_of_mem (Dict.get?_eq_some.mp hget))
  refine ⟨⟨?_, ?_, fun _ => hclosing⟩, ?_⟩
  · intro n m b b' hb hb' hrun hrun' hid
    obtain ⟨a, ha, hid₁, -, -, hstill⟩ := hbefore n b hb
    obtain ⟨a', ha', hid₂, -, -, hstill'⟩ := hbefore m b' hb'
    exact h.owned.one n m a a' ha ha' (hstill hrun).1 (hstill' hrun').1 (hid₁.symm.trans (hid.trans hid₂))
  · intro n b hb hrun hopen
    exact absurd ((hclosing n b hb hrun).symm.trans hopen) (by decide)
  · intro n b hb hrun
    obtain ⟨a, ha, -, -, hreturn, hstill⟩ := hbefore n b hb
    rw [hreturn]
    exact h.live n a ha (hstill hrun).1

/-- A process was created, with none of its id that runs before the unmount, or it is over and none of its id is open. -/
theorem Good.register (h : s.Good) {id : String} {running : Bool} (hmounted : running = true → s.unmounted = false)
    (halone : ∀ a ∈ s.shells, a.id = id → a.running = true → running = false ∧ a.closing = true) : (s.register id running).Good := by
  have hcases : ∀ (n : Nat) b, (s.register id running).shells[n]? = some b → s.shells[n]? = some b ∨
      n = s.shells.length ∧ b = { id, running, returncode := !running } := by
    intro n b hb
    have hb' : (s.shells ++ [_])[n]? = some b := hb
    rw [List.getElem?_append] at hb'
    split at hb'
    · exact Or.inl hb'
    · obtain ⟨hn, hb'⟩ := List.getElem?_eq_some_iff.mp hb'
      have hn' : n = s.shells.length := by
        simp only [List.length_singleton] at hn
        omega
      subst hn'
      simp only [Nat.sub_self, List.getElem_cons_zero] at hb'
      exact Or.inr ⟨rfl, hb'.symm⟩
  -- an older shell that runs has another id
  have holder : ∀ (n : Nat) b, s.shells[n]? = some b → b.running = true → running = true → b.id ≠ id := by
    intro n b hb hrun hnew hid
    exact absurd (hnew.symm.trans (halone b (List.mem_of_getElem? hb) hid hrun).1) (by decide)
  refine ⟨⟨?_, ?_, ?_⟩, ?_⟩
  · intro n m b b' hb hb' hrun hrun' hid
    rcases hcases n b hb with hb | ⟨rfl, rfl⟩
    · rcases hcases m b' hb' with hb' | ⟨rfl, rfl⟩
      · exact h.owned.one n m b b' hb hb' hrun hrun' hid
      · exact absurd hid (holder n b hb hrun hrun')
    · rcases hcases m b' hb' with hb' | ⟨rfl, rfl⟩
      · exact absurd hid.symm (holder m b' hb' hrun' hrun)
      · rfl
  · intro n b hb hrun hclosing
    have hset : ∀ k, (s.register id running).sessions.get? k = if k = id then some s.shells.length else s.sessions.get? k :=
      Dict.get?_set s.sessions id s.shells.length
    rw [hset]
    rcases hcases n b hb with hb | ⟨rfl, rfl⟩
    · have hold := h.owned.registered n b hb hrun hclosing
      split
      · rename_i hid
        exact absurd ((halone b (List.mem_of_getElem? hb) hid hrun).2.symm.trans hclosing) (by decide)
      · exact hold
    · exact if_pos rfl
  · intro hunmounted n b hb hrun
    rcases hcases n b hb with hb | ⟨rfl, rfl⟩
    · exact h.owned.gone hunmounted n b hb hrun
    · exact absurd (hunmounted.symm.trans (hmounted hrun)) (by decide)
  · intro n b hb hrun
    rcases hcases n b hb with hb | ⟨rfl, rfl⟩
    · exact h.live n b hb hrun
    · have hnew : running = true := hrun
      simp [hnew]

theorem getElem?_register (s : Terminals) (id : String) (running : Bool) :
    (s.register id running).shells[s.shells.length]? = some { id, running, returncode := !running } := by
  simp [Terminals.register]

/-- Where the shells are owned after a process was created, none of its id was open, and none ran if it runs. -/
theorem alone_of_register {id : String} {running : Bool} (h : (s.register id running).Owned) :
    (running = true → s.unmounted = false) ∧ ∀ a ∈ s.shells, a.id = id → a.running = true → running = false ∧ a.closing = true := by
  have hnew := getElem?_register s id running
  constructor
  · intro hrunning
    by_contra hmounted
    have hunmounted : s.unmounted = true := by simpa using hmounted
    have hclosing := h.gone hunmounted _ _ hnew hrunning
    cases hclosing
  · intro a hmem hid hrun
    obtain ⟨n, ha⟩ := List.mem_iff_getElem?.mp hmem
    have hn : n < s.shells.length := (List.getElem?_eq_some_iff.mp ha).1
    have ha' : (s.register id running).shells[n]? = some a := by
      rw [Terminals.register, List.getElem?_append_left hn]
      exact ha
    constructor
    · by_contra hrunning
      have hsame := h.one n s.shells.length a _ ha' hnew hrun (by simpa using hrunning) hid
      omega
    · by_contra hclosing
      have hget := h.registered n a ha' hrun (by simpa using hclosing)
      rw [hid] at hget
      have hset : (s.register id running).sessions.get? id = some s.shells.length := Dict.get?_set_self ..
      have hsame := Option.some.inj (hset.symm.trans hget)
      omega

/-! ## A step -/

theorem Good.step (h : s.Good) {a : TerminalAction} (halone : s.Alone a) (hstep : s.step a = some s') : s'.Good := by
  cases a with
  | spawn id =>
    obtain rfl := Option.some.inj hstep
    exact h.same (sameShells_spawn s id .other)
  | tool id =>
    obtain rfl := Option.some.inj hstep
    exact h.same (sameShells_tool s id)
  | spawned place running =>
    obtain ⟨spawning, hget, rfl⟩ := Option.map_eq_some_iff.mp hstep
    obtain ⟨hmounted, hnone⟩ := halone spawning hget
    have hwaiting : { s with spawns := s.spawns.eraseIdx place }.Good := h.same ⟨rfl, rfl, rfl⟩
    exact (hwaiting.register hmounted hnone).same (sameShells_goOn _ _ _)
  | refused place =>
    obtain ⟨spawning, -, rfl⟩ := Option.map_eq_some_iff.mp hstep
    exact h.same ⟨rfl, rfl, rfl⟩
  | send n =>
    simp only [Terminals.step] at hstep
    split at hstep
    · obtain rfl := Option.some.inj hstep
      exact h.same (sameShells_send s n)
    · cases hstep
  | sent n =>
    simp only [Terminals.step] at hstep
    split at hstep
    · obtain rfl := Option.some.inj hstep
      exact h.same ⟨rfl, rfl, rfl⟩
    · cases hstep
  | ended n =>
    simp only [Terminals.step] at hstep
    split at hstep
    · obtain rfl := Option.some.inj hstep
      have hwaiting : { s with sends := s.sends.erase n }.Good := h.same ⟨rfl, rfl, rfl⟩
      exact hwaiting.modify n (fun a => ⟨rfl, fun h => h, fun h => h⟩) (fun a _ hreturn => hreturn)
    · cases hstep
  | exit n =>
    simp only [Terminals.step] at hstep
    split at hstep
    · obtain rfl := Option.some.inj hstep
      exact h.modify n (fun a => ⟨rfl, nofun, fun h => h⟩) (fun a _ hreturn => hreturn)
    · cases hstep
  | noticed n =>
    simp only [Terminals.step] at hstep
    split at hstep
    · rename_i hover
      obtain rfl := Option.some.inj hstep
      refine ⟨h.owned.modify n (fun a => ⟨rfl, fun h => h, fun h => h⟩), ?_⟩
      intro m b hb hrun
      have hb' : (s.shells.modify n _)[m]? = some b := hb
      rw [List.getElem?_modify] at hb'
      obtain ⟨a, ha, rfl⟩ := Option.map_eq_some_iff.mp hb'
      by_cases hn : n = m
      · rw [if_pos hn] at hrun
        have hrun' : a.running = true := hrun
        simp [hn, ha, hrun'] at hover
      · rw [if_neg hn] at hrun ⊢
        exact h.live m a ha hrun
    · cases hstep
  | close id =>
    simp only [Terminals.step] at hstep
    split at hstep
    · rename_i n hget
      obtain rfl := Option.some.inj hstep
      have hclosed := h.owned.close hget (fun a ha => h.live n a ha)
      exact ⟨hclosed, (h.modify n fades_close (fun a _ hreturn => hreturn)).live⟩
    · obtain rfl := Option.some.inj hstep
      exact h
  | shut n =>
    simp only [Terminals.step] at hstep
    split at hstep
    · obtain rfl := Option.some.inj hstep
      exact h.modify n fades_close (fun a _ hreturn => hreturn)
    · cases hstep
  | unmount =>
    obtain rfl := Option.some.inj hstep
    exact h.abandon

/-- A step that leaves the shells owned created no process beside a shell of its id, and none after the unmount. -/
theorem alone_of_owned {a : TerminalAction} (hstep : s.step a = some s') (h : s'.Owned) : s.Alone a := by
  cases a with
  | spawned place running =>
    obtain ⟨spawning, hget, rfl⟩ := Option.map_eq_some_iff.mp hstep
    have hgone := h.same (sameShells_goOn _ spawning s.shells.length).symm
    have hregistered : (s.register spawning.id running).Owned := hgone.same ⟨rfl, rfl, rfl⟩
    intro spawning' hget'
    cases hget.symm.trans hget'
    exact alone_of_register hregistered
  | _ => exact trivial

end Terminals

open Terminals in
/-- In a run of the service the live shells are owned in each state exactly if each process was created while no shell of its id ran and
the service was mounted. -/
theorem shells_owned_iff (as : List TerminalAction) (s : Terminals) (hrun : Machine.exec Terminals.step {} as = some s) :
    Machine.Always Terminals.step Owned {} as ↔ Machine.Meets Terminals.step Alone {} as :=
  Machine.always_iff_meets (I := Good) (fun _ h => h.owned) (fun _ _ _ h hstep halone => h.step halone hstep)
    (fun _ _ _ _ hstep howned => alone_of_owned hstep howned) good_empty hrun

/-- A session of an agent whose shell closes its output and then ends, one that the next call of the tool makes, and the unmount. -/
def oneAfterAnother : List TerminalAction :=
  [.tool "a", .spawned 0 true, .sent 0, .tool "a", .ended 0, .exit 0, .noticed 0, .tool "a", .spawned 0 true, .sent 1, .unmount]

/-- The shells are owned all the time. -/
theorem shells_owned_iff_oneAfterAnother : ∃ s, Machine.exec Terminals.step {} oneAfterAnother = some s ∧
    Machine.Always Terminals.step Terminals.Owned {} oneAfterAnother ∧ s.shells.map (·.running) = [false, false] := by
  have hruns : (Machine.execIf Terminals.step Terminals.Alone {} oneAfterAnother).map (fun s => s.shells.map (·.running)) =
      some [false, false] := by decide +kernel
  obtain ⟨s, hexecIf, hshells⟩ := Option.map_eq_some_iff.mp hruns
  obtain ⟨hexec, hmeets⟩ := Machine.meets_of_execIf hexecIf
  exact ⟨s, hexec, (shells_owned_iff oneAfterAnother s hexec).mpr hmeets, hshells⟩

/-- Two first calls of the tool at a time; a shell that closed its output and runs on; a shell that is being closed; and an unmount while
the process is created. -/
def twoFirstCalls : List TerminalAction := [.tool "a", .tool "a", .spawned 0 true, .spawned 0 true]

def outputClosed : List TerminalAction := [.tool "a", .spawned 0 true, .ended 0, .tool "a", .spawned 0 true]

def closedAndSpawned : List TerminalAction := [.spawn "a", .spawned 0 true, .close "a", .spawn "a", .spawned 0 true]

def unmountedMeanwhile : List TerminalAction := [.tool "a", .unmount, .spawned 0 true]

/-- Two shells run under one id, the first of which nobody finds; or one runs after the unmount. -/
theorem shells_not_owned :
    (∃ s, Machine.exec Terminals.step {} twoFirstCalls = some s ∧ s.shells.map (·.running) = [true, true] ∧
      s.sessions.get? "a" = some 1 ∧ ¬ s.Owned) ∧
    (∃ s, Machine.exec Terminals.step {} outputClosed = some s ∧ s.shells.map (·.running) = [true, true] ∧
      s.sessions.get? "a" = some 1 ∧ ¬ s.Owned) ∧
    (∃ s, Machine.exec Terminals.step {} closedAndSpawned = some s ∧ s.shells.map (·.running) = [true, true] ∧ ¬ s.Owned) ∧
    ∃ s, Machine.exec Terminals.step {} unmountedMeanwhile = some s ∧ s.unmounted = true ∧ s.shells.map (·.running) = [true] ∧
      ¬ s.Owned := by
  refine ⟨⟨_, rfl, rfl, by decide +kernel, ?_⟩, ⟨_, rfl, rfl, by decide +kernel, ?_⟩, ⟨_, rfl, rfl, ?_⟩, ⟨_, rfl, rfl, rfl, ?_⟩⟩
  · intro h
    exact absurd (h.one 0 1 _ _ rfl rfl rfl rfl rfl) (by decide)
  · intro h
    exact absurd (h.one 0 1 _ _ rfl rfl rfl rfl rfl) (by decide)
  · intro h
    exact absurd (h.one 0 1 _ _ rfl rfl rfl rfl rfl) (by decide)
  · intro h
    have hclosing := h.gone rfl 0 _ rfl rfl
    cases hclosing

end Pydsh
