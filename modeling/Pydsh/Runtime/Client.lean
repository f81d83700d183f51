import Pydsh.Lib.InFlight
import Pydsh.Lib.Machine

/-!
# The client and its child

`RuntimeClient` of `runtime/client.py` without a given transport, over `start` and `close` of the transport (`runtime/protocol.py`):
any number of calls in flight, each suspended at a spawn, at the handshake, or at an await of `close`. A child and its transport come
together, and go by one number. `start` tests a flag that it sets after its two awaits. Where no spawn completes when there is a
child or the client is closed, and no close is interrupted, there is one child, requests go to it, and a close that has returned
leaves neither child nor transport (`client_owns_one_child`).
-/

namespace Pydsh

/-- A child that was spawned: whether it runs and whether its exit code is known; and of its transport whether it reads and whether it is
closed. -/
structure RuntimeChild where
  running : Bool := true
  reaped : Bool := false
  reading : Bool := false
  closed : Bool := false

namespace RuntimeChild

/-- The transport of a child reads. -/
def read (child : RuntimeChild) : RuntimeChild := { child with reading := true }

/-- The transport of a child is closed. -/
def close (child : RuntimeChild) : RuntimeChild := { child with closed := true, reading := false }

/-- A child exits. -/
def exit (child : RuntimeChild) : RuntimeChild := { child with running := false }

/-- The exit code of a child becomes known, if it has exited. -/
def reap (child : RuntimeChild) : RuntimeChild := { child with reaped := !child.running }

end RuntimeChild

/-- What a call does once the client has started: `start` nothing, `request` and the runs of sessions send a request. -/
inductive AfterConnect where
  | nothing
  | request

/-- A call in flight: a start at the spawn or at the handshake; a close at its last request, at the end of the read loop, or at the exit
of the child; or a call that is over. -/
inductive ClientCall where
  | spawning (next : AfterConnect)
  | handshaking (child : Nat) (next : AfterConnect)
  | shuttingDown (child : Nat)
  | closingTransport (child : Nat)
  | stopping (child : Nat)
  | over

/-- The child that a call is about. -/
def ClientCall.child? : ClientCall → Option Nat
  | .handshaking child _ | .shuttingDown child | .closingTransport child | .stopping child => some child
  | .spawning _ | .over => none

/-- Whether a call is at an await of `close`. -/
def ClientCall.closes : ClientCall → Bool
  | .shuttingDown _ | .closingTransport _ | .stopping _ => true
  | _ => false

/-- A request that was sent: to which child, and which children ran then. -/
structure ClientRequest where
  child : Nat
  running : List Nat

/-- A `RuntimeClient` with the children it spawned, its calls in flight, and the requests it sent. -/
structure ClientRun where
  transport : Option Nat := none
  process : Option Nat := none
  started : Bool := false
  closed : Bool := false
  children : List RuntimeChild := []
  calls : List ClientCall := []
  sent : List ClientRequest := []

/-- What happens: a call of `start`, `request` or a session's `run`, or of `close`; what a call waits for, which may fail; a child exits,
and its exit code becomes known; or the cancellation of its task ends a call. -/
inductive ClientAction where
  | call (next : AfterConnect)
  | close
  | spawns (call : Nat)
  | spawnFails (call : Nat)
  | handshakes (call : Nat)
  | handshakeFails (call : Nat)
  | shutDown (call : Nat)
  | readLoopEnds (call : Nat)
  | stops (call : Nat)
  | exits (child : Nat)
  | reaped (child : Nat)
  | interrupted (call : Nat)

namespace ClientRun

variable (s : ClientRun)

/-- The children that run. -/
def runningChildren : List Nat := (List.range s.children.length).filter (fun c => (s.children[c]?).any (·.running))

/-- Whether the transport of a child is closed. -/
def transportClosed (child : Nat) : Bool := (s.children[child]?).any (·.closed)

/-- A child, or its transport, changes. -/
def update (child : Nat) (f : RuntimeChild → RuntimeChild) : ClientRun := { s with children := s.children.modify child f }

/-- A call goes on to an await, or is over. -/
def goes (k : Nat) (call : ClientCall) : ClientRun := { s with calls := s.calls.set k call }

/-- `transport.request` up to its await, where the transport is not closed. -/
def send (child : Nat) : ClientRun := { s with sent := s.sent ++ [⟨child, s.runningChildren⟩] }

/-- The rest of `request`, once the client has started: it is refused where there is no transport, where the exit code of the child is
known, or where the transport is closed. -/
def connected : AfterConnect → ClientRun
  | .nothing => s
  | .request =>
    match s.transport with
    | none => s
    | some child =>
      if (s.process.bind (fun p => s.children[p]?)).any (·.reaped) then s
      else if s.transportClosed child then s
      else s.send child

/-- `start` from the transport on: `transport.start()`, which does not read where it is closed, and the handshake. -/
def handshake (k child : Nat) (next : AfterConnect) : ClientRun :=
  if s.transportClosed child then s.goes k .over
  else ((s.update child .read).send child).goes k (.handshaking child next)

/-- `_stop_child` up to its await, and the end of `close` where there is no process. -/
def stopChild (k : Nat) : ClientRun :=
  match s.process with
  | none => { s with started := false }.goes k .over
  | some child => { s with process := none }.goes k (.stopping child)

/-- `transport.close` up to its await, or up to that of `_stop_child` where there is no read loop to wait for. -/
def closeTransport (k child : Nat) : ClientRun :=
  if s.transportClosed child then s.stopChild k
  else
    let closed := s.update child .close
    if (s.children[child]?).any (·.reading) then closed.goes k (.closingTransport child) else closed.stopChild k

/-- `close`, from the transport it takes, up to its first await. -/
def closeWith (k : Nat) : Option Nat → ClientRun
  | none => s.stopChild k
  | some child =>
    if s.started && !s.transportClosed child then (s.send child).goes k (.shuttingDown child)
    else s.closeTransport k child

/-- A call that begins. -/
def begins : ClientRun := { s with calls := s.calls ++ [.over] }

/-- `start`, `request` or `run` up to its first await. -/
def call (next : AfterConnect) : ClientRun :=
  if s.started then s.connected next
  else if s.closed then s
  else
    match s.transport with
    | none => s.begins.goes s.calls.length (.spawning next)
    | some child => s.begins.handshake s.calls.length child next

/-- `close` up to its first await. -/
def close : ClientRun :=
  if s.closed then s
  else
    { s.begins with
      closed := true
      transport := none }.closeWith s.calls.length s.transport

/-- What an action does; `none` where it cannot happen. -/
def step (s : ClientRun) : ClientAction → Option ClientRun
  | .call next => some (s.call next)
  | .close => some s.close
  | .spawns k =>
    match s.calls[k]? with
    | some (.spawning next) =>
      some ({ s with
        process := some s.children.length
        transport := some s.children.length
        children := s.children ++ [({} : RuntimeChild)] }.handshake k s.children.length next)
    | _ => none
  | .spawnFails k =>
    match s.calls[k]? with
    | some (.spawning _) => some (s.goes k .over)
    | _ => none
  | .handshakes k =>
    match s.calls[k]? with
    | some (.handshaking _ next) => some (({ s with started := true }.goes k .over).connected next)
    | _ => none
  | .handshakeFails k =>
    match s.calls[k]? with
    | some (.handshaking _ _) => some (s.goes k .over)
    | _ => none
  | .shutDown k =>
    match s.calls[k]? with
    | some (.shuttingDown child) => some (s.closeTransport k child)
    | _ => none
  | .readLoopEnds k =>
    match s.calls[k]? with
    | some (.closingTransport _) => some (s.stopChild k)
    | _ => none
  | .stops k =>
    match s.calls[k]? with
    | some (.stopping child) =>
      if (s.children[child]?).any (·.reaped) then some ({ s with started := false }.goes k .over) else none
    | _ => none
  | .exits child => some (s.update child .exit)
  | .reaped child => some (s.update child .reap)
  | .interrupted k =>
    match s.calls[k]? with
    | some .over | none => none
    | some _ => some (s.goes k .over)

end ClientRun

/-! ## The law -/

/-- At most one child runs, every request goes to the one that does, and once the client is closed and no start and no close is in flight
no child runs and every transport is closed. -/
structure ClientRun.Sound (s : ClientRun) : Prop where
  one : s.runningChildren.length ≤ 1
  toIt : ∀ r ∈ s.sent, ∀ c ∈ r.running, c = r.child
  cleared : s.closed = true → (∀ call ∈ s.calls, call = .over) → ∀ child ∈ s.children, child.running = false ∧ child.closed = true

/-- A spawn that completes finds no transport and the client open, and a call that is interrupted is no close. -/
def ClientRun.Alone (s : ClientRun) : ClientAction → Prop
  | .spawns _ => s.transport = none ∧ s.closed = false
  | .interrupted k => ∀ child, s.calls[k]? ≠ some (.shuttingDown child) ∧ s.calls[k]? ≠ some (.closingTransport child) ∧
      s.calls[k]? ≠ some (.stopping child)
  | _ => True

namespace ClientRun

/-! ## What every run keeps -/

/-- What is so at every moment of a call: there is one child at most, it has number 0, and calls and requests are about it; a close waits
for the end of a read loop only where it has closed the transport, only a closed client closes, and an exit code is known only of a
child that has exited. -/
structure Core (s : ClientRun) : Prop where
  few : s.children.length ≤ 1
  childless : s.children = [] → s.transport = none ∧ s.process = none
  inRange : ∀ call ∈ s.calls, ∀ c, call.child? = some c → c < s.children.length
  shut : ∀ c, .closingTransport c ∈ s.calls → s.transportClosed c = true
  closing : ∀ call ∈ s.calls, call.closes = true → s.closed = true
  exited : ∀ child ∈ s.children, child.reaped = true → child.running = false
  sent : ∀ r ∈ s.sent, r.child = 0 ∧ ∀ c ∈ r.running, c = 0

/-- The child of a closed client is still recorded, and a close sees to it and to its transport; or its transport is closed, and it has
exited or a close waits for that. -/
def Cleaning (s : ClientRun) (child : RuntimeChild) : Prop :=
  (s.process = some 0 ∧ (.shuttingDown 0 ∈ s.calls ∨ child.closed = true ∧ .closingTransport 0 ∈ s.calls)) ∨
    (s.process = none ∧ child.closed = true ∧ (child.running = false ∨ .stopping 0 ∈ s.calls))

/-- In every run in which spawns complete alone. -/
structure Inv (s : ClientRun) : Prop extends Core s where
  whileOpen : s.closed = false → s.children ≠ [] → s.transport = some 0 ∧ s.process = some 0
  whileClosed : s.closed = true → s.transport = Option.none ∧ ∀ child, s.children[0]? = some child → s.Cleaning child

variable {s s' : ClientRun} {k : Nat} {call call' : ClientCall}

theorem mem_runningChildren {c : Nat} : c ∈ s.runningChildren ↔ ∃ child, s.children[c]? = some child ∧ child.running = true := by
  unfold runningChildren
  rw [List.mem_filter, List.mem_range]
  constructor
  · rintro ⟨-, hrunning⟩
    exact (Option.any_eq_true _ _).mp hrunning
  · rintro ⟨child, hchild, hrunning⟩
    exact ⟨(List.getElem?_eq_some_iff.mp hchild).1, (Option.any_eq_true _ _).mpr ⟨child, hchild, hrunning⟩⟩

theorem transportClosed_iff {c : Nat} : s.transportClosed c = true ↔ ∃ child, s.children[c]? = some child ∧ child.closed = true :=
  Option.any_eq_true _ _

theorem Core.runs (h : s.Core) {c : Nat} (hc : c ∈ s.runningChildren) : c = 0 := by
  obtain ⟨child, hchild, -⟩ := mem_runningChildren.mp hc
  have hlt := (List.getElem?_eq_some_iff.mp hchild).1
  have hfew := h.few
  omega

theorem Inv.sound (h : s.Inv) : s.Sound := by
  refine ⟨?_, ?_, ?_⟩
  · have hlength : s.runningChildren.length ≤ (List.range s.children.length).length := List.length_filter_le _ _
    rw [List.length_range] at hlength
    exact Nat.le_trans hlength h.few
  · intro r hr c hc
    obtain ⟨hchild, hrunning⟩ := h.sent r hr
    rw [hchild]
    exact hrunning c hc
  · intro hclosed hover child hchild
    obtain ⟨c, hc⟩ := List.getElem?_of_mem hchild
    have hlt := (List.getElem?_eq_some_iff.mp hc).1
    have hfew := h.few
    obtain rfl : c = 0 := by omega
    rcases (h.whileClosed hclosed).2 child hc with ⟨-, hcall | ⟨-, hcall⟩⟩ | ⟨-, hshut, hexited | hcall⟩
    · cases hover _ hcall
    · cases hover _ hcall
    · exact ⟨hexited, hshut⟩
    · cases hover _ hcall

theorem Inv.start : Inv {} := by
  refine ⟨⟨Nat.zero_le 1, fun _ => ⟨rfl, rfl⟩, ?_, ?_, ?_, ?_, ?_⟩, ?_, ?_⟩
  · exact fun _ hcall => absurd hcall List.not_mem_nil
  · exact fun _ hcall => absurd hcall List.not_mem_nil
  · exact fun _ hcall => absurd hcall List.not_mem_nil
  · exact fun _ hchild => absurd hchild List.not_mem_nil
  · exact fun _ hr => absurd hr List.not_mem_nil
  · exact fun _ hne => absurd rfl hne
  · intro hclosed
    cases hclosed

/-! ### A call goes on -/

/-- A call goes on with a child that there is; it waits for the end of a read loop only where the transport is closed. -/
theorem Core.goes (h : s.Core) (hrange : ∀ c, call'.child? = some c → c < s.children.length)
    (hshut : ∀ c, call' = .closingTransport c → s.transportClosed c = true) (hclosing : call'.closes = true → s.closed = true) :
    (s.goes k call').Core := by
  refine ⟨h.few, h.childless, ?_, ?_, ?_, h.exited, h.sent⟩
  · intro call hcall
    rcases List.mem_or_eq_of_mem_set hcall with hcall | rfl
    · exact h.inRange call hcall
    · exact hrange
  · intro c hcall
    rcases List.mem_or_eq_of_mem_set hcall with hcall | heq
    · exact h.shut c hcall
    · exact hshut c heq.symm
  · intro call hcall hcloses
    rcases List.mem_or_eq_of_mem_set hcall with hcall | rfl
    · exact h.closing call hcall hcloses
    · exact hclosing hcloses

/-- What changes only calls that are no awaits of `close`. -/
theorem Cleaning.goes {child : RuntimeChild} (h : s.Cleaning child) (hk : s.calls[k]? = some call) (hnot : call.closes = false) :
    (s.goes k call').Cleaning child := by
  have hkept : ∀ other : ClientCall, other.closes = true → other ∈ s.calls → other ∈ (s.goes k call').calls := by
    intro other hother hmem
    rcases InFlight.mem_goes hmem hk call' with rfl | hmem'
    · rw [hnot] at hother
      cases hother
    · exact hmem'
  rcases h with ⟨hprocess, hcall⟩ | ⟨hprocess, hshut, hcall⟩
  · exact Or.inl ⟨hprocess, hcall.imp (hkept _ rfl) (fun hboth => ⟨hboth.1, hkept _ rfl hboth.2⟩)⟩
  · exact Or.inr ⟨hprocess, hshut, hcall.imp id (hkept _ rfl)⟩

theorem Inv.goes (h : s.Inv) (hk : s.calls[k]? = some call) (hnot : call.closes = false)
    (hrange : ∀ c, call'.child? = some c → c < s.children.length) (hnot' : call'.closes = false) : (s.goes k call').Inv := by
  refine ⟨h.toCore.goes hrange ?_ ?_, h.whileOpen, ?_⟩
  · rintro c rfl
    cases hnot'
  · intro hcloses
    rw [hnot'] at hcloses
    cases hcloses
  · intro hclosed
    obtain ⟨htransport, hcleaning⟩ := h.whileClosed hclosed
    exact ⟨htransport, fun child hchild => (hcleaning child hchild).goes hk hnot⟩

theorem Inv.ends (h : s.Inv) (hk : s.calls[k]? = some call) (hnot : call.closes = false) : (s.goes k .over).Inv := by
  refine h.goes hk hnot ?_ rfl
  intro c hc
  cases hc

theorem Core.begins (h : s.Core) : s.begins.Core := by
  refine ⟨h.few, h.childless, ?_, ?_, ?_, h.exited, h.sent⟩
  · intro call hcall c hc
    rcases List.mem_append.mp hcall with hcall | hcall
    · exact h.inRange call hcall c hc
    · rw [List.mem_singleton.mp hcall] at hc
      cases hc
  · intro c hcall
    rcases List.mem_append.mp hcall with hcall | hcall
    · exact h.shut c hcall
    · cases List.mem_singleton.mp hcall
  · intro call hcall hcloses
    rcases List.mem_append.mp hcall with hcall | hcall
    · exact h.closing call hcall hcloses
    · rw [List.mem_singleton.mp hcall] at hcloses
      cases hcloses

theorem Inv.begins (h : s.Inv) : s.begins.Inv := by
  refine ⟨h.toCore.begins, h.whileOpen, ?_⟩
  intro hclosed
  obtain ⟨htransport, hcleaning⟩ := h.whileClosed hclosed
  refine ⟨htransport, fun child hchild => ?_⟩
  have hkept : ∀ other : ClientCall, other ∈ s.calls → other ∈ s.begins.calls := fun other hmem => List.mem_append_left _ hmem
  rcases hcleaning child hchild with ⟨hprocess, hcall⟩ | ⟨hprocess, hshut, hcall⟩
  · exact Or.inl ⟨hprocess, hcall.imp (hkept _) (fun hboth => ⟨hboth.1, hkept _ hboth.2⟩)⟩
  · exact Or.inr ⟨hprocess, hshut, hcall.imp id (hkept _)⟩

theorem begins_calls (s : ClientRun) : s.begins.calls[s.calls.length]? = some .over := List.getElem?_concat_length

/-! ### A child changes, and a request is sent -/

/-- A change of a child that keeps its transport closed, does not make it run, and knows an exit code only of what has exited. -/
structure Settles (f : RuntimeChild → RuntimeChild) : Prop where
  closed : ∀ child, child.closed = true → (f child).closed = true
  running : ∀ child, child.running = false → (f child).running = false
  exited : ∀ child, (child.reaped = true → child.running = false) → (f child).reaped = true → (f child).running = false

theorem update_child {c j : Nat} {f : RuntimeChild → RuntimeChild} {child : RuntimeChild} (h : (s.update c f).children[j]? = some child) :
    ∃ child', s.children[j]? = some child' ∧ (child = child' ∨ child = f child') := by
  change (s.children.modify c f)[j]? = some child at h
  rw [List.getElem?_modify] at h
  obtain ⟨child', hchild', rfl⟩ := Option.map_eq_some_iff.mp h
  refine ⟨child', hchild', ?_⟩
  split
  · exact Or.inr rfl
  · exact Or.inl rfl

theorem transportClosed_update {c j : Nat} {f : RuntimeChild → RuntimeChild} (hf : Settles f) (h : s.transportClosed j = true) :
    (s.update c f).transportClosed j = true := by
  obtain ⟨child, hchild, hclosed⟩ := transportClosed_iff.mp h
  refine transportClosed_iff.mpr ⟨if c = j then f child else child, ?_, ?_⟩
  · change (s.children.modify c f)[j]? = _
    rw [List.getElem?_modify, hchild]
    split <;> rfl
  · split
    · exact hf.closed child hclosed
    · exact hclosed

theorem Core.update (h : s.Core) {f : RuntimeChild → RuntimeChild} (hf : Settles f) (c : Nat) : (s.update c f).Core := by
  have hlength : (s.update c f).children.length = s.children.length := List.length_modify _ _ _
  refine ⟨?_, ?_, ?_, ?_, h.closing, ?_, h.sent⟩
  · rw [hlength]
    exact h.few
  · intro hnone
    refine h.childless ?_
    rw [← List.length_eq_zero_iff, ← hlength, hnone]
    rfl
  · rw [hlength]
    exact h.inRange
  · exact fun j hcall => transportClosed_update hf (h.shut j hcall)
  · intro child hchild
    obtain ⟨j, hj⟩ := List.getElem?_of_mem hchild
    obtain ⟨child', hchild', hor⟩ := update_child hj
    have hexited := h.exited child' (List.mem_of_getElem? hchild')
    rcases hor with rfl | rfl
    · exact hexited
    · exact hf.exited child' hexited

theorem Cleaning.settles {child : RuntimeChild} (h : s.Cleaning child) {f : RuntimeChild → RuntimeChild} (hf : Settles f) :
    s.Cleaning (f child) := by
  rcases h with ⟨hprocess, hcall⟩ | ⟨hprocess, hshut, hcall⟩
  · exact Or.inl ⟨hprocess, hcall.imp id (fun hboth => ⟨hf.closed child hboth.1, hboth.2⟩)⟩
  · exact Or.inr ⟨hprocess, hf.closed child hshut, hcall.imp (hf.running child) id⟩

theorem Inv.update (h : s.Inv) {f : RuntimeChild → RuntimeChild} (hf : Settles f) (c : Nat) : (s.update c f).Inv := by
  refine ⟨h.toCore.update hf c, ?_, ?_⟩
  · intro hopen hne
    refine h.whileOpen hopen ?_
    intro hnone
    apply hne
    change s.children.modify c f = []
    rw [hnone]
    exact List.modify_nil _ _
  · intro hclosed
    obtain ⟨htransport, hcleaning⟩ := h.whileClosed hclosed
    refine ⟨htransport, fun child hchild => ?_⟩
    obtain ⟨child', hchild', hor⟩ := update_child hchild
    have hcleaning' : s.Cleaning child' := hcleaning child' hchild'
    rcases hor with rfl | rfl
    · exact hcleaning'
    · exact hcleaning'.settles hf

theorem Core.send (h : s.Core) : (s.send 0).Core := by
  refine ⟨h.few, h.childless, h.inRange, h.shut, h.closing, h.exited, ?_⟩
  intro r hr
  rcases List.mem_append.mp hr with hr | hr
  · exact h.sent r hr
  · rw [List.mem_singleton.mp hr]
    exact ⟨rfl, fun c hc => h.runs hc⟩

theorem Inv.send (h : s.Inv) : (s.send 0).Inv := ⟨h.toCore.send, h.whileOpen, h.whileClosed⟩

/-! ### `start` and `request` -/

theorem Inv.transport_eq (h : s.Inv) {c : Nat} (hc : s.transport = some c) :
    c = 0 ∧ s.closed = false ∧ s.process = some 0 ∧ 0 < s.children.length := by
  have hopen : s.closed = false := by
    cases hclosed : s.closed with
    | false => rfl
    | true =>
      rw [(h.whileClosed hclosed).1] at hc
      cases hc
  have hne : s.children ≠ [] := by
    intro hnone
    rw [(h.childless hnone).1] at hc
    cases hc
  obtain ⟨htransport, hprocess⟩ := h.whileOpen hopen hne
  exact ⟨Option.some.inj (hc.symm.trans htransport), hopen, hprocess, List.length_pos_iff.mpr hne⟩

theorem Inv.connected (h : s.Inv) (next : AfterConnect) : (s.connected next).Inv := by
  cases next with
  | nothing => exact h
  | request =>
    simp only [ClientRun.connected]
    split
    · exact h
    · rename_i c hc
      obtain ⟨rfl, -⟩ := h.transport_eq hc
      split
      · exact h
      · split
        · exact h
        · exact h.send

theorem Inv.handshake (h : s.Inv) (hk : s.calls[k]? = some call) (hnot : call.closes = false) (hlength : 0 < s.children.length)
    (next : AfterConnect) : (s.handshake k 0 next).Inv := by
  unfold ClientRun.handshake
  split
  · exact h.ends hk hnot
  · have hreads : Settles RuntimeChild.read := ⟨fun _ hc => hc, fun _ hr => hr, fun _ he => he⟩
    have hsent : ((s.update 0 .read).send 0).Inv := (h.update hreads 0).send
    refine hsent.goes hk hnot ?_ rfl
    intro c hc
    cases hc
    exact (List.length_modify _ _ _).symm ▸ hlength

theorem Inv.begun (h : s.Inv) (next : AfterConnect) : (s.call next).Inv := by
  unfold ClientRun.call
  split
  · exact h.connected next
  · split
    · exact h
    · split
      · refine h.begins.goes (begins_calls s) rfl ?_ rfl
        intro c hc
        cases hc
      · rename_i c hc
        obtain ⟨rfl, -, -, hlength⟩ := h.transport_eq hc
        exact h.begins.handshake (begins_calls s) rfl hlength next

theorem Inv.spawns (h : s.Inv) (htransport : s.transport = none) (hopen : s.closed = false) (hk : s.calls[k]? = some call)
    (hnot : call.closes = false) (next : AfterConnect) :
    ({ s with
      process := some s.children.length
      transport := some s.children.length
      children := s.children ++ [({} : RuntimeChild)] }.handshake k s.children.length next).Inv := by
  have hnone : s.children = [] := by
    by_contra hne
    rw [(h.whileOpen hopen hne).1] at htransport
    cases htransport
  have hspawned : ({ s with
      process := some 0
      transport := some 0
      children := [({} : RuntimeChild)] } : ClientRun).Inv := by
    refine ⟨⟨Nat.le_refl 1, ?_, ?_, ?_, h.closing, ?_, h.sent⟩, fun _ _ => ⟨rfl, rfl⟩, ?_⟩
    · intro hsome
      cases hsome
    · intro call hcall c hc
      exact Nat.lt_of_lt_of_le (h.inRange call hcall c hc) (by rw [hnone]; exact Nat.zero_le 1)
    · intro c hcall
      have hclosed := h.closing _ hcall rfl
      rw [hopen] at hclosed
      cases hclosed
    · intro child hchild hreaped
      rw [List.mem_singleton.mp hchild] at hreaped
      cases hreaped
    · intro hclosed
      change s.closed = true at hclosed
      rw [hopen] at hclosed
      cases hclosed
  rw [hnone]
  exact hspawned.handshake hk hnot Nat.one_pos next

/-! ### `close` -/

/-- What a close finds of the child: it is still recorded, or its transport is closed and it has exited or another close waits for that. -/
def Ready (s : ClientRun) (child : RuntimeChild) : Prop :=
  s.process = some 0 ∨ s.process = none ∧ child.closed = true ∧ (child.running = false ∨ .stopping 0 ∈ s.calls)

theorem Cleaning.ready {child : RuntimeChild} (h : s.Cleaning child) : s.Ready child :=
  h.imp And.left id

theorem Core.stopChild (h : s.Core) (hclosed : s.closed = true) (htransport : s.transport = none) (hk : s.calls[k]? = some call)
    (hcall : call ≠ .stopping 0) (hready : ∀ child, s.children[0]? = some child → child.closed = true ∧ s.Ready child) :
    (s.stopChild k).Inv := by
  have hclosing : ∀ call : ClientCall, call.closes = true → s.closed = true := fun _ _ => hclosed
  unfold ClientRun.stopChild
  split
  · rename_i hprocess
    have hcore : ({ s with started := false } : ClientRun).Core := ⟨h.few, h.childless, h.inRange, h.shut, h.closing, h.exited, h.sent⟩
    refine ⟨hcore.goes (fun c hc => by cases hc) (fun c hc => by cases hc) (hclosing _), ?_, fun _ => ⟨htransport, ?_⟩⟩
    · intro hopen
      cases hclosed.symm.trans hopen
    · intro child hchild
      obtain ⟨hshut, hor⟩ := hready child hchild
      rcases hor with hsome | ⟨-, -, hexited⟩
      · cases hprocess.symm.trans hsome
      · refine Or.inr ⟨hprocess, hshut, hexited.imp id (fun hstopping => ?_)⟩
        exact (InFlight.mem_goes hstopping hk .over).resolve_left hcall.symm
  · rename_i c hprocess
    have hne : s.children ≠ [] := by
      intro hnone
      rw [(h.childless hnone).2] at hprocess
      cases hprocess
    have hlength := List.length_pos_iff.mpr hne
    obtain ⟨child, hchild⟩ : ∃ child, s.children[0]? = some child := ⟨_, List.getElem?_eq_getElem hlength⟩
    obtain rfl : c = 0 := by
      rcases (hready child hchild).2 with hsome | ⟨hnone, -⟩
      · exact Option.some.inj (hprocess.symm.trans hsome)
      · cases hprocess.symm.trans hnone
    have hcore : ({ s with process := none } : ClientRun).Core :=
      ⟨h.few, fun hnone => absurd hnone hne, h.inRange, h.shut, h.closing, h.exited, h.sent⟩
    refine ⟨hcore.goes ?_ (fun c hc => by cases hc) (hclosing _), ?_, fun _ => ⟨htransport, ?_⟩⟩
    · intro c hc
      cases hc
      exact hlength
    · intro hopen
      cases hclosed.symm.trans hopen
    · intro child hchild
      exact Or.inr ⟨rfl, (hready child hchild).1, Or.inr (List.mem_set (List.getElem?_eq_some_iff.mp hk).1 _)⟩

theorem Core.closeTransport (h : s.Core) (hclosed : s.closed = true) (htransport : s.transport = none) (hk : s.calls[k]? = some call)
    (hcall : call ≠ .stopping 0) (hlength : 0 < s.children.length) (hready : ∀ child, s.children[0]? = some child → s.Ready child) :
    (s.closeTransport k 0).Inv := by
  obtain ⟨child, hchild⟩ : ∃ child, s.children[0]? = some child := ⟨_, List.getElem?_eq_getElem hlength⟩
  unfold ClientRun.closeTransport
  split
  · rename_i hshut
    refine h.stopChild hclosed htransport hk hcall ?_
    intro child' hchild'
    obtain ⟨child'', hchild'', hclosed'⟩ := transportClosed_iff.mp hshut
    obtain rfl := Option.some.inj (hchild''.symm.trans hchild')
    exact ⟨hclosed', hready _ hchild'⟩
  · rename_i hopen
    have hprocess : s.process = some 0 := by
      rcases hready child hchild with hsome | ⟨-, hshut, -⟩
      · exact hsome
      · exact absurd (transportClosed_iff.mpr ⟨child, hchild, hshut⟩) hopen
    have hcloses : Settles RuntimeChild.close := ⟨fun _ _ => rfl, fun _ hr => hr, fun _ he => he⟩
    have hcore := h.update hcloses 0
    have hnow : ∀ child', (s.update 0 .close).children[0]? = some child' →
        child'.closed = true := by
      intro child' hchild'
      change (s.children.modify 0 _)[0]? = some child' at hchild'
      rw [List.getElem?_modify, hchild] at hchild'
      cases hchild'
      rfl
    split
    · refine ⟨hcore.goes ?_ ?_ (fun _ => hclosed), ?_, fun _ => ⟨htransport, ?_⟩⟩
      · intro c hc
        cases hc
        exact (List.length_modify _ _ _).symm ▸ hlength
      · intro c hc
        cases hc
        obtain ⟨child', hchild'⟩ : ∃ child', (s.update 0 .close).children[0]? = some child' :=
          ⟨_, List.getElem?_eq_getElem ((List.length_modify _ _ _).symm ▸ hlength)⟩
        exact transportClosed_iff.mpr ⟨child', hchild', hnow child' hchild'⟩
      · intro hopen'
        cases hclosed.symm.trans hopen'
      · intro child' hchild'
        exact Or.inl ⟨hprocess, Or.inr ⟨hnow child' hchild', List.mem_set (List.getElem?_eq_some_iff.mp hk).1 _⟩⟩
    · exact hcore.stopChild hclosed htransport hk hcall (fun child' hchild' => ⟨hnow child' hchild', Or.inl hprocess⟩)

theorem Inv.close (h : s.Inv) : s.close.Inv := by
  unfold ClientRun.close
  split
  · exact h
  · rename_i hclosed
    have hopen : s.closed = false := by simpa using hclosed
    have hbegun := h.toCore.begins
    have hcore : ({ s.begins with
        closed := true
        transport := none } : ClientRun).Core :=
      ⟨hbegun.few, fun hnone => ⟨rfl, (h.childless hnone).2⟩, hbegun.inRange, hbegun.shut, fun _ _ _ => rfl, hbegun.exited, hbegun.sent⟩
    have hslot := begins_calls s
    unfold ClientRun.closeWith
    split
    · rename_i htransport
      refine hcore.stopChild rfl rfl hslot (by simp) ?_
      intro child hchild
      have hne : s.children ≠ [] := List.ne_nil_of_mem (List.mem_of_getElem? hchild)
      rw [(h.whileOpen hopen hne).1] at htransport
      cases htransport
    · rename_i c hc
      obtain ⟨rfl, -, hprocess, hlength⟩ := h.transport_eq hc
      split
      · refine ⟨hcore.send.goes ?_ (fun c hc => by cases hc) (fun _ => rfl), ?_, fun _ => ⟨rfl, ?_⟩⟩
        · intro c hc
          cases hc
          exact hlength
        · intro hopen'
          cases hopen'
        · exact fun child _ => Or.inl ⟨hprocess, Or.inl (List.mem_set (List.getElem?_eq_some_iff.mp hslot).1 _)⟩
      · exact hcore.closeTransport rfl rfl hslot (by simp) hlength (fun child _ => Or.inl hprocess)

/-! ### A step -/

theorem Inv.child_eq (h : s.Inv) (hk : s.calls[k]? = some call) {c : Nat} (hc : call.child? = some c) : c = 0 ∧ 0 < s.children.length := by
  have hlt := h.inRange call (List.mem_of_getElem? hk) c hc
  have hfew := h.few
  omega

theorem Inv.shutDown (h : s.Inv) {c : Nat} (hk : s.calls[k]? = some (.shuttingDown c)) : (s.closeTransport k c).Inv := by
  obtain ⟨rfl, hlength⟩ := h.child_eq hk rfl
  have hclosed := h.closing _ (List.mem_of_getElem? hk) rfl
  obtain ⟨htransport, hcleaning⟩ := h.whileClosed hclosed
  exact h.toCore.closeTransport hclosed htransport hk (by simp) hlength (fun child hchild => (hcleaning child hchild).ready)

theorem Inv.readLoopEnds (h : s.Inv) {c : Nat} (hk : s.calls[k]? = some (.closingTransport c)) : (s.stopChild k).Inv := by
  obtain ⟨rfl, -⟩ := h.child_eq hk rfl
  have hmem := List.mem_of_getElem? hk
  have hclosed := h.closing _ hmem rfl
  obtain ⟨htransport, hcleaning⟩ := h.whileClosed hclosed
  refine h.toCore.stopChild hclosed htransport hk (by simp) ?_
  intro child hchild
  obtain ⟨child', hchild', hshut⟩ := transportClosed_iff.mp (h.shut 0 hmem)
  obtain rfl := Option.some.inj (hchild'.symm.trans hchild)
  exact ⟨hshut, (hcleaning _ hchild).ready⟩

theorem Inv.stops (h : s.Inv) {c : Nat} (hk : s.calls[k]? = some (.stopping c)) (hreaped : (s.children[c]?).any (·.reaped) = true) :
    ({ s with started := false }.goes k .over).Inv := by
  obtain ⟨rfl, -⟩ := h.child_eq hk rfl
  have hclosed := h.closing _ (List.mem_of_getElem? hk) rfl
  obtain ⟨htransport, hcleaning⟩ := h.whileClosed hclosed
  have hcore : ({ s with started := false } : ClientRun).Core :=
    ⟨h.few, h.childless, h.inRange, h.shut, h.closing, h.exited, h.sent⟩
  refine ⟨hcore.goes (fun c hc => by cases hc) (fun c hc => by cases hc) (fun _ => hclosed), ?_, fun _ => ⟨htransport, ?_⟩⟩
  · intro hopen
    cases hclosed.symm.trans hopen
  · intro child hchild
    obtain ⟨child', hchild', hcode⟩ := (Option.any_eq_true _ _).mp hreaped
    obtain rfl := Option.some.inj (hchild'.symm.trans hchild)
    rcases hcleaning _ hchild with ⟨hprocess, hcall | ⟨hshut, hcall⟩⟩ | ⟨hprocess, hshut, -⟩
    · exact Or.inl ⟨hprocess, Or.inl ((InFlight.mem_goes hcall hk .over).resolve_left (by simp))⟩
    · exact Or.inl ⟨hprocess, Or.inr ⟨hshut, (InFlight.mem_goes hcall hk .over).resolve_left (by simp)⟩⟩
    · exact Or.inr ⟨hprocess, hshut, Or.inl (h.exited _ (List.mem_of_getElem? hchild) hcode)⟩

/-- The handshake succeeds: the flag is set, and the call goes on. -/
theorem Inv.handshakes (h : s.Inv) {c : Nat} {next : AfterConnect} (hk : s.calls[k]? = some (.handshaking c next)) :
    (({ s with started := true }.goes k .over).connected next).Inv := by
  have hover := h.ends hk rfl
  have hstarted : ({ s with started := true }.goes k .over).Inv :=
    ⟨⟨hover.few, hover.childless, hover.inRange, hover.shut, hover.closing, hover.exited, hover.sent⟩, hover.whileOpen, hover.whileClosed⟩
  exact hstarted.connected next

theorem Inv.step {a : ClientAction} (h : s.Inv) (hok : s.Alone a) (hstep : s.step a = some s') : s'.Inv := by
  cases a with
  | call next =>
    obtain rfl := Option.some.inj hstep
    exact h.begun next
  | close =>
    obtain rfl := Option.some.inj hstep
    exact h.close
  | spawns k =>
    simp only [ClientRun.step] at hstep
    split at hstep
    · rename_i next hk
      obtain rfl := Option.some.inj hstep
      exact h.spawns hok.1 hok.2 hk rfl next
    · cases hstep
  | spawnFails k =>
    simp only [ClientRun.step] at hstep
    split at hstep
    · rename_i hk
      obtain rfl := Option.some.inj hstep
      exact h.ends hk rfl
    · cases hstep
  | handshakes k =>
    simp only [ClientRun.step] at hstep
    split at hstep
    · rename_i hk
      obtain rfl := Option.some.inj hstep
      exact h.handshakes hk
    · cases hstep
  | handshakeFails k =>
    simp only [ClientRun.step] at hstep
    split at hstep
    · rename_i hk
      obtain rfl := Option.some.inj hstep
      exact h.ends hk rfl
    · cases hstep
  | shutDown k =>
    simp only [ClientRun.step] at hstep
    split at hstep
    · rename_i hk
      obtain rfl := Option.some.inj hstep
      exact h.shutDown hk
    · cases hstep
  | readLoopEnds k =>
    simp only [ClientRun.step] at hstep
    split at hstep
    · rename_i hk
      obtain rfl := Option.some.inj hstep
      exact h.readLoopEnds hk
    · cases hstep
  | stops k =>
    simp only [ClientRun.step] at hstep
    split at hstep
    · rename_i hk
      split at hstep
      · rename_i hreaped
        obtain rfl := Option.some.inj hstep
        exact h.stops hk hreaped
      · cases hstep
    · cases hstep
  | exits c =>
    obtain rfl := Option.some.inj hstep
    have hexits : Settles RuntimeChild.exit := ⟨fun _ hc => hc, fun _ _ => rfl, fun _ _ _ => rfl⟩
    exact h.update hexits c
  | reaped c =>
    obtain rfl := Option.some.inj hstep
    have hreaps : Settles RuntimeChild.reap := by
      refine ⟨fun _ hc => hc, fun _ hr => hr, ?_⟩
      intro child _ hreaped
      simpa [RuntimeChild.reap] using hreaped
    exact h.update hreaps c
  | interrupted k =>
    simp only [ClientRun.step] at hstep
    split at hstep
    · cases hstep
    · cases hstep
    · rename_i call _ hk
      obtain rfl := Option.some.inj hstep
      refine h.ends hk ?_
      cases call with
      | shuttingDown c => exact absurd hk (hok c).1
      | closingTransport c => exact absurd hk (hok c).2.1
      | stopping c => exact absurd hk (hok c).2.2
      | spawning _ => rfl
      | handshaking _ _ => rfl
      | «over» => rfl

end ClientRun

/-- In every run in which a spawn completes only where there is no transport and the client is open, and no close is interrupted, at most
one child runs, every request goes to it, and once the client is closed and no start and no close is in flight, no child runs and every
transport is closed. -/
theorem client_owns_one_child {s : ClientRun} (h : Machine.Reach ClientRun.step ClientRun.Alone {} s) : s.Sound := by
  have hinv : s.Inv := h.invariant ClientRun.Inv.start (fun _ _ _ hs hok hstep => hs.step hok hstep)
  exact hinv.sound

/-- A request starts the client and is sent, and the client is closed. -/
theorem client_owns_one_child_closed :
    ∃ s : ClientRun, s.Sound ∧ s.closed = true ∧ s.children = [⟨false, true, false, true⟩] ∧
      s.sent = [⟨0, [0]⟩, ⟨0, [0]⟩, ⟨0, [0]⟩] := by
  have hstart : Machine.Reach ClientRun.step ClientRun.Alone {} {} := .start
  have hbegun := hstart.next (ClientAction.call .request) trivial rfl
  have hspawned := hbegun.next (ClientAction.spawns 0) ⟨rfl, rfl⟩ rfl
  have hsent := hspawned.next (ClientAction.handshakes 0) trivial rfl
  have hclosing := (hsent.next ClientAction.close trivial rfl).next (ClientAction.shutDown 1) trivial rfl
  have hstopping := hclosing.next (ClientAction.readLoopEnds 1) trivial rfl
  have hexited := (hstopping.next (ClientAction.exits 0) trivial rfl).next (ClientAction.reaped 0) trivial rfl
  exact ⟨_, client_owns_one_child (hexited.next (ClientAction.stops 1) trivial rfl), rfl, rfl, rfl⟩

/-- Two first requests overlap, and two children run. -/
theorem client_owns_two_children : ∃ s : ClientRun, Machine.exec ClientRun.step {}
    [.call .request, .call .request, .spawns 0, .spawns 1, .handshakes 0, .handshakes 1] = some s ∧ s.runningChildren = [0, 1] ∧
      ¬s.Sound := by
  refine ⟨_, rfl, rfl, ?_⟩
  intro hsound
  have hone := hsound.one
  revert hone
  decide

end Pydsh
