import Pydsh.Lib.Dict
import Pydsh.Lib.InFlight
import Pydsh.Lib.Machine

/-!
# The harness

`boot/harness.py` over `mount_profile` and `unmount` of `boot/profile.py`: any number of calls in flight, each suspended at a mount or
at a dispose. `start` tests for a context, mounts the profile plugin by plugin and records the context at the end. Where no start
completes when a context is there or the harness is closed, and nothing but an `Exception` ends a start early, there is one context, all
agents live on it, and closing leaves nothing mounted (`harness_assembles_once`).
-/

namespace Pydsh

/-- A mounted plugin: its context, and its place in the profile. -/
structure Fiber where
  context : Nat
  index : Nat
  deriving DecidableEq

/-- An agent: the context it lives on, and its session. -/
structure HarnessAgent where
  context : Nat
  session : String
  deriving DecidableEq

/-- What a call does once the context is there: `start` nothing, `run` and `send` ask for the agent of a session. -/
inductive AfterStart where
  | nothing
  | agentFor (session : String)

/-- A call in flight: a start at a mount, with what it has mounted and how many plugins come after this one; a start that takes off what
it mounted; a close; or a call that is over. -/
inductive HarnessCall where
  | mounting (context : Nat) (mounted : List Fiber) (left : Nat) (next : AfterStart)
  | unwinding (left : List Fiber)
  | closing (left : List Fiber)
  | over

/-- The fibers a call has to see to. -/
def HarnessCall.fibers : HarnessCall → List Fiber
  | .mounting _ mounted _ _ => mounted
  | .unwinding left | .closing left => left
  | .over => []

/-- What the profile mounts that an agent needs: a registry of agents, and a session store. -/
structure HarnessProfile where
  agents : Bool
  sessions : Bool

/-- A `Harness` with its calls in flight, the fibers that are mounted, the contexts that were made and those that were assembled, and the
agents that were made and handed out. -/
structure HarnessRun where
  ctx : Option Nat := none
  mounted : List Fiber := []
  agents : Dict String HarnessAgent := .empty
  closed : Bool := false
  calls : List HarnessCall := []
  live : List Fiber := []
  contexts : Nat := 0
  assembled : List Nat := []
  created : List HarnessAgent := []
  handedOut : List HarnessAgent := []

/-- What happens: a call of `start`, `run` or `send`, with the number of entries the profile resolves to, `none` where it does not; a call
of `close`; the plugin a start waits for is mounted; it fails with an `Exception`; a fiber that a call waits for is disposed of; a call
with none left ends; or something else than an `Exception`, as the cancellation of its task, ends a call. -/
inductive HarnessAction where
  | start (next : AfterStart) (entries : Option Nat)
  | close
  | mounts (call : Nat)
  | mountFails (call : Nat)
  | disposes (call : Nat)
  | ends (call : Nat)
  | interrupted (call : Nat)

namespace HarnessRun

variable (p : HarnessProfile)

/-- The rest of `_agent_for`, once the context is there. -/
def agentFor (s : HarnessRun) (context : Nat) (session : String) : HarnessRun :=
  match s.agents.get? session with
  | some existing => { s with handedOut := s.handedOut ++ [existing] }
  | none =>
    if p.agents && p.sessions then
      { s with
        agents := s.agents.set session ⟨context, session⟩
        created := s.created ++ [⟨context, session⟩]
        handedOut := s.handedOut ++ [⟨context, session⟩] }
    else s

/-- What a call does when `start` has returned a context to it. -/
def started (s : HarnessRun) (context : Nat) : AfterStart → HarnessRun
  | .nothing => s
  | .agentFor session => s.agentFor p context session

/-- The end of `start`: what was mounted, and the context, are recorded. -/
def assemble (s : HarnessRun) (context : Nat) (mounted : List Fiber) (next : AfterStart) : HarnessRun :=
  { s with
    mounted
    ctx := some context
    assembled := s.assembled ++ [context] }.started p context next

/-- `start` up to its first mount. -/
def start (s : HarnessRun) (next : AfterStart) (entries : Option Nat) : HarnessRun :=
  match s.ctx with
  | some context => s.started p context next
  | none =>
    if s.closed then s
    else
      match entries with
      | none => s
      | some 0 => { s with contexts := s.contexts + 1 }.assemble p s.contexts [] next
      | some (left + 1) =>
        { s with
          contexts := s.contexts + 1
          calls := s.calls ++ [.mounting s.contexts [] left next] }

/-- `close` up to its first dispose. -/
def close (s : HarnessRun) : HarnessRun :=
  if s.closed then s
  else
    { s with
      closed := true
      agents := .empty
      ctx := none
      mounted := []
      calls := s.calls ++ [.closing s.mounted.reverse] }

/-- What an action does; `none` where it cannot happen. -/
def step (s : HarnessRun) : HarnessAction → Option HarnessRun
  | .start next entries => some (s.start p next entries)
  | .close => some s.close
  | .mounts k =>
    match s.calls[k]? with
    | some (.mounting context mounted left next) =>
      let fiber : Fiber := ⟨context, mounted.length⟩
      match left with
      | 0 => some
        ({ s with
          live := s.live ++ [fiber]
          calls := s.calls.set k .over }.assemble p context (mounted ++ [fiber]) next)
      | left + 1 => some
        { s with
          live := s.live ++ [fiber]
          calls := s.calls.set k (.mounting context (mounted ++ [fiber]) left next) }
    | _ => none
  | .mountFails k =>
    match s.calls[k]? with
    | some (.mounting _ mounted _ _) => some { s with calls := s.calls.set k (.unwinding mounted.reverse) }
    | _ => none
  | .disposes k =>
    match s.calls[k]? with
    | some (.unwinding (fiber :: left)) => some
      { s with
        live := s.live.filter (· ≠ fiber)
        calls := s.calls.set k (.unwinding left) }
    | some (.closing (fiber :: left)) => some
      { s with
        live := s.live.filter (· ≠ fiber)
        calls := s.calls.set k (.closing left) }
    | _ => none
  | .ends k =>
    match s.calls[k]? with
    | some (.unwinding []) | some (.closing []) => some { s with calls := s.calls.set k .over }
    | _ => none
  | .interrupted k =>
    match s.calls[k]? with
    | some .over | none => none
    | some _ => some { s with calls := s.calls.set k .over }

end HarnessRun

/-! ## The law -/

/-- At most one context is assembled, every agent handed out lives on it, a session has one agent, and nothing is mounted once the harness
is closed and no call is in flight. -/
structure HarnessRun.Sound (s : HarnessRun) : Prop where
  one : s.assembled.length ≤ 1
  living : ∀ agent ∈ s.handedOut, agent.context ∈ s.assembled
  single : (s.created.map (·.session)).Nodup
  cleared : s.closed = true → (∀ call ∈ s.calls, call = .over) → s.live = []

/-- A start that completes finds no context and the harness open, and a call that is interrupted has no fibers to see to. -/
def HarnessRun.Alone (s : HarnessRun) : HarnessAction → Prop
  | .mounts k => ∀ context mounted next, s.calls[k]? = some (.mounting context mounted 0 next) → s.ctx = none ∧ s.closed = false
  | .interrupted k => ∀ call, s.calls[k]? = some call → call.fibers = []
  | _ => True

namespace HarnessRun

/-- In every run in which starts complete alone. -/
structure Inv (s : HarnessRun) : Prop where
  seen : ∀ fiber ∈ s.live, fiber ∈ s.mounted ∨ InFlight.Has HarnessCall.fibers s.calls fiber
  unmounted : s.ctx = none → s.mounted = []
  context : ∀ c, s.ctx = some c → s.assembled = [c] ∧ s.closed = false
  fresh : s.ctx = none → s.closed = false → s.assembled = []
  one : s.assembled.length ≤ 1
  known : ∀ session agent, s.agents.get? session = some agent → agent ∈ s.created
  kept : s.closed = false → ∀ agent ∈ s.created, s.agents.get? agent.session = some agent
  living : ∀ agent ∈ s.created, agent.context ∈ s.assembled
  single : (s.created.map (·.session)).Nodup
  handed : ∀ agent ∈ s.handedOut, agent ∈ s.created

variable {p : HarnessProfile} {s s' : HarnessRun}

theorem Inv.sound (h : s.Inv) : s.Sound := by
  refine ⟨h.one, fun agent hagent => h.living agent (h.handed agent hagent), h.single, ?_⟩
  intro hclosed hover
  have hctx : s.ctx = none := by
    cases hctx : s.ctx with
    | none => rfl
    | some c =>
      have hopen := (h.context c hctx).2
      rw [hclosed] at hopen
      cases hopen
  refine List.eq_nil_iff_forall_not_mem.mpr ?_
  intro fiber hfiber
  rcases h.seen fiber hfiber with hmounted | ⟨call, hcall, howned⟩
  · rw [h.unmounted hctx] at hmounted
    cases hmounted
  · rw [hover call hcall] at howned
    cases howned

theorem Inv.start : Inv {} := by
  refine ⟨?_, fun _ => rfl, ?_, fun _ _ => rfl, Nat.zero_le 1, ?_, ?_, ?_, List.nodup_nil, ?_⟩
  · exact fun _ hfiber => absurd hfiber List.not_mem_nil
  · intro c hc
    cases hc
  · intro session agent hagent
    cases hagent
  · exact fun _ _ hagent => absurd hagent List.not_mem_nil
  · exact fun _ hagent => absurd hagent List.not_mem_nil
  · exact fun _ hagent => absurd hagent List.not_mem_nil

/-- A call is handed the agent of its session, which is made if there is none. -/
theorem Inv.agentFor (h : s.Inv) {context : Nat} (hctx : s.ctx = some context) (session : String) :
    (s.agentFor p context session).Inv := by
  obtain ⟨hassembled, hopen⟩ := h.context context hctx
  unfold HarnessRun.agentFor
  split
  · rename_i existing hexisting
    refine ⟨h.seen, h.unmounted, h.context, h.fresh, h.one, h.known, h.kept, h.living, h.single, ?_⟩
    intro agent hagent
    rcases List.mem_append.mp hagent with hagent | hagent
    · exact h.handed agent hagent
    · rw [List.mem_singleton.mp hagent]
      exact h.known session existing hexisting
  · rename_i hnone
    split
    · have hnew : ∀ agent ∈ s.created, agent.session ≠ session := by
        intro agent hagent heq
        have hkept := h.kept hopen agent hagent
        rw [heq, hnone] at hkept
        cases hkept
      refine ⟨h.seen, h.unmounted, h.context, h.fresh, h.one, ?_, ?_, ?_, ?_, ?_⟩
      · intro session' agent hagent
        change (s.agents.set session _).get? session' = _ at hagent
        rw [Dict.get?_set] at hagent
        split at hagent
        · cases hagent
          exact List.mem_append_right _ (List.mem_singleton_self _)
        · exact List.mem_append_left _ (h.known session' agent hagent)
      · intro _ agent hagent
        change (s.agents.set session _).get? agent.session = _
        rcases List.mem_append.mp hagent with hagent | hagent
        · rw [Dict.get?_set, if_neg (hnew agent hagent)]
          exact h.kept hopen agent hagent
        · rw [List.mem_singleton.mp hagent]
          exact Dict.get?_set_self _ _ _
      · intro agent hagent
        rcases List.mem_append.mp hagent with hagent | hagent
        · exact h.living agent hagent
        · rw [List.mem_singleton.mp hagent, hassembled]
          exact List.mem_singleton_self _
      · rw [List.map_append, List.nodup_append']
        refine ⟨h.single, List.nodup_singleton _, ?_⟩
        intro name hname hname'
        obtain ⟨agent, hagent, rfl⟩ := List.mem_map.mp hname
        exact hnew agent hagent (List.mem_singleton.mp hname')
      · intro agent hagent
        rcases List.mem_append.mp hagent with hagent | hagent
        · exact List.mem_append_left _ (h.handed agent hagent)
        · exact List.mem_append_right _ hagent
    · exact h

theorem Inv.started (h : s.Inv) {context : Nat} (hctx : s.ctx = some context) (next : AfterStart) : (s.started p context next).Inv := by
  cases next with
  | nothing => exact h
  | agentFor session => exact h.agentFor hctx session

/-- A start completes alone, and leaves what it mounted to the harness. -/
theorem Inv.assemble (h : s.Inv) (hctx : s.ctx = none) (hopen : s.closed = false) (context : Nat) {mounted : List Fiber}
    {live : List Fiber} {calls : List HarnessCall} (hseen : ∀ fiber ∈ live, fiber ∈ mounted ∨ InFlight.Has HarnessCall.fibers calls fiber)
    (contexts : Nat) (next : AfterStart) :
    ({ s with live, calls, contexts }.assemble p context mounted next).Inv := by
  refine Inv.started ?_ rfl next
  have hassembled := h.fresh hctx hopen
  have hcreated : s.created = [] := by
    refine List.eq_nil_iff_forall_not_mem.mpr ?_
    intro agent hagent
    have hliving := h.living agent hagent
    rw [hassembled] at hliving
    cases hliving
  refine ⟨hseen, ?_, ?_, ?_, ?_, h.known, h.kept, ?_, h.single, h.handed⟩
  · intro hnone
    cases hnone
  · intro c hc
    cases hc
    exact ⟨by rw [hassembled]; rfl, hopen⟩
  · intro hnone
    cases hnone
  · rw [hassembled]
    exact Nat.le_refl 1
  · intro agent hagent
    rw [hcreated] at hagent
    cases hagent

/-- Calls go on and fibers are disposed of, and each that is live is still seen to. -/
theorem Inv.goes (h : s.Inv) {calls : List HarnessCall} {live : List Fiber}
    (hseen : ∀ fiber ∈ live, fiber ∈ s.mounted ∨ InFlight.Has HarnessCall.fibers calls fiber) (contexts : Nat) :
    ({ s with live, calls, contexts } : HarnessRun).Inv :=
  ⟨hseen, h.unmounted, h.context, h.fresh, h.one, h.known, h.kept, h.living, h.single, h.handed⟩

theorem Inv.begin (h : s.Inv) (next : AfterStart) (entries : Option Nat) : (s.start p next entries).Inv := by
  unfold HarnessRun.start
  split
  · rename_i context hctx
    exact h.started hctx next
  · rename_i hctx
    split
    · exact h
    · rename_i hclosed
      have hopen : s.closed = false := by simpa using hclosed
      split
      · exact h
      · have hseen : ∀ fiber ∈ s.live, fiber ∈ ([] : List Fiber) ∨ InFlight.Has HarnessCall.fibers s.calls fiber := by
          intro fiber hfiber
          rw [← h.unmounted hctx]
          exact h.seen fiber hfiber
        exact h.assemble hctx hopen s.contexts hseen (s.contexts + 1) next
      · refine h.goes ?_ (s.contexts + 1)
        intro fiber hfiber
        exact (h.seen fiber hfiber).imp id (fun hhas => hhas.begins _)

theorem Inv.close (h : s.Inv) : s.close.Inv := by
  unfold HarnessRun.close
  split
  · exact h
  · refine ⟨?_, fun _ => rfl, ?_, ?_, h.one, ?_, ?_, h.living, h.single, h.handed⟩
    · intro fiber hfiber
      right
      rcases h.seen fiber hfiber with hmounted | hhas
      · exact InFlight.Has.of_begins s.calls (List.mem_reverse.mpr hmounted)
      · exact hhas.begins _
    · intro c hc
      cases hc
    · intro _ hopen
      cases hopen
    · intro session agent hagent
      cases hagent
    · intro hopen
      cases hopen

/-- A fiber is disposed of, and its call goes on with the rest. -/
theorem Inv.disposes (h : s.Inv) {k : Nat} {call call' : HarnessCall} {fiber : Fiber} {left : List Fiber} (hk : s.calls[k]? = some call)
    (hfibers : call.fibers = fiber :: left) (hfibers' : call'.fibers = left) :
    ({ s with
        live := s.live.filter (· ≠ fiber)
        calls := s.calls.set k call' } : HarnessRun).Inv := by
  refine h.goes ?_ s.contexts
  intro other hother
  obtain ⟨hlive, hne⟩ := List.mem_filter.mp hother
  refine (h.seen other hlive).imp id (fun hhas => hhas.kept hk ?_)
  intro howns
  rw [hfibers] at howns
  rw [hfibers']
  exact (List.mem_cons.mp howns).resolve_left (by simpa using hne)

theorem Inv.turns (h : s.Inv) {k : Nat} {call call' : HarnessCall} (hk : s.calls[k]? = some call)
    (hfibers : ∀ fiber ∈ call.fibers, fiber ∈ call'.fibers) : ({ s with calls := s.calls.set k call' } : HarnessRun).Inv := by
  refine h.goes ?_ s.contexts
  intro fiber hfiber
  exact (h.seen fiber hfiber).imp id (fun hhas => hhas.kept hk (hfibers fiber))

theorem Inv.mounts (h : s.Inv) {k : Nat} (hok : s.Alone (.mounts k)) (hstep : s.step p (.mounts k) = some s') : s'.Inv := by
  simp only [HarnessRun.step] at hstep
  split at hstep
  · rename_i context mounted left next hk
    cases left with
    | zero =>
      obtain rfl := Option.some.inj hstep
      obtain ⟨hctx, hopen⟩ := hok context mounted next hk
      refine h.assemble hctx hopen context ?_ s.contexts next
      intro fiber hfiber
      rcases List.mem_append.mp hfiber with hfiber | hfiber
      · rcases h.seen fiber hfiber with hmounted | hhas
        · rw [h.unmounted hctx] at hmounted
          cases hmounted
        · exact (hhas.goes hk .over).imp (List.mem_append_left _) id
      · exact Or.inl (List.mem_append_right _ hfiber)
    | succ left =>
      obtain rfl := Option.some.inj hstep
      refine h.goes ?_ s.contexts
      intro fiber hfiber
      rcases List.mem_append.mp hfiber with hfiber | hfiber
      · exact (h.seen fiber hfiber).imp id (fun hhas => hhas.kept hk (List.mem_append_left _))
      · exact Or.inr (InFlight.Has.of_goes hk (List.mem_append_right _ hfiber))
  · cases hstep

theorem Inv.step {a : HarnessAction} (h : s.Inv) (hok : s.Alone a) (hstep : s.step p a = some s') : s'.Inv := by
  cases a with
  | start next entries =>
    obtain rfl := Option.some.inj hstep
    exact h.begin next entries
  | close =>
    obtain rfl := Option.some.inj hstep
    exact h.close
  | mounts k => exact h.mounts hok hstep
  | mountFails k =>
    simp only [HarnessRun.step] at hstep
    split at hstep
    · rename_i hk
      obtain rfl := Option.some.inj hstep
      exact h.turns hk (fun fiber hfiber => List.mem_reverse.mpr hfiber)
    · cases hstep
  | disposes k =>
    simp only [HarnessRun.step] at hstep
    split at hstep
    · rename_i hk
      obtain rfl := Option.some.inj hstep
      exact h.disposes hk rfl rfl
    · rename_i hk
      obtain rfl := Option.some.inj hstep
      exact h.disposes hk rfl rfl
    · cases hstep
  | ends k =>
    simp only [HarnessRun.step] at hstep
    split at hstep
    · rename_i hk
      obtain rfl := Option.some.inj hstep
      exact h.turns hk (fun _ hfiber => hfiber)
    · rename_i hk
      obtain rfl := Option.some.inj hstep
      exact h.turns hk (fun _ hfiber => hfiber)
    · cases hstep
  | interrupted k =>
    simp only [HarnessRun.step] at hstep
    split at hstep
    · cases hstep
    · cases hstep
    · rename_i call _ hk
      obtain rfl := Option.some.inj hstep
      refine h.turns hk ?_
      intro fiber hfiber
      rw [hok call hk] at hfiber
      exact hfiber

end HarnessRun

/-- In every run in which a start completes only where there is no context and the harness is open, and nothing is interrupted with
fibers in hand, one context is assembled at most, all agents live on it, each session has one agent, and closing leaves nothing
mounted. -/
theorem harness_assembles_once {p : HarnessProfile} {s : HarnessRun}
    (h : Machine.Reach (HarnessRun.step p) HarnessRun.Alone {} s) : s.Sound := by
  have hinv : s.Inv := h.invariant HarnessRun.Inv.start (fun _ _ _ hs hok hstep => hs.step hok hstep)
  exact hinv.sound

/-- A session runs, and the harness is closed. -/
theorem harness_assembles_once_closed : ∃ s : HarnessRun, s.Sound ∧ s.closed = true ∧ s.live = [] ∧ s.handedOut = [⟨0, "s1"⟩] := by
  have hstart : Machine.Reach (HarnessRun.step ⟨true, true⟩) HarnessRun.Alone {} {} := .start
  have hbegun := hstart.next (HarnessAction.start (.agentFor "s1") (some 1)) trivial rfl
  have hmounted := hbegun.next (HarnessAction.mounts 0) (fun _ _ _ _ => ⟨rfl, rfl⟩) rfl
  have hclosed := (hmounted.next HarnessAction.close trivial rfl).next (HarnessAction.disposes 1) trivial rfl
  exact ⟨_, harness_assembles_once (hclosed.next (HarnessAction.ends 1) trivial rfl), rfl, rfl, rfl⟩

/-- Two starts overlap: both assemble a context, and closing takes off the plugin of the last only. -/
theorem harness_assembles_twice : ∃ s : HarnessRun, Machine.exec (HarnessRun.step ⟨true, true⟩) {}
    [.start .nothing (some 1), .start .nothing (some 1), .mounts 0, .mounts 1, .close, .disposes 2, .ends 2] = some s ∧
      s.assembled = [0, 1] ∧ s.live = [⟨0, 0⟩] ∧ ¬s.Sound := by
  refine ⟨_, rfl, rfl, rfl, ?_⟩
  intro hsound
  have hone := hsound.one
  revert hone
  decide

end Pydsh
