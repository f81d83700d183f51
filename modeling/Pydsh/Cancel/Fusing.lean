import Pydsh.Cancel.Signal
import Pydsh.Lib.Dict
import Pydsh.Lib.Machine

/-!
# Agents and the signals they are fused from

`AgentLoop` of `agent/registry.py` and the lifetime of an `Agent` over `cancel.py`. Listeners are run inside the call that aborts, and
whatever they do comes before the next listener: the calls in progress are a stack of frames, code acts at any time, and `proceed` lets
the innermost call go on.
-/

namespace Pydsh

/-- A call in progress: an abort, with the listeners it has still to run; `create_agent` while the session-start listeners run;
`Agent.dispose` behind its abort; `_shutdown` behind its abort, with the agents it has still to dispose once it has listed them. -/
inductive CancelFrame where
  | aborting (signal : Nat) (rest : List Listener)
  | creating (agent : Nat)
  | disposing (agent : Nat)
  | closing (rest : Option (List Nat))

/-- An agent of the loop: the signal `create_agent` fuses and the one the agent fuses from it. -/
structure LoopAgent where
  session : String
  between : Nat
  lifetime : Nat

/-- A loop: its signals, the agents there are by number, those that were disposed, and `_agents`. Signal 0 is `_teardown`. -/
structure AgentsState where
  signals : Signals := { fresh := 1 }
  agents : List LoopAgent := []
  disposed : List Nat := []
  held : Dict String Nat := .empty
  stack : List CancelFrame := []

/-- What code does, inside a listener or not. -/
inductive CancelAction where
  | newSignal
  | listen (signal code : Nat)
  | detach (signal code : Nat)
  | fuse (sources : List (Option Nat))
  | dispose (signal : Nat)
  | abort (signal : Nat) (reason : PyValue)
  | createAgent (session : String) (owner : Option Nat)
  | disposeAgent (agent : Nat)
  | unmount
  | proceed
  /-- What is no `Exception` leaves some calls. -/
  | unwind (calls : Nat)

namespace AgentsState

/-- Signal 0. -/
def teardown : Nat := 0

/-- `signal.abort(reason)`, up to its loop. -/
def abort (st : AgentsState) (s : Nat) (reason : PyValue) : AgentsState :=
  if (st.signals.at_ s).aborted then st
  else { st with
    signals := st.signals.fire s reason
    stack := .aborting s (st.signals.at_ s).listeners :: st.stack }

/-- A call of `signal.abort(reason)`. -/
def abortBy (st : AgentsState) (s : Nat) (reason : PyValue) : AgentsState :=
  if (st.signals.at_ s).aborted then st
  else { st with signals := st.signals.modify s (fun signal => signal.reached [reason]) }.abort s reason

/-- `create_agent`, up to the session-start listeners. -/
def createAgent (st : AgentsState) (session : String) (owner : Option Nat) : AgentsState :=
  let between := st.signals.fresh
  let fused := st.signals.any [owner, some teardown]
  let lifetime := fused.fresh
  { st with
    signals := fused.any [some between]
    agents := st.agents ++ [{ session, between, lifetime }]
    stack := .creating st.agents.length :: st.stack }

/-- `Agent.dispose`, up to the loop of its abort. -/
def disposeAgent (st : AgentsState) (agent : Nat) (record : LoopAgent) : AgentsState :=
  { st with stack := .disposing agent :: st.stack }.abortBy record.lifetime (.str "agent disposed")

/-- The innermost call goes on. -/
def proceed (st : AgentsState) : Option AgentsState :=
  match st.stack with
  | [] => none
  | .aborting _ [] :: stack => some { st with stack }
  | .aborting s (listener :: rest) :: stack =>
    let st := { st with
      signals := st.signals.modify s (fun signal => signal.run listener)
      stack := .aborting s rest :: stack }
    match listener.callback with
    | .code _ => some st
    | .fused fused => some (st.abort fused (st.signals.at_ s).reason)
  | .creating agent :: stack =>
    st.agents[agent]?.map (fun record => { st with
      held := st.held.set record.session agent
      stack })
  | .disposing agent :: stack =>
    st.agents[agent]?.map (fun record => { st with
      signals := st.signals.dispose record.lifetime
      disposed := agent :: st.disposed
      stack })
  | .closing none :: stack => some { st with stack := .closing (some (st.held.entries.map Prod.snd)) :: stack }
  | .closing (some (agent :: rest)) :: stack =>
    st.agents[agent]?.map (fun record => { st with stack := .closing (some rest) :: stack }.disposeAgent agent record)
  | .closing (some []) :: stack => some { st with
      held := .empty
      stack }

/-- One action; `none` where there is no such signal, agent or call. -/
def step (st : AgentsState) : CancelAction → Option AgentsState
  | .newSignal => some { st with signals := st.signals.create }
  | .listen s code =>
    if s < st.signals.fresh then
      some { st with signals := st.signals.modify s (fun signal => signal.listen (.code code)) }
    else none
  | .detach s code => some { st with signals := st.signals.detach s code }
  | .fuse sources =>
    if ∀ source ∈ sources, ∀ s ∈ source, s < st.signals.fresh then some { st with signals := st.signals.any sources }
    else none
  | .dispose s => some { st with signals := st.signals.dispose s }
  | .abort s reason => if s < st.signals.fresh then some (st.abortBy s reason) else none
  | .createAgent session owner =>
    if ∀ s ∈ owner, s < st.signals.fresh then some (st.createAgent session owner) else none
  | .disposeAgent agent => st.agents[agent]?.map (fun record => st.disposeAgent agent record)
  | .unmount =>
    some ({ st with stack := .closing none :: st.stack }.abortBy teardown (.str "the agent loop was unmounted"))
  | .proceed => st.proceed
  | .unwind calls => some { st with stack := st.stack.drop calls }

/-! ## What is to hold -/

/-- An abort in progress has still to run a listener that aborts the signal. -/
def Waits (stack : List CancelFrame) (signal : Nat) : Prop :=
  ∃ source rest, .aborting source rest ∈ stack ∧ ∃ l ∈ rest, l.Targets signal

/-- No signal has a listener for the agent, and the loop does not hold it, or is about to. -/
structure Released (st : AgentsState) (agent : Nat) (record : LoopAgent) : Prop where
  detached : ∀ s, ∀ l ∈ (st.signals.at_ s).listeners, ¬l.Targets record.between
  unheld : ∀ entry ∈ st.held.entries, entry.2 ≠ agent
  made : .creating agent ∉ st.stack

/-- Signals are fused exactly, and nothing is leaked: an aborted signal has the reason that came to it first; when no call is in progress
a signal to which a reason came is aborted; no listener runs twice; no signal has a listener for a disposed agent, and the loop holds
none. -/
structure Exact (st : AgentsState) : Prop where
  first : ∀ s, (st.signals.at_ s).aborted = true → (st.signals.at_ s).causes.head? = some (st.signals.at_ s).reason
  settled : st.stack = [] → ∀ s, (st.signals.at_ s).causes ≠ [] → (st.signals.at_ s).aborted = true
  once : ∀ s, (st.signals.at_ s).ran.Nodup
  detached : ∀ agent ∈ st.disposed, ∀ record, st.agents[agent]? = some record → ∀ s, ∀ l ∈ (st.signals.at_ s).listeners,
    ¬l.Targets record.between
  live : ∀ entry ∈ st.held.entries, entry.2 ∉ st.disposed

/-- A signal may be aborted: it is already, or no source of it that is aborted has it still before itself. -/
def Orderly (st : AgentsState) (stack : List CancelFrame) (signal : Nat) : Prop :=
  (st.signals.at_ signal).aborted = true ∨ ¬Waits stack signal

/-- An agent may be disposed: no signal has a listener for it, the loop does not hold it, and its lifetime may be aborted. -/
def Disposable (st : AgentsState) (stack : List CancelFrame) (agent : Nat) : Prop :=
  ∀ record, st.agents[agent]? = some record → st.Released agent record ∧ st.Orderly stack record.lifetime

/-- No signal is aborted while a source of it that was aborted before has it still before itself, no agent is disposed that a signal
has a listener for or that the loop holds, and what is no `Exception` does not keep an abort from a signal it is to reach. -/
def Sound (st : AgentsState) : CancelAction → Prop
  | .abort s _ => st.Orderly st.stack s
  | .disposeAgent agent => st.Disposable st.stack agent
  | .proceed =>
    match st.stack with
    | .aborting _ (listener :: _) :: stack => ∀ fused, listener.Targets fused → st.Orderly stack fused
    | .closing (some (agent :: rest)) :: stack => st.Disposable (.closing (some rest) :: stack) agent
    | _ => True
  | .unwind calls => ∀ source rest, .aborting source rest ∈ st.stack.take calls → ∀ l ∈ rest, ∀ fused, l.Targets fused →
      (st.signals.at_ fused).aborted = true
  | _ => True

/-! ## The invariant -/

/-- The signal whose listeners a frame runs. -/
def signal? : CancelFrame → Option Nat
  | .aborting s _ => some s
  | _ => none

/-- The reasons that are on their way to a signal. -/
def pending (g : Signals) : List CancelFrame → Nat → List PyValue
  | [], _ => []
  | .aborting source rest :: stack, s => pending g stack s ++ List.replicate (aborts rest s) (g.at_ source).reason
  | _ :: stack, s => pending g stack s

/-- An abort in progress: its signal is aborted, and what it has still to run comes behind what it ran. -/
structure Framed (g : Signals) (source : Nat) (rest : List Listener) : Prop where
  aborted : (g.at_ source).aborted = true
  numbered : rest.Pairwise (fun l m => l.index < m.index)
  behind : ∀ i ∈ (g.at_ source).ran, ∀ l ∈ rest, i < l.index
  targets : ∀ l ∈ rest, ∀ fused, l.Targets fused → source < fused ∧ fused < g.fresh

/-- The reasons of every signal but the one excepted are those that came to it: it is aborted for the first, or all are on their way. -/
structure Inv (st : AgentsState) (except : Option Nat) : Prop where
  ordered : st.signals.Ordered
  root : 0 < st.signals.fresh
  framed : ∀ source rest, .aborting source rest ∈ st.stack → Framed st.signals source rest
  distinct : (st.stack.filterMap signal?).Nodup
  waiting : ∀ s, some s ≠ except → (st.signals.at_ s).aborted = false → (st.signals.at_ s).causes = pending st.signals st.stack s
  first : ∀ s, (st.signals.at_ s).aborted = true → (st.signals.at_ s).causes.head? = some (st.signals.at_ s).reason
  records : ∀ record ∈ st.agents, record.between < st.signals.fresh ∧ record.lifetime < st.signals.fresh
  gone : ∀ agent, agent ∈ st.disposed ∨ .disposing agent ∈ st.stack →
    agent < st.agents.length ∧ ∀ record, st.agents[agent]? = some record → st.Released agent record

theorem Inv.start : Inv {} none where
  ordered := .start
  root := Nat.one_pos
  framed _ _ h := by cases h
  distinct := List.nodup_nil
  waiting _ _ _ := rfl
  first _ h := by cases h
  records _ h := by cases h
  gone agent h := by
    rcases h with h | h
    · cases h
    · cases h

theorem pending_eq_nil {g : Signals} {stack : List CancelFrame} {s : Nat} (h : ¬Waits stack s) : pending g stack s = [] := by
  induction stack with
  | nil => rfl
  | cons frame stack ih =>
    have htail : pending g stack s = [] := by
      refine ih (fun hwaits => h ?_)
      obtain ⟨source, rest, hmem, hl⟩ := hwaits
      exact ⟨source, rest, List.mem_cons_of_mem frame hmem, hl⟩
    cases frame with
    | aborting source rest =>
      have hnone : aborts rest s = 0 :=
        Signals.aborts_eq_zero (fun l hl htarget => h ⟨source, rest, List.mem_cons_self, l, hl, htarget⟩)
      simp [pending, htail, hnone]
    | _ => simpa [pending] using htail

theorem pending_congr {g g' : Signals} {stack : List CancelFrame} {s : Nat}
    (h : ∀ source rest, .aborting source rest ∈ stack → (g'.at_ source).reason = (g.at_ source).reason) :
    pending g' stack s = pending g stack s := by
  induction stack with
  | nil => rfl
  | cons frame stack ih =>
    have htail := ih (fun source rest hmem => h source rest (List.mem_cons_of_mem frame hmem))
    cases frame with
    | aborting source rest => simp [pending, htail, h source rest List.mem_cons_self]
    | _ => simpa [pending] using htail

section Rules

variable {st : AgentsState} {e : Option Nat}

/-- The signal of an abort in progress is one of those there are. -/
theorem Inv.lt_fresh (h : st.Inv e) {s : Nat} (haborted : (st.signals.at_ s).aborted = true) : s < st.signals.fresh := by
  by_contra hlt
  rw [h.ordered.born s (Nat.le_of_not_lt hlt)] at haborted
  cases haborted

theorem Inv.tidy (h : st.Inv none) {g : Signals} (hg : st.signals.Tidy g) : Inv { st with signals := g } none where
  ordered := hg.ordered
  root := Nat.lt_of_lt_of_le h.root hg.quiet.fresh
  framed source rest hmem := by
    have hframed := h.framed source rest hmem
    obtain ⟨haborted, -, -, hran⟩ := hg.quiet.kept source (h.lt_fresh hframed.aborted)
    refine ⟨haborted ▸ hframed.aborted, hframed.numbered, ?_, fun l hl fused hfused => ?_⟩
    · intro i hi
      rw [hran] at hi
      exact hframed.behind i hi
    · exact ⟨(hframed.targets l hl fused hfused).1, Nat.lt_of_lt_of_le (hframed.targets l hl fused hfused).2 hg.quiet.fresh⟩
  distinct := h.distinct
  waiting s hs hlive := by
    have hpending : pending g st.stack s = pending st.signals st.stack s :=
      pending_congr (fun source rest hmem => (hg.quiet.kept source (h.lt_fresh (h.framed source rest hmem).aborted)).2.1)
    by_cases hold : s < st.signals.fresh
    · obtain ⟨haborted, -, hcauses, -⟩ := hg.quiet.kept s hold
      rw [hcauses, hpending]
      exact h.waiting s hs (haborted ▸ hlive)
    · have hnone : ¬Waits st.stack s := by
        rintro ⟨source, rest, hmem, l, hl, htarget⟩
        exact hold ((h.framed source rest hmem).targets l hl s htarget).2
      rw [hpending, pending_eq_nil hnone]
      exact hg.quiet.uncaused s (Nat.le_of_not_lt hold) hlive
  first s haborted := by
    by_cases hold : s < st.signals.fresh
    · obtain ⟨haborted', hreason, hcauses, -⟩ := hg.quiet.kept s hold
      rw [hcauses, hreason]
      exact h.first s (haborted' ▸ haborted)
    · exact hg.quiet.caused s (Nat.le_of_not_lt hold) haborted
  records record hrecord :=
    ⟨Nat.lt_of_lt_of_le (h.records record hrecord).1 hg.quiet.fresh, Nat.lt_of_lt_of_le (h.records record hrecord).2 hg.quiet.fresh⟩
  gone agent hgone := by
    obtain ⟨hlt, hreleased⟩ := h.gone agent hgone
    refine ⟨hlt, fun record hrecord => ?_⟩
    obtain ⟨hdetached, hunheld, hmade⟩ := hreleased record hrecord
    refine ⟨fun s l hl htarget => ?_, hunheld, hmade⟩
    rcases hg.quiet.listeners s l hl with hold | hnew
    · exact hdetached s l hold htarget
    · exact absurd (hnew _ htarget) (Nat.not_le.mpr (h.records record (List.mem_of_getElem? hrecord)).1)

/-- An abort of a signal that is not aborted, to which the reason came first. -/
theorem Inv.fire {s : Nat} (h : st.Inv (some s)) (hs : s < st.signals.fresh) (hlive : (st.signals.at_ s).aborted = false)
    {reason : PyValue} (hcause : (st.signals.at_ s).causes.head? = some reason) : (st.abort s reason).Inv none := by
  have hself := h.ordered.fire_self hlive reason
  have hother : ∀ s', s' ≠ s → (st.signals.fire s reason).at_ s' =
      (st.signals.at_ s').reached (List.replicate (aborts (st.signals.at_ s).listeners s') reason) :=
    fun s' hne => Signals.fire_other s' reason hne
  have hne : ∀ source rest, .aborting source rest ∈ st.stack → source ≠ s := by
    rintro source rest hmem rfl
    rw [(h.framed source rest hmem).aborted] at hlive
    cases hlive
  have hlisteners : ∀ s', ((st.signals.fire s reason).at_ s').listeners = (st.signals.at_ s').listeners := by
    intro s'
    by_cases hs' : s' = s
    · rw [hs', hself]
    · rw [hother s' hs']
      rfl
  rw [AgentsState.abort, if_neg (by simp [hlive])]
  refine ⟨h.ordered.fire hs reason, h.root, ?_, ?_, ?_, ?_, h.records, ?_⟩
  · intro source rest hmem
    rcases List.mem_cons.mp hmem with hnew | hold
    · cases hnew
      refine ⟨by rw [hself], h.ordered.numbered s, ?_, h.ordered.targets s⟩
      rw [hself, h.ordered.unran s hlive]
      exact fun i hi => by cases hi
    · have hframed := h.framed source rest hold
      refine ⟨?_, hframed.numbered, ?_, hframed.targets⟩
      · rw [hother source (hne source rest hold)]
        exact hframed.aborted
      · rw [hother source (hne source rest hold)]
        exact hframed.behind
  · refine List.nodup_cons.mpr ⟨fun hmem => ?_, h.distinct⟩
    obtain ⟨frame, hframe, hsignal⟩ := List.mem_filterMap.mp hmem
    cases frame with
    | aborting source rest =>
      cases hsignal
      exact hne _ rest hframe rfl
    | creating _ | disposing _ | closing _ => cases hsignal
  · intro s' _ hlive'
    have hs' : s' ≠ s := by
      rintro rfl
      rw [hself] at hlive'
      cases hlive'
    rw [hother s' hs'] at hlive' ⊢
    have hpending : pending (st.signals.fire s reason) st.stack s' = pending st.signals st.stack s' :=
      pending_congr (fun source rest hmem => by
        rw [hother source (hne source rest hmem)]
        rfl)
    rw [pending, hpending, hself, ← h.waiting s' (fun heq => hs' (Option.some.inj heq)) hlive']
    rfl
  · intro s' haborted
    by_cases hs' : s' = s
    · rw [hs', hself]
      exact hcause
    · rw [hother s' hs'] at haborted ⊢
      simp [CancelSignal.reached, List.head?_append, h.first s' haborted]
  · intro agent hgone
    obtain ⟨hlt, hreleased⟩ := h.gone agent (hgone.imp_right (fun hmem => by simpa using hmem))
    refine ⟨hlt, fun record hrecord => ?_⟩
    obtain ⟨hdetached, hunheld, hmade⟩ := hreleased record hrecord
    exact ⟨fun s' l hl => hdetached s' l (hlisteners s' ▸ hl), hunheld, by simpa using hmade⟩

/-- A call of `abort` by code. -/
theorem Inv.abortBy (h : st.Inv none) {s : Nat} (hs : s < st.signals.fresh) (horderly : st.Orderly st.stack s) (reason : PyValue) :
    (st.abortBy s reason).Inv none := by
  unfold AgentsState.abortBy
  by_cases haborted : (st.signals.at_ s).aborted = true
  · rw [if_pos haborted]
    exact h
  · have hlive : (st.signals.at_ s).aborted = false := by simpa using haborted
    have hnone : (st.signals.at_ s).causes = [] := by
      rw [h.waiting s (by simp) hlive]
      exact pending_eq_nil (horderly.resolve_left haborted)
    rw [if_neg haborted]
    have hkept := Signals.reached_kept (g := st.signals) (s := s) [reason]
    refine @Inv.fire { st with signals := st.signals.modify s (fun signal => signal.reached [reason]) } s
      ⟨?_, h.root, ?_, h.distinct, ?_, ?_, h.records, ?_⟩ hs ?_ reason ?_
    · exact h.ordered.modify (f := fun signal => signal.reached [reason]) (fun hfresh => absurd hs (Nat.not_lt.mpr hfresh))
        (h.ordered.numbered s) (h.ordered.bounded s) (h.ordered.targets s) (h.ordered.ran s) (h.ordered.unran s)
    · intro source rest hmem
      have hframed := h.framed source rest hmem
      obtain ⟨haborted', -, -, hran⟩ := hkept source
      exact ⟨haborted'.trans hframed.aborted, hframed.numbered, fun i hi => hframed.behind i (hran ▸ hi), hframed.targets⟩
    · intro s' hexcept hlive'
      have hs' : s' ≠ s := fun heq => hexcept (congrArg some heq)
      have hcauses : (st.signals.modify s (fun signal => signal.reached [reason])).at_ s' = st.signals.at_ s' :=
        Signals.modify_of_ne _ _ _ _ hs'
      dsimp only at hlive' ⊢
      rw [hcauses] at hlive' ⊢
      rw [pending_congr (fun source _ _ => (hkept source).2.1)]
      exact h.waiting s' (by simp) hlive'
    · intro s' haborted'
      have hs' : s' ≠ s := by
        rintro rfl
        exact haborted ((hkept s').1 ▸ haborted')
      dsimp only at haborted' ⊢
      rw [Signals.modify_of_ne _ _ _ _ hs'] at haborted' ⊢
      exact h.first s' haborted'
    · intro agent hgone
      obtain ⟨hlt, hreleased⟩ := h.gone agent hgone
      refine ⟨hlt, fun record hrecord => ?_⟩
      obtain ⟨hdetached, hunheld, hmade⟩ := hreleased record hrecord
      exact ⟨fun s' l hl => hdetached s' l ((hkept s').2.2.1 ▸ hl), hunheld, hmade⟩
    · exact (hkept s).1.trans hlive
    · simp [CancelSignal.reached, hnone]

theorem Inv.push (h : st.Inv none) {frame : CancelFrame} (hsignal : signal? frame = none)
    (hmade : ∀ agent, frame = .creating agent → st.agents.length ≤ agent)
    (hgone : ∀ agent, frame = .disposing agent →
      agent < st.agents.length ∧ ∀ record, st.agents[agent]? = some record → st.Released agent record) :
    Inv { st with stack := frame :: st.stack } none where
  ordered := h.ordered
  root := h.root
  framed source rest hmem := by
    rcases List.mem_cons.mp hmem with hnew | hold
    · rw [← hnew] at hsignal
      cases hsignal
    · exact h.framed source rest hold
  distinct := by
    rw [List.filterMap_cons_none hsignal]
    exact h.distinct
  waiting s hs hlive := by
    rw [h.waiting s hs hlive]
    cases frame with
    | aborting source rest => cases hsignal
    | _ => rfl
  first := h.first
  records := h.records
  gone agent hagent := by
    have hall : agent < st.agents.length ∧ ∀ record, st.agents[agent]? = some record → st.Released agent record := by
      rcases hagent with hdisposed | hmem
      · exact h.gone agent (Or.inl hdisposed)
      · rcases List.mem_cons.mp hmem with hnew | hold
        · exact hgone agent hnew.symm
        · exact h.gone agent (Or.inr hold)
    refine ⟨hall.1, fun record hrecord => ?_⟩
    obtain ⟨hdetached, hunheld, hnone⟩ := hall.2 record hrecord
    refine ⟨hdetached, hunheld, fun hmem => ?_⟩
    rcases List.mem_cons.mp hmem with hnew | hold
    · exact absurd (hmade agent hnew.symm) (Nat.not_le.mpr hall.1)
    · exact hnone hold

/-- Some calls are over; of the aborts among them nothing was left that a signal waits for. -/
theorem Inv.pop (h : st.Inv none) (gone : List CancelFrame) {stack : List CancelFrame} (hstack : st.stack = gone ++ stack)
    (hidle : ∀ source rest, .aborting source rest ∈ gone → ∀ l ∈ rest, ∀ fused, l.Targets fused →
      (st.signals.at_ fused).aborted = true) :
    Inv { st with stack } none where
  ordered := h.ordered
  root := h.root
  framed source rest hmem := h.framed source rest (by rw [hstack]; exact List.mem_append_right _ hmem)
  distinct := by
    have hdistinct := h.distinct
    rw [hstack, List.filterMap_append] at hdistinct
    exact (List.nodup_append.mp hdistinct).2.1
  waiting s hs hlive := by
    rw [h.waiting s hs hlive, hstack]
    clear hstack
    induction gone with
    | nil => rfl
    | cons frame gone ih =>
      have htail := ih (fun source rest hmem => hidle source rest (List.mem_cons_of_mem frame hmem))
      cases frame with
      | aborting source rest =>
        have hnone : aborts rest s = 0 := Signals.aborts_eq_zero (fun l hl htarget => by
          have haborted := hidle source rest List.mem_cons_self l hl s htarget
          rw [hlive] at haborted
          cases haborted)
        simpa [pending, hnone] using htail
      | _ => simpa [pending] using htail
  first := h.first
  records := h.records
  gone agent hagent := by
    have hsub : ∀ frame, frame ∈ stack → frame ∈ st.stack := fun frame hmem => by
      rw [hstack]
      exact List.mem_append_right _ hmem
    obtain ⟨hlt, hreleased⟩ := h.gone agent (hagent.imp_right (hsub _))
    refine ⟨hlt, fun record hrecord => ?_⟩
    obtain ⟨hdetached, hunheld, hmade⟩ := hreleased record hrecord
    exact ⟨hdetached, hunheld, fun hmem => hmade (hsub _ hmem)⟩

/-- `Agent.dispose` of an agent that may be disposed. -/
theorem Inv.disposeAgent (h : st.Inv none) {agent : Nat} {record : LoopAgent} (hrecord : st.agents[agent]? = some record)
    (hdisposable : st.Disposable st.stack agent) : (st.disposeAgent agent record).Inv none := by
  obtain ⟨hreleased, horderly⟩ := hdisposable record hrecord
  have hpushed : Inv { st with stack := .disposing agent :: st.stack } none := by
    refine h.push rfl (fun _ heq => by cases heq) (fun other heq => ?_)
    cases heq
    refine ⟨(List.getElem?_eq_some_iff.mp hrecord).1, fun record' hrecord' => ?_⟩
    rw [hrecord] at hrecord'
    cases hrecord'
    exact hreleased
  refine hpushed.abortBy (h.records record (List.mem_of_getElem? hrecord)).2 (horderly.imp_right (fun hnone hwaits => hnone ?_)) _
  obtain ⟨source, rest, hmem, hl⟩ := hwaits
  exact ⟨source, rest, by simpa using hmem, hl⟩

theorem Inv.ran (h : st.Inv none) {source : Nat} {listener : Listener} {rest : List Listener} {stack : List CancelFrame}
    (hstack : st.stack = .aborting source (listener :: rest) :: stack) {e : Option Nat}
    (hexcept : ∀ fused, listener.Targets fused → (st.signals.at_ fused).aborted = false → e = some fused) :
    Inv { st with
      signals := st.signals.modify source (fun signal => signal.run listener)
      stack := .aborting source rest :: stack } e := by
  have hframed := h.framed source (listener :: rest) (by simp [hstack])
  have hdistinct : (source :: stack.filterMap signal?).Nodup := by simpa [hstack, signal?] using h.distinct
  have hne : ∀ source' rest', .aborting source' rest' ∈ stack → source' ≠ source := by
    rintro source' rest' hmem rfl
    exact (List.nodup_cons.mp hdistinct).1 (List.mem_filterMap.mpr ⟨_, hmem, rfl⟩)
  have hother : ∀ s, s ≠ source →
      (st.signals.modify source (fun signal => signal.run listener)).at_ s = st.signals.at_ s :=
    fun s hs => Signals.modify_of_ne _ _ _ _ hs
  have hkept := Signals.run_kept (g := st.signals) (s := source) listener
  have hran : ∀ i ∈ (st.signals.at_ source).ran, i < listener.index := fun i hi => hframed.behind i hi listener List.mem_cons_self
  have hrest := List.pairwise_cons.mp hframed.numbered
  refine ⟨?_, h.root, ?_, ?_, ?_, ?_, h.records, ?_⟩
  · refine h.ordered.modify (f := fun signal => signal.run listener)
      (fun hfresh => absurd (h.lt_fresh hframed.aborted) (Nat.not_lt.mpr hfresh)) (h.ordered.numbered source)
      (h.ordered.bounded source) (h.ordered.targets source) ?_ (fun hlive => ?_)
    · rw [CancelSignal.run, List.pairwise_append]
      refine ⟨h.ordered.ran source, List.pairwise_singleton _ _, fun i hi j hj => ?_⟩
      rw [List.mem_singleton.mp hj]
      exact hran i hi
    · have haborted : ((st.signals.at_ source).run listener).aborted = true := hframed.aborted
      rw [haborted] at hlive
      cases hlive
  · intro source' rest' hmem
    rcases List.mem_cons.mp hmem with hnew | hold
    · cases hnew
      refine ⟨by rw [(hkept source).1]; exact hframed.aborted, hrest.2, ?_,
        fun l hl => hframed.targets l (List.mem_cons_of_mem listener hl)⟩
      intro i hi l hl
      rw [Signals.modify_self] at hi
      rcases List.mem_append.mp hi with hi | hi
      · exact hframed.behind i hi l (List.mem_cons_of_mem listener hl)
      · rw [List.mem_singleton.mp hi]
        exact hrest.1 l hl
    · have hframed' := h.framed source' rest' (by rw [hstack]; exact List.mem_cons_of_mem _ hold)
      refine ⟨by rw [(hkept source').1]; exact hframed'.aborted, hframed'.numbered, ?_, hframed'.targets⟩
      rw [hother source' (hne source' rest' hold)]
      exact hframed'.behind
  · exact hdistinct
  · intro s hs hlive
    have hlive' : (st.signals.at_ s).aborted = false := (hkept s).1 ▸ hlive
    have hnot : ¬listener.Targets s := fun htarget => hs (hexcept s htarget hlive').symm
    have hcount : aborts (listener :: rest) s = aborts rest s := List.countP_cons_of_neg (by simpa using hnot)
    dsimp only
    rw [(hkept s).2.2.1, h.waiting s (by simp) hlive', hstack, pending, pending, (hkept source).2.1, hcount,
      pending_congr (fun source' _ _ => (hkept source').2.1)]
  · intro s haborted
    dsimp only at haborted ⊢
    rw [(hkept s).2.2.1, (hkept s).2.1]
    exact h.first s ((hkept s).1 ▸ haborted)
  · intro agent hagent
    obtain ⟨hlt, hreleased⟩ := h.gone agent (hagent.imp_right (fun hmem => by simpa [hstack] using hmem))
    refine ⟨hlt, fun record hrecord => ?_⟩
    obtain ⟨hdetached, hunheld, hmade⟩ := hreleased record hrecord
    exact ⟨fun s l hl => hdetached s l ((hkept s).2.2.2 ▸ hl), hunheld, by simpa [hstack] using hmade⟩

theorem Inv.hold (h : st.Inv none) {agent : Nat} {stack : List CancelFrame} (hstack : st.stack = .creating agent :: stack)
    (session : String) : Inv { st with held := st.held.set session agent, stack } none := by
  have hpopped := h.pop [.creating agent] hstack (fun source rest hmem => by simp at hmem)
  refine ⟨hpopped.ordered, hpopped.root, hpopped.framed, hpopped.distinct, hpopped.waiting, hpopped.first, hpopped.records,
    fun other hother => ?_⟩
  obtain ⟨hlt, hreleased⟩ := hpopped.gone other hother
  refine ⟨hlt, fun record hrecord => ?_⟩
  obtain ⟨hdetached, hunheld, hmade⟩ := hreleased record hrecord
  refine ⟨hdetached, fun entry hentry => ?_, hmade⟩
  rcases Dict.mem_set.mp hentry with ⟨-, hvalue⟩ | ⟨-, hold⟩
  · rintro rfl
    have hagent := h.gone entry.2 (hother.imp_right (fun hmem => by rw [hstack]; exact List.mem_cons_of_mem _ hmem))
    refine (hagent.2 record hrecord).made ?_
    rw [hstack, hvalue]
    exact List.mem_cons_self
  · exact hunheld entry hold

theorem Inv.clear (h : st.Inv none) : Inv { st with held := .empty } none where
  ordered := h.ordered
  root := h.root
  framed := h.framed
  distinct := h.distinct
  waiting := h.waiting
  first := h.first
  records := h.records
  gone agent hagent := by
    obtain ⟨hlt, hreleased⟩ := h.gone agent hagent
    refine ⟨hlt, fun record hrecord => ?_⟩
    obtain ⟨hdetached, -, hmade⟩ := hreleased record hrecord
    exact ⟨hdetached, fun entry hentry => (by cases hentry), hmade⟩

theorem Inv.endDispose (h : st.Inv none) {agent : Nat} {record : LoopAgent} {stack : List CancelFrame}
    (hstack : st.stack = .disposing agent :: stack) :
    Inv { st with signals := st.signals.dispose record.lifetime, disposed := agent :: st.disposed, stack } none := by
  have htidy := h.tidy (h.ordered.tidy_dispose record.lifetime)
  have hpopped := htidy.pop [.disposing agent] hstack (fun source rest hmem => by simp at hmem)
  refine ⟨hpopped.ordered, hpopped.root, hpopped.framed, hpopped.distinct, hpopped.waiting, hpopped.first, hpopped.records,
    fun other hother => ?_⟩
  have hgone : other ∈ st.disposed ∨ .disposing other ∈ st.stack := by
    rcases hother with hdisposed | hmem
    · rcases List.mem_cons.mp hdisposed with rfl | hold
      · exact Or.inr (by rw [hstack]; exact List.mem_cons_self)
      · exact Or.inl hold
    · exact Or.inr (by rw [hstack]; exact List.mem_cons_of_mem _ hmem)
  obtain ⟨hlt, hreleased⟩ := htidy.gone other hgone
  refine ⟨hlt, fun record' hrecord' => ?_⟩
  obtain ⟨hdetached, hunheld, hmade⟩ := hreleased record' hrecord'
  exact ⟨hdetached, hunheld, fun hmem => hmade (by rw [hstack]; exact List.mem_cons_of_mem _ hmem)⟩

/-- `create_agent` makes an agent that no call has to do with. -/
theorem Inv.createAgent (h : st.Inv none) (session : String) {owner : Option Nat} (howner : ∀ s ∈ owner, s < st.signals.fresh) :
    (st.createAgent session owner).Inv none := by
  have hsources : ∀ source ∈ [owner, some teardown], ∀ s ∈ source, s < st.signals.fresh := by
    intro source hsource s hs
    rcases List.mem_cons.mp hsource with rfl | hsource
    · exact howner s hs
    · rw [List.mem_singleton.mp hsource] at hs
      cases hs
      exact h.root
  obtain ⟨hbetween, hfresh⟩ := h.ordered.tidy_any hsources
  have hsource : ∀ source ∈ [some st.signals.fresh], ∀ s ∈ source, s < (st.signals.any [owner, some teardown]).fresh := by
    intro source hsource s hs
    rw [List.mem_singleton.mp hsource] at hs
    cases hs
    rw [hfresh]
    exact Nat.lt_succ_self _
  obtain ⟨hlifetime, hfresh'⟩ := hbetween.ordered.tidy_any hsource
  have htidy := h.tidy ⟨hlifetime.ordered, hbetween.quiet.trans hlifetime.quiet⟩
  have hpushed : Inv { st with
      signals := (st.signals.any [owner, some teardown]).any [some st.signals.fresh]
      stack := .creating st.agents.length :: st.stack } none :=
    htidy.push rfl (fun agent heq => by cases heq; exact Nat.le_refl _) (fun agent heq => by cases heq)
  refine ⟨hpushed.ordered, hpushed.root, hpushed.framed, hpushed.distinct, hpushed.waiting, hpushed.first, ?_, ?_⟩
  · intro record hrecord
    rcases List.mem_append.mp hrecord with hold | hnew
    · exact hpushed.records record hold
    · rw [List.mem_singleton.mp hnew]
      dsimp only [AgentsState.createAgent]
      omega
  · intro agent hagent
    obtain ⟨hlt, hreleased⟩ := hpushed.gone agent hagent
    have hold : agent < st.agents.length := hlt
    refine ⟨by simp only [AgentsState.createAgent, List.length_append]; omega, fun record hrecord => ?_⟩
    simp only [AgentsState.createAgent] at hrecord
    rw [List.getElem?_append_left hold] at hrecord
    obtain ⟨hdetached, hunheld, hmade⟩ := hreleased record hrecord
    exact ⟨hdetached, hunheld, hmade⟩

theorem Inv.proceed {st' : AgentsState} (h : st.Inv none) (hsound : st.Sound .proceed) (hstep : st.proceed = some st') : st'.Inv none := by
  unfold AgentsState.Sound at hsound
  unfold AgentsState.proceed at hstep
  split at hstep
  next => cases hstep
  next source stack hstack =>
    obtain rfl := Option.some.inj hstep
    exact h.pop [.aborting source []] hstack (fun source' rest hmem l hl => by
      obtain ⟨-, rfl⟩ := CancelFrame.aborting.inj (List.mem_singleton.mp hmem)
      cases hl)
  next source listener rest stack hstack =>
    rw [hstack] at hsound
    dsimp only at hsound hstep
    split at hstep
    next code hcallback =>
      obtain rfl := Option.some.inj hstep
      refine h.ran hstack (fun fused htarget => ?_)
      rw [Listener.Targets, hcallback] at htarget
      cases htarget
    next fused hcallback =>
      obtain rfl := Option.some.inj hstep
      have htarget : listener.Targets fused := hcallback
      have hone : ∀ other, listener.Targets other → other = fused := by
        intro other hother
        rw [Listener.Targets, hcallback] at hother
        exact (Callback.fused.inj hother).symm
      have hframed := h.framed source (listener :: rest) (by simp [hstack])
      have hkept := Signals.run_kept (g := st.signals) (s := source) listener
      by_cases haborted : (st.signals.at_ fused).aborted = true
      · rw [AgentsState.abort, if_pos (by rw [(hkept fused).1]; exact haborted)]
        refine h.ran hstack (fun other hother hlive => ?_)
        rw [hone other hother, haborted] at hlive
        cases hlive
      · have hlive : (st.signals.at_ fused).aborted = false := by simpa using haborted
        have hran := h.ran hstack (e := some fused) (fun other hother _ => by rw [hone other hother])
        refine hran.fire (hframed.targets listener List.mem_cons_self fused htarget).2 ((hkept fused).1.trans hlive) ?_
        have hnone := pending_eq_nil (g := st.signals) ((hsound fused htarget).resolve_left haborted)
        dsimp only
        rw [(hkept fused).2.2.1, (hkept source).2.1, h.waiting fused (by simp) hlive, hstack, pending, hnone]
        simp [aborts, htarget, List.replicate_succ]
  next agent stack hstack =>
    obtain ⟨record, -, rfl⟩ := Option.map_eq_some_iff.mp hstep
    exact h.hold hstack record.session
  next agent stack hstack =>
    obtain ⟨record, -, rfl⟩ := Option.map_eq_some_iff.mp hstep
    exact h.endDispose hstack
  next stack hstack =>
    obtain rfl := Option.some.inj hstep
    have hpopped := h.pop [.closing none] hstack (fun source rest hmem => by simp at hmem)
    exact hpopped.push rfl (fun _ heq => by cases heq) (fun _ heq => by cases heq)
  next agent rest stack hstack =>
    rw [hstack] at hsound
    obtain ⟨record, hrecord, rfl⟩ := Option.map_eq_some_iff.mp hstep
    have hpopped := h.pop [.closing (some (agent :: rest))] hstack (fun source rest hmem => by simp at hmem)
    have hpushed : Inv { st with stack := .closing (some rest) :: stack } none :=
      hpopped.push rfl (fun _ heq => by cases heq) (fun _ heq => by cases heq)
    refine hpushed.disposeAgent hrecord (fun record' hrecord' => ?_)
    obtain ⟨⟨hdetached, hunheld, hmade⟩, horderly⟩ := hsound record' hrecord'
    refine ⟨⟨hdetached, hunheld, fun hmem => hmade ?_⟩, horderly⟩
    rw [hstack]
    simpa using hmem
  next stack hstack =>
    obtain rfl := Option.some.inj hstep
    exact (h.pop [.closing (some [])] hstack (fun source rest hmem => by simp at hmem)).clear

theorem Inv.step {st' : AgentsState} (h : st.Inv none) {a : CancelAction} (hsound : st.Sound a) (hstep : st.step a = some st') :
    st'.Inv none := by
  cases a with
  | newSignal =>
    obtain rfl := Option.some.inj hstep
    exact h.tidy ⟨h.ordered.create, h.ordered.quiet_create⟩
  | listen s code =>
    simp only [AgentsState.step] at hstep
    split at hstep
    next hs =>
      obtain rfl := Option.some.inj hstep
      exact h.tidy (h.ordered.tidy_listen hs code)
    next => cases hstep
  | detach s code =>
    obtain rfl := Option.some.inj hstep
    exact h.tidy (h.ordered.tidy_detach s code)
  | fuse sources =>
    simp only [AgentsState.step] at hstep
    split at hstep
    next hsources =>
      obtain rfl := Option.some.inj hstep
      exact h.tidy (h.ordered.tidy_any hsources).1
    next => cases hstep
  | dispose s =>
    obtain rfl := Option.some.inj hstep
    exact h.tidy (h.ordered.tidy_dispose s)
  | abort s reason =>
    simp only [AgentsState.step] at hstep
    split at hstep
    next hs =>
      obtain rfl := Option.some.inj hstep
      exact h.abortBy hs hsound reason
    next => cases hstep
  | createAgent session owner =>
    simp only [AgentsState.step] at hstep
    split at hstep
    next howner =>
      obtain rfl := Option.some.inj hstep
      exact h.createAgent session howner
    next => cases hstep
  | disposeAgent agent =>
    obtain ⟨record, hrecord, rfl⟩ := Option.map_eq_some_iff.mp hstep
    exact h.disposeAgent hrecord hsound
  | unmount =>
    obtain rfl := Option.some.inj hstep
    have hpushed : Inv { st with stack := .closing none :: st.stack } none :=
      h.push rfl (fun _ heq => by cases heq) (fun _ heq => by cases heq)
    refine hpushed.abortBy h.root (Or.inr ?_) _
    -- nothing is fused to abort the first signal there is
    rintro ⟨source, rest, hmem, l, hl, htarget⟩
    exact absurd ((hpushed.framed source rest hmem).targets l hl teardown htarget).1 (Nat.not_lt_zero source)
  | proceed => exact h.proceed hsound hstep
  | unwind calls =>
    obtain rfl := Option.some.inj hstep
    exact h.pop (st.stack.take calls) (List.take_append_drop calls st.stack).symm hsound

theorem Inv.exact (h : st.Inv none) : st.Exact where
  first := h.first
  settled hstack s hcauses := by
    by_contra hlive
    refine hcauses ?_
    rw [h.waiting s (by simp) (by simpa using hlive), hstack]
    rfl
  once s := (h.ordered.ran s).imp (fun hlt => Nat.ne_of_lt hlt)
  detached agent hagent record hrecord := ((h.gone agent (Or.inl hagent)).2 record hrecord).detached
  live entry hentry hdisposed := by
    obtain ⟨hlt, hreleased⟩ := h.gone entry.2 (Or.inl hdisposed)
    exact (hreleased _ (List.getElem?_eq_getElem hlt)).unheld entry hentry rfl

end Rules

end AgentsState

open AgentsState

/-- In every run in which no signal is aborted while a source of it that was aborted before has it still before itself, and no agent is
disposed that a signal has a listener for or that the loop holds, signals are fused exactly, and nothing is leaked. -/
theorem fusing_exact {st : AgentsState} (h : Machine.Reach AgentsState.step Sound {} st) : st.Exact := by
  have hinv : st.Inv none := h.invariant (P := fun st => st.Inv none) .start (fun _ _ _ hinv hsound hstep => hinv.step hsound hstep)
  exact hinv.exact

namespace CancelRuns

/-- An agent is made for an owner's signal, and the owner's abort goes down to its lifetime. -/
def ownerAborts : List CancelAction :=
  [.newSignal, .createAgent "chat-1" (some 1), .proceed, .abort 1 (.str "stop"), .proceed, .proceed, .proceed, .proceed, .proceed]

/-- An agent is made and disposed. -/
def disposed : List CancelAction := [.createAgent "chat-1" none, .proceed, .disposeAgent 0, .proceed, .proceed]

/-- A listener of the first source of a fused signal aborts the second one, before the abort of the first comes to the fused signal. -/
def abortedInside : List CancelAction :=
  [.newSignal, .newSignal, .listen 1 0, .fuse [some 1, some 2], .abort 1 (.str "first"), .proceed, .abort 2 (.str "second"), .proceed]

end CancelRuns

open CancelRuns in
/-- The abort of an owner goes down to the lifetime of its agent, with its reason. -/
theorem fusing_exact_owner : ∃ st, Machine.exec AgentsState.step {} ownerAborts = some st ∧ st.stack.length = 0 ∧
    (st.signals.at_ 3).reason = .str "stop" ∧ st.Exact := by
  have hran : ∀ s source, ¬Waits [.aborting source []] s := by
    rintro s source ⟨_, _, hmem, l, hl, -⟩
    obtain ⟨-, rfl⟩ := CancelFrame.aborting.inj (List.mem_singleton.mp hmem)
    cases hl
  have hnone : ∀ s, ¬Waits [] s := by
    rintro s ⟨_, _, hmem, -⟩
    cases hmem
  refine ⟨_, rfl, rfl, rfl, fusing_exact (.next .proceed (.next .proceed (.next .proceed (.next .proceed (.next .proceed
    (.next (.abort 1 (.str "stop")) (.next .proceed (.next (.createAgent "chat-1" (some 1)) (.next .newSignal .start trivial rfl)
      trivial rfl) trivial rfl) ?_ rfl) ?_ rfl) ?_ rfl) ?_ rfl) ?_ rfl) ?_ rfl)⟩
  · exact Or.inr (hnone 1)
  · exact fun fused _ => Or.inr (hnone fused)
  · exact fun fused _ => Or.inr (hran fused 1)
  · trivial
  · trivial
  · trivial

open CancelRuns in
/-- The loop holds an agent that was disposed, and its teardown a listener for it; and a signal that is aborted from inside a listener
has the reason that came to it second. -/
theorem not_fusing_exact :
    (∃ st, Machine.Reach AgentsState.step Machine.anyStep {} st ∧ st.stack.length = 0 ∧ ¬st.Exact) ∧
    ∃ st, Machine.Reach AgentsState.step Machine.anyStep {} st ∧ ¬st.Exact := by
  constructor
  · have hrun : ∃ st, Machine.exec AgentsState.step {} CancelRuns.disposed = some st ∧ st.stack.length = 0 ∧ st.disposed = [0] ∧
        st.held.entries = [("chat-1", 0)] := ⟨_, rfl, rfl, rfl, rfl⟩
    obtain ⟨st, hst, hstack, hdisposed, hheld⟩ := hrun
    refine ⟨st, Machine.Reach.start.exec hst, hstack, fun hexact => ?_⟩
    refine hexact.live ("chat-1", 0) (by rw [hheld]; exact List.mem_cons_self) ?_
    rw [hdisposed]
    exact List.mem_cons_self
  · have hrun : ∃ st, Machine.exec AgentsState.step {} abortedInside = some st ∧ (st.signals.at_ 3).aborted = true ∧
        (st.signals.at_ 3).causes = [.str "first", .str "second"] ∧ (st.signals.at_ 3).reason = .str "second" :=
      ⟨_, rfl, rfl, rfl, rfl⟩
    obtain ⟨st, hst, haborted, hcauses, hreason⟩ := hrun
    refine ⟨st, Machine.Reach.start.exec hst, fun hexact => ?_⟩
    have hfirst := hexact.first 3 haborted
    rw [hcauses, hreason] at hfirst
    exact absurd (PyValue.str.inj (Option.some.inj hfirst)) (by decide)

end Pydsh
