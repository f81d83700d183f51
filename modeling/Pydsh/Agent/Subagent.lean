import Pydsh.Cancel.Moves
import Pydsh.Message.Texts
import Pydsh.Session.Store
import Pydsh.Tools.Shell

/-!
# Subagents

`agent/subagent.py`: a tool that gives a task to a child agent on a scratch session. A call makes the child for the signal of its caller's
turn, and gives up both when it is over, however it ends. What runs between two awaits is not interrupted but by the listeners it calls, so
a call has two segments: one up to its first await, and one from its last await on.
-/

namespace Pydsh

/-! ## The tool -/

/-- What the tool is configured with. -/
structure SubagentTool where
  provider : String := ""
  model : String := ""
  maxDepth : Int := 3
  maxOutput : Int := 16 * 1024

/-- The missing parts of the configuration. -/
def SubagentTool.missing (tool : SubagentTool) : List String :=
  (if tool.provider.isEmpty then ["provider"] else []) ++ if tool.model.isEmpty then ["model"] else []

/-- `_run`, up to `_delegate`: the depth of the child, or what is returned without one. -/
def SubagentTool.run (tool : SubagentTool) (prompt : PyValue) (mounted : Bool) (callerDepth : Nat) : Except String Nat :=
  match prompt with
  | .str prompt =>
    if (pyStrip prompt).isEmpty then .error "Error: subagent needs a non-empty, self-contained prompt."
    else if tool.missing ≠ [] then
      .error ("Error: the subagent tool has no " ++ " and ".intercalate tool.missing ++ " configured.")
    else if !mounted then
      .error "Error: subagent needs ctx.agent_loop and ctx.sessions; one of them is not mounted."
    else
      let depth := callerDepth + 1
      if tool.maxDepth < depth then
        .error ("Error: subagent depth " ++ toString depth ++ " exceeds the limit of " ++ toString tool.maxDepth ++
          "; this task must be done without delegating.")
      else .ok depth
  | _ => .error "Error: subagent needs a non-empty, self-contained prompt."

/-- A child is made one level below the caller, within the depth of the tool. -/
theorem SubagentTool.run_ok {tool : SubagentTool} {prompt : PyValue} {mounted : Bool} {callerDepth depth : Nat}
    (h : tool.run prompt mounted callerDepth = .ok depth) : depth = callerDepth + 1 ∧ (depth : Int) ≤ tool.maxDepth := by
  unfold SubagentTool.run at h
  split at h
  next =>
    split at h
    · cases h
    split at h
    · cases h
    split at h
    · cases h
    dsimp only at h
    split at h
    · cases h
    next hdepth =>
      cases h
      exact ⟨rfl, Int.not_lt.mp hdepth⟩
  next => cases h

/-- The loop of `_answer` over the events. -/
def answerPush (state : TextRetainer × Bool) (event : SessionEvent) : Except String (TextRetainer × Bool) :=
  if event.type = .assistantMessage then
    (joinTexts (replyContent event.data)).map (fun text =>
      if text.isEmpty then state
      else ((state.1.push (.str (if state.2 then "\n" ++ text else text))).1, true))
  else .ok state

/-- `_answer`. -/
def SubagentTool.answer (tool : SubagentTool) (events : List SessionEvent) : Except String String := do
  let retainer ← TextRetainer.head tool.maxOutput
  let state ← events.foldlM answerPush (retainer, false)
  let result := state.1.finish
  if result.text.isEmpty then return "(the subagent produced no text)"
  if !result.truncated then return result.text
  return result.text ++ "\n\n[" ++ describeOmitted result.omittedBytes "bytes" ++ "]"

/-- How the awaits of a call end: the child comes to its end with these events in its session, an `Exception` comes out of it, or the call
is cancelled. -/
inductive SubagentEnding where
  | idle (events : List SessionEvent)
  | failed (error : String)
  | cancelled

/-- What the call returns; `none` where it raises. -/
def SubagentTool.result (tool : SubagentTool) : SubagentEnding → Option String
  | .idle events =>
    match tool.answer events with
    | .ok text => some text
    | .error error => some ("Error: the subagent failed: " ++ error)
  | .failed error => some ("Error: the subagent failed: " ++ error)
  | .cancelled => none

/-- `f"subagent-{parent}-{depth}-{uuid.uuid4().hex[:8]}"`. -/
def subagentSession (parent : String) (depth : Nat) (token : String) : String :=
  "subagent-" ++ parent ++ "-" ++ toString depth ++ "-" ++ token

/-! ## Calls -/

/-- Where a call is: in `create_agent`, at its awaits, in `dispose`, or over, with what it returned. -/
inductive SubagentPhase where
  | opening
  | waiting
  | closing (result : Option String)
  | ended (result : Option String)

/-- A call that has a child. `live` says whether its caller had an activity signal that was not aborted when the child was made. -/
structure SubagentCall where
  tool : SubagentTool
  caller : Option Nat
  session : String
  object : Nat
  depth : Nat
  activity : Option Nat
  live : Bool
  phase : SubagentPhase

/-- The loop of the agents and the store; the depth that is written on each agent; the signals of the drains; the calls, by the number of
their child; and the call that a segment is run of. -/
structure SubagentState where
  loop : AgentsState := {}
  store : SessionStore := {}
  depths : Nat → Nat := fun _ => 0
  activity : Nat → Option Nat := fun _ => none
  calls : Nat → Option SubagentCall := fun _ => none
  segment : Option Nat := none

/-- What happens: other code uses signals, agents and the store; a drain begins and ends; and the segments of a call. -/
inductive SubagentAction where
  | code (a : CancelAction)
  | createSession (id cwd : Option String) (createdAt : Option Rat)
  | resumed (id : String) (loaded : Loaded)
  | removeSession (id : String)
  | deliver (agent : Nat)
  | settle (agent : Nat)
  | run (tool : SubagentTool) (prompt : PyValue) (mounted : Bool) (caller : Option Nat) (token : String)
  | leave (child : Nat) (ending : SubagentEnding)
  | goOn
  | escape

namespace SubagentState

/-- No segment and no other synchronous call is in progress: it is the event loop's turn. -/
def free (st : SubagentState) : Bool := st.segment.isNone && st.loop.stack.isEmpty

/-- `branch_depth`. -/
def branchDepth (depths : Nat → Nat) (agent : Option Nat) : Nat := (agent.map depths).getD 0

/-- `getattr(caller, "id", None) or "root"`. -/
def parentId (st : SubagentState) (caller : Option Nat) : String :=
  match caller.bind (fun agent => st.loop.agents[agent]?) with
  | some record => if record.session.isEmpty then "root" else record.session
  | none => "root"

/-- `_activity_of`. -/
def activityOf (st : SubagentState) (caller : Option Nat) : Option Nat := caller.bind st.activity

/-- Whether a signal is there and not aborted. -/
def isLive (st : SubagentState) (signal : Option Nat) : Bool :=
  match signal with
  | some s => !(st.loop.signals.at_ s).aborted
  | none => false

/-- The call of a child comes to a phase. -/
def enter (st : SubagentState) (child : Nat) (call : SubagentCall) (phase : SubagentPhase) : SubagentState :=
  { st with calls := Function.update st.calls child (some { call with phase }) }

/-- `_delegate`, up to the session-start listeners of `create_agent`; a session that is there already makes the call raise. -/
def delegate (st : SubagentState) (tool : SubagentTool) (caller : Option Nat) (depth : Nat) (token : String) : SubagentState :=
  let session := subagentSession (st.parentId caller) depth token
  match st.store.create (some session) none none with
  | .error _ => st
  | .ok (object, store) =>
    let activity := st.activityOf caller
    let child := st.loop.agents.length
    { st with
      loop := st.loop.createAgent session activity
      store
      calls := Function.update st.calls child
        (some { tool, caller, session, object, depth, activity, live := st.isLive activity, phase := .opening })
      segment := some child }

/-- `_ensure_draining`: there is an activity while there is a drain. -/
def ensureDraining (st : SubagentState) (agent : Nat) (record : LoopAgent) : SubagentState :=
  match st.activity agent with
  | some _ => st
  | none =>
    { st with
      loop := { st.loop with signals := st.loop.signals.any [some record.lifetime] }
      activity := Function.update st.activity agent (some st.loop.signals.fresh) }

/-- The end of `_drain`. -/
def settle (st : SubagentState) (agent signal : Nat) : SubagentState :=
  { st with
    loop := { st.loop with signals := st.loop.signals.dispose signal }
    activity := Function.update st.activity agent none }

/-- What code can do: nobody but `create_agent` has the signals it fuses for its agents, and what leaves a segment is no action of code. -/
def given (st : SubagentState) : CancelAction → Bool
  | .dispose s => st.loop.agents.all (fun record => record.between != s)
  | .unwind calls => st.segment.isNone || decide (calls < st.loop.stack.length)
  | _ => true

/-- The segment goes on, when what it called has returned. -/
def goOn (st : SubagentState) (child : Nat) (call : SubagentCall) : Option SubagentState :=
  match call.phase with
  | .opening => some { st.enter child call .waiting with
      depths := Function.update st.depths child call.depth
      segment := none }
  | .closing result => some { st.enter child call (.ended result) with
      store := st.store.remove call.session
      segment := none }
  | _ => none

/-- What is no `Exception` leaves the segment: in `create_agent` there is no child yet, and the session is removed; in `dispose` it is not. -/
def escape (st : SubagentState) (child : Nat) (call : SubagentCall) : Option SubagentState :=
  match call.phase with
  | .opening => some { st.enter child call (.ended none) with
      loop := { st.loop with stack := [] }
      store := st.store.remove call.session
      segment := none }
  | .closing _ => some { st.enter child call (.ended none) with
      loop := { st.loop with stack := [] }
      segment := none }
  | _ => none

/-- One action; `none` where it cannot come. -/
def step (st : SubagentState) : SubagentAction → Option SubagentState
  | .code a => if st.given a then (st.loop.step a).map (fun loop => { st with loop }) else none
  | .createSession id cwd createdAt =>
    match st.store.create id cwd createdAt with
    | .ok (_, store) => some { st with store }
    | .error _ => some st
  | .resumed id loaded =>
    match st.store.resumed id loaded with
    | .ok (_, store) => some { st with store }
    | .error _ => some st
  | .removeSession id => some { st with store := st.store.remove id }
  | .deliver agent => st.loop.agents[agent]?.map (fun record => st.ensureDraining agent record)
  | .settle agent => (st.activity agent).map (fun signal => st.settle agent signal)
  | .run tool prompt mounted caller token =>
    if st.free ∧ ∀ agent ∈ caller, agent < st.loop.agents.length then
      match tool.run prompt mounted (branchDepth st.depths caller) with
      | .error _ => some st
      | .ok depth => some (st.delegate tool caller depth token)
    else none
  | .leave child ending =>
    if st.free then
      match st.calls child, st.loop.agents[child]? with
      | some call, some record =>
        match call.phase with
        | .waiting => some { st.enter child call (.closing (call.tool.result ending)) with
            loop := st.loop.disposeAgent child record
            segment := some child }
        | _ => none
      | _, _ => none
    else none
  | .goOn =>
    if st.loop.stack.isEmpty then
      st.segment.bind (fun child => (st.calls child).bind (fun call => st.goOn child call))
    else none
  | .escape => st.segment.bind (fun child => (st.calls child).bind (fun call => st.escape child call))

/-! ## What is to hold -/

/-- A call gave up what it made: its session is not in the store, its child is disposed, and the signal of its caller's turn has no
listener for it. -/
structure Cleaned (st : SubagentState) (child : Nat) (call : SubagentCall) : Prop where
  removed : ∀ entry ∈ st.store.sessions.entries, entry.2 ≠ call.object
  disposed : child ∈ st.loop.disposed
  detached : ∀ s ∈ call.activity, ∀ record, st.loop.agents[child]? = some record → ∀ l ∈ (st.loop.signals.at_ s).listeners,
    ¬l.Targets record.between

/-- The child of a call is one level below its caller, and not too deep. -/
structure Bounded (st : SubagentState) (child : Nat) (call : SubagentCall) : Prop where
  depth : branchDepth st.depths (some child) = branchDepth st.depths call.caller + 1
  bound : (branchDepth st.depths (some child) : Int) ≤ call.tool.maxDepth

/-- What is no `Exception` comes out of no listener that a segment runs. -/
def Contained (st : SubagentState) : SubagentAction → Prop
  | .code (.unwind _) => st.segment = none
  | .escape => False
  | _ => True

/-! ## The invariant -/

/-- What is known of a call by its phase. -/
def Phased (loop : AgentsState) (store : SessionStore) (segment : Option Nat) (child : Nat) (call : SubagentCall) : Prop :=
  match call.phase with
  | .opening => segment = some child
  | .waiting => True
  | .closing _ => segment = some child ∧ (.disposing child ∈ loop.stack ∨ child ∈ loop.disposed)
  | .ended _ => child ∈ loop.disposed ∧ ∀ entry ∈ store.sessions.entries, entry.2 ≠ call.object

/-- What is known of a call, from the loop, the store, the depths and the segment. -/
structure Kept (loop : AgentsState) (store : SessionStore) (depths : Nat → Nat) (segment : Option Nat) (child : Nat)
    (call : SubagentCall) : Prop where
  made : child < loop.agents.length
  called : ∀ agent ∈ call.caller, agent < child
  depth : call.depth = branchDepth depths call.caller + 1
  bound : (call.depth : Int) ≤ call.tool.maxDepth
  stamped : call.phase = .opening ∨ depths child = call.depth
  watched : ∀ s ∈ call.activity, ∀ record, loop.agents[child]? = some record →
    ((∃ l ∈ (loop.signals.at_ s).listeners, l.Targets record.between) ↔ call.live = true)
  idle : call.activity = none → call.live = false
  object : call.object < store.objects.length
  session : ∀ entry ∈ store.sessions.entries, entry.2 = call.object → entry.1 = call.session
  phased : Phased loop store segment child call

/-- The signals of an agent were made one after the other, a drain's is neither, and no agent in the making has called for a subagent. -/
structure Inv (st : SubagentState) : Prop where
  linked : st.loop.signals.Linked
  records : ∀ record ∈ st.loop.agents, record.between < record.lifetime ∧ record.lifetime < st.loop.signals.fresh
  apart : ∀ record ∈ st.loop.agents, ∀ other ∈ st.loop.agents, record.between ≠ other.lifetime
  drains : ∀ agent s, st.activity agent = some s → s < st.loop.signals.fresh ∧ ∀ record ∈ st.loop.agents, record.between ≠ s
  objects : ∀ entry ∈ st.store.sessions.entries, entry.2 < st.store.objects.length
  calls : ∀ child call, st.calls child = some call → Kept st.loop st.store st.depths st.segment child call
  newest : ∀ child call, st.calls child = some call → call.phase = .opening → ∀ other call', st.calls other = some call' →
    ∀ agent ∈ call'.caller, agent ≠ child

theorem Inv.start : Inv {} where
  linked := ⟨fun _ _ hl => (by cases hl), fun _ _ hentry => (by cases hentry)⟩
  records _ h := by cases h
  apart _ h := by cases h
  drains _ _ h := by cases h
  objects _ h := by cases h
  calls _ _ h := by cases h
  newest _ _ h := by cases h

section Rules

variable {st : SubagentState}

theorem Kept.loop {loop loop' : AgentsState} {store : SessionStore} {depths : Nat → Nat} {segment : Option Nat} {child : Nat}
    {call : SubagentCall} {gone : Nat → Prop} (h : Kept loop store depths segment child call) (hmoves : AgentsState.Moves gone loop loop')
    (hold : ∀ record ∈ loop.agents, record.between < loop.signals.fresh ∧ ¬gone record.between)
    (hdisposing : segment = some child → .disposing child ∈ loop.stack → .disposing child ∈ loop'.stack ∨ child ∈ loop'.disposed) :
    Kept loop' store depths segment child call where
  made := (List.getElem?_eq_some_iff.mp (hmoves.record (List.getElem?_eq_getElem h.made))).1
  called := h.called
  depth := h.depth
  bound := h.bound
  stamped := h.stamped
  watched s hs record hrecord := by
    have hsame : loop.agents[child]? = some record := by
      rw [List.getElem?_eq_getElem h.made, ← hrecord, hmoves.record (List.getElem?_eq_getElem h.made)]
    obtain ⟨hlt, hgone⟩ := hold record (List.mem_of_getElem? hsame)
    rw [hmoves.signals.iff hlt hgone]
    exact h.watched s hs record hsame
  idle := h.idle
  object := h.object
  session := h.session
  phased := by
    have hphased := h.phased
    unfold Phased at hphased ⊢
    split
    next hphase => simpa only [hphase] using hphased
    next => trivial
    next hphase =>
      simp only [hphase] at hphased
      obtain ⟨hsegment, hstack | hdisposed⟩ := hphased
      · exact ⟨hsegment, hdisposing hsegment hstack⟩
      · exact ⟨hsegment, Or.inr (hmoves.disposed _ hdisposed)⟩
    next hphase =>
      simp only [hphase] at hphased
      exact ⟨hmoves.disposed _ hphased.1, hphased.2⟩

theorem Inv.loop (h : st.Inv) {loop : AgentsState} (gone : Nat → Prop) (hmoves : AgentsState.Moves gone st.loop loop)
    (hgone : ∀ record ∈ st.loop.agents, ¬gone record.between)
    (hdisposing : ∀ child, st.segment = some child → .disposing child ∈ st.loop.stack →
      .disposing child ∈ loop.stack ∨ child ∈ loop.disposed) : Inv { st with loop } := by
  have hfresh := hmoves.signals.fresh
  -- an agent that is there now was there before, or its signals are new
  have hagents : ∀ record ∈ loop.agents, record ∈ st.loop.agents ∨ st.loop.signals.fresh ≤ record.between ∧
      record.between < record.lifetime ∧ record.lifetime < loop.signals.fresh := by
    intro record hrecord
    rcases hmoves.agents with hsame | ⟨new, hnew, hborn⟩
    · exact Or.inl (hsame ▸ hrecord)
    · rw [hnew] at hrecord
      rcases List.mem_append.mp hrecord with hold | hlast
      · exact Or.inl hold
      · rw [List.mem_singleton.mp hlast]
        exact Or.inr hborn
  refine ⟨hmoves.signals.linked, fun record hrecord => ?_, fun record hrecord other hother => ?_, fun agent s hs => ?_,
    h.objects, fun child call hcall => ?_, h.newest⟩
  · rcases hagents record hrecord with hold | ⟨-, hlt, hlast⟩
    · exact ⟨(h.records record hold).1, Nat.lt_of_lt_of_le (h.records record hold).2 hfresh⟩
    · exact ⟨hlt, hlast⟩
  · rcases hmoves.agents with hsame | ⟨new, hnew, hborn, hlt, -⟩
    · exact h.apart record (hsame ▸ hrecord) other (hsame ▸ hother)
    · rw [hnew] at hrecord hother
      rcases List.mem_append.mp hrecord with hrecord | hrecord
      · have hbelow := h.records record hrecord
        rcases List.mem_append.mp hother with hother | hother
        · exact h.apart record hrecord other hother
        · rw [List.mem_singleton.mp hother]
          omega
      · rw [List.mem_singleton.mp hrecord]
        rcases List.mem_append.mp hother with hother | hother
        · have hbelow := h.records other hother
          omega
        · rw [List.mem_singleton.mp hother]
          exact Nat.ne_of_lt hlt
  · obtain ⟨hlt, hapart⟩ := h.drains agent s hs
    refine ⟨Nat.lt_of_lt_of_le hlt hfresh, fun record hrecord => ?_⟩
    rcases hagents record hrecord with hold | ⟨hborn, -⟩
    · exact hapart record hold
    · exact (Nat.ne_of_lt (Nat.lt_of_lt_of_le hlt hborn)).symm
  · exact (h.calls child call hcall).loop hmoves (fun record hrecord =>
      ⟨Nat.lt_trans (h.records record hrecord).1 (h.records record hrecord).2, hgone record hrecord⟩) (hdisposing child)

theorem Inv.store (h : st.Inv) {store : SessionStore} (hobjects : st.store.objects.length ≤ store.objects.length)
    (hsessions : ∀ entry ∈ store.sessions.entries,
      entry ∈ st.store.sessions.entries ∨ st.store.objects.length ≤ entry.2 ∧ entry.2 < store.objects.length) :
    Inv { st with store } := by
  refine ⟨h.linked, h.records, h.apart, h.drains, fun entry hentry => ?_, fun child call hcall => ?_, h.newest⟩
  · rcases hsessions entry hentry with hold | ⟨-, hnew⟩
    · exact Nat.lt_of_lt_of_le (h.objects entry hold) hobjects
    · exact hnew
  have hkept := h.calls child call hcall
  have hold : ∀ entry ∈ store.sessions.entries, entry.2 = call.object → entry ∈ st.store.sessions.entries := by
    intro entry hentry heq
    rcases hsessions entry hentry with hold | ⟨hnew, -⟩
    · exact hold
    · exact absurd hkept.object (by rw [← heq]; exact Nat.not_lt.mpr hnew)
  refine ⟨hkept.made, hkept.called, hkept.depth, hkept.bound, hkept.stamped, hkept.watched, hkept.idle,
    Nat.lt_of_lt_of_le hkept.object hobjects, fun entry hentry heq => hkept.session entry (hold entry hentry heq) heq, ?_⟩
  have hphased := hkept.phased
  unfold Phased at hphased ⊢
  split
  next hphase => simpa only [hphase] using hphased
  next => trivial
  next hphase => simpa only [hphase] using hphased
  next hphase =>
    simp only [hphase] at hphased
    exact ⟨hphased.1, fun entry hentry heq => hphased.2 entry (hold entry hentry heq) heq⟩

theorem Inv.remove (h : st.Inv) (id : String) : Inv { st with store := st.store.remove id } :=
  h.store (Nat.le_refl _) (fun _ hentry => Or.inl (List.mem_filter.mp hentry).1)

theorem Inv.adds (h : st.Inv) {store : SessionStore} {id : String} {object : Nat} {s : Session} (hadds : st.store.Adds store id object s) :
    Inv { st with store } := by
  have hlength : store.objects.length = st.store.objects.length + 1 := by rw [hadds.objects, List.length_append, List.length_singleton]
  refine h.store (by omega) (fun entry hentry => ?_)
  rw [hadds.sessions] at hentry
  rcases Dict.mem_set.mp hentry with ⟨-, hvalue⟩ | ⟨-, hold⟩
  · exact Or.inr (by rw [hvalue, hadds.next, hlength]; exact ⟨Nat.le_refl _, Nat.lt_succ_self _⟩)
  · exact Or.inl hold

/-- A call whose segment is not run is known the same whatever segment is. -/
theorem Kept.resegment {loop : AgentsState} {store : SessionStore} {depths : Nat → Nat} {segment : Option Nat} {child : Nat}
    {call : SubagentCall} (h : Kept loop store depths segment child call) (hother : segment ≠ some child) (segment' : Option Nat) :
    Kept loop store depths segment' child call := by
  refine ⟨h.made, h.called, h.depth, h.bound, h.stamped, h.watched, h.idle, h.object, h.session, ?_⟩
  have hphased := h.phased
  unfold Phased at hphased ⊢
  split
  next hphase =>
    simp only [hphase] at hphased
    exact absurd hphased hother
  next => trivial
  next hphase =>
    simp only [hphase] at hphased
    exact absurd hphased.1 hother
  next hphase => simpa only [hphase] using hphased

theorem Inv.opening (h : st.Inv) {child : Nat} {call : SubagentCall} (hcall : st.calls child = some call) (hphase : call.phase = .opening) :
    st.segment = some child := by
  have hphased := (h.calls child call hcall).phased
  rwa [Phased, hphase] at hphased

/-- Where no other segment is run, no call is in the making after one has gone on. -/
theorem Inv.not_opening (h : st.Inv) {child : Nat} (hsegment : ∀ other, st.segment = some other → other = child) (call : SubagentCall)
    {phase : SubagentPhase} (hphase : phase ≠ .opening) {other : Nat} {call' : SubagentCall}
    (hcall' : (st.enter child call phase).calls other = some call') : call'.phase ≠ .opening := by
  intro hopening
  dsimp only [enter] at hcall'
  by_cases hother : other = child
  · rw [hother, Function.update_self] at hcall'
    obtain rfl := Option.some.inj hcall'
    exact hphase hopening
  · rw [Function.update_of_ne hother] at hcall'
    exact hother (hsegment other (h.opening hcall' hopening))

theorem Inv.ensureDraining (h : st.Inv) (agent : Nat) (record : LoopAgent) : (st.ensureDraining agent record).Inv := by
  unfold SubagentState.ensureDraining
  split
  · exact h
  · have hloop : Inv { st with loop := { st.loop with signals := st.loop.signals.any [some record.lifetime] } } :=
      h.loop (fun _ => False) (.of_signals (h.linked.keeps_any _) rfl rfl) (fun _ _ hgone => hgone) (fun _ _ hmem => Or.inl hmem)
    refine ⟨hloop.linked, hloop.records, hloop.apart, fun agent' s hs => ?_, hloop.objects, hloop.calls, hloop.newest⟩
    dsimp only at hs ⊢
    by_cases hagent : agent' = agent
    · rw [hagent, Function.update_self] at hs
      obtain rfl := Option.some.inj hs
      refine ⟨by rw [Signals.any_fresh]; exact Nat.lt_succ_self _, fun other hother => ?_⟩
      exact Nat.ne_of_lt (Nat.lt_trans (h.records other hother).1 (h.records other hother).2)
    · rw [Function.update_of_ne hagent] at hs
      exact hloop.drains agent' s hs

theorem Inv.settle (h : st.Inv) {agent signal : Nat} (hsignal : st.activity agent = some signal) : (st.settle agent signal).Inv := by
  have hloop : Inv { st with loop := { st.loop with signals := st.loop.signals.dispose signal } } :=
    h.loop (fun s => s = signal) (.of_signals (h.linked.keeps_dispose signal rfl) rfl rfl) (h.drains agent signal hsignal).2
      (fun _ _ hmem => Or.inl hmem)
  refine ⟨hloop.linked, hloop.records, hloop.apart, fun agent' s hs => ?_, hloop.objects, hloop.calls, hloop.newest⟩
  refine hloop.drains agent' s ?_
  dsimp only [SubagentState.settle] at hs
  by_cases hagent : agent' = agent
  · rw [hagent, Function.update_self] at hs
    cases hs
  · rwa [Function.update_of_ne hagent] at hs

theorem Inv.code (h : st.Inv) {a : CancelAction} {loop : AgentsState} (hgiven : st.given a = true) (hcontained : st.Contained (.code a))
    (hstep : st.loop.step a = some loop) : Inv { st with loop } := by
  refine h.loop _ (AgentsState.step_moves h.linked hstep) (fun record hrecord hgone => ?_) (fun child hsegment hmem => ?_)
  · rcases hgone with rfl | ⟨other, hother, heq⟩
    · simp only [given, List.all_eq_true, bne_iff_ne] at hgiven
      exact hgiven record hrecord rfl
    · exact h.apart record hrecord other hother heq.symm
  · refine AgentsState.step_disposing (fun calls heq => ?_) hstep hmem
    subst heq
    have hnone : st.segment = none := hcontained
    rw [hnone] at hsegment
    cases hsegment

theorem subagentSession_ne (parent : String) (depth : Nat) (token : String) : (subagentSession parent depth token).isEmpty = false := by
  simp [subagentSession]

/-- A store that creates the session of a call has it under its id. -/
theorem create_subagentSession {store store' : SessionStore} {parent token : String} {depth object : Nat}
    (h : store.create (some (subagentSession parent depth token)) none none = .ok (object, store')) :
    ∃ s, store.Adds store' (subagentSession parent depth token) object s := by
  have hid : store.sessionId (some (subagentSession parent depth token)) = subagentSession parent depth token := by
    rw [SessionStore.sessionId, subagentSession_ne]
    rfl
  rcases store.create_eq (some (subagentSession parent depth token)) none none with ⟨_, -, herror⟩ | ⟨-, object', store'', hok, hadds⟩
  · rw [herror] at h
    cases h
  · rw [hok] at h
    cases h
    exact ⟨_, hid ▸ hadds⟩

/-- The caller's signal has a listener for the new agent exactly if it is there and not aborted. -/
theorem watched_createAgent {loop : AgentsState} (h : loop.signals.Linked) (session : String) {s : Nat} (hs : s < loop.signals.fresh) :
    (∃ l ∈ ((loop.createAgent session (some s)).signals.at_ s).listeners, l.Targets loop.signals.fresh) ↔
      (loop.signals.at_ s).aborted = false := by
  have hfirst : Signals.Keeps (fun _ => False) loop.signals (loop.signals.any [some s, some AgentsState.teardown]) := h.keeps_any _
  have hsecond : Signals.Keeps (fun _ => False) _ (loop.createAgent session (some s)).signals :=
    hfirst.linked.keeps_any [some loop.signals.fresh]
  have hnew : loop.signals.fresh < (loop.signals.any [some s, some AgentsState.teardown]).fresh := by
    rw [Signals.any_fresh]
    exact Nat.lt_succ_self _
  rw [hsecond.iff hnew id, h.any_iff _ hs]
  simp

/-- `_delegate`, up to the session-start listeners. -/
theorem Inv.delegate (h : st.Inv) (hfree : st.segment = none) {tool : SubagentTool} {caller : Option Nat} {depth : Nat}
    (hcaller : ∀ agent ∈ caller, agent < st.loop.agents.length) (hdepth : depth = branchDepth st.depths caller + 1)
    (hbound : (depth : Int) ≤ tool.maxDepth) (token : String) : (st.delegate tool caller depth token).Inv := by
  unfold SubagentState.delegate
  dsimp only
  split
  · exact h
  next object store hcreate =>
    obtain ⟨s, hadds⟩ := create_subagentSession hcreate
    have hmoved : Inv { st with loop := st.loop.createAgent (subagentSession (st.parentId caller) depth token) (st.activityOf caller) } :=
      h.loop (fun _ => False) (AgentsState.createAgent_moves h.linked _ _) (fun _ _ hgone => hgone)
        (fun child hsegment => by rw [hfree] at hsegment; cases hsegment)
    have hmade := hmoved.adds hadds
    refine ⟨hmade.linked, hmade.records, hmade.apart, hmade.drains, hmade.objects, fun child call hcall => ?_,
      fun child call hcall hphase other call' hcall' agent hagent => ?_⟩
    · dsimp only at hcall ⊢
      by_cases hchild : child = st.loop.agents.length
      · subst hchild
        rw [Function.update_self] at hcall
        obtain rfl := Option.some.inj hcall
        refine ⟨by simp [AgentsState.createAgent], hcaller, hdepth, hbound, Or.inl rfl, fun signal hsignal record hrecord => ?_,
          fun hnone => ?_, ?_, fun entry hentry heq => ?_, rfl⟩
        · simp only [AgentsState.createAgent, List.getElem?_concat_length, Option.some.injEq] at hrecord
          dsimp only at hsignal ⊢
          obtain ⟨agent, -, hactivity⟩ := Option.bind_eq_some_iff.mp hsignal
          rw [← hrecord, hsignal, watched_createAgent h.linked _ (h.drains agent signal hactivity).1]
          simp [isLive]
        · dsimp only at hnone ⊢
          rw [hnone]
          rfl
        · rw [hadds.next, hadds.objects, List.length_append]
          exact Nat.lt_succ_self _
        · rw [hadds.sessions] at hentry
          rcases Dict.mem_set.mp hentry with ⟨hkey, -⟩ | ⟨-, hold⟩
          · exact hkey
          · refine absurd (h.objects entry hold) ?_
            rw [heq]
            exact Nat.not_lt.mpr (Nat.le_of_eq hadds.next.symm)
      · rw [Function.update_of_ne hchild] at hcall
        exact (hmade.calls child call hcall).resegment (by simp [hfree]) _
    · dsimp only at hcall hcall'
      by_cases hchild : child = st.loop.agents.length
      · by_cases hother : other = st.loop.agents.length
        · rw [hother, Function.update_self] at hcall'
          obtain rfl := Option.some.inj hcall'
          exact hchild ▸ Nat.ne_of_lt (hcaller agent hagent)
        · rw [Function.update_of_ne hother] at hcall'
          have hkept := h.calls other call' hcall'
          exact hchild ▸ Nat.ne_of_lt (Nat.lt_trans (hkept.called agent hagent) hkept.made)
      · -- when it is the event loop's turn no other agent is in the making
        rw [Function.update_of_ne hchild] at hcall
        have hopening := h.opening hcall hphase
        rw [hfree] at hopening
        cases hopening

theorem Inv.leave (h : st.Inv) (hfree : st.segment = none) {child : Nat} {call : SubagentCall} {record : LoopAgent}
    (hcall : st.calls child = some call) (hphase : call.phase = .waiting) (result : Option String) :
    Inv { st.enter child call (.closing result) with
      loop := st.loop.disposeAgent child record
      segment := some child } := by
  have hmoved : Inv { st with loop := st.loop.disposeAgent child record } :=
    h.loop (fun _ => False) (AgentsState.disposeAgent_moves st.loop h.linked child record) (fun _ _ hgone => hgone)
      (fun child hsegment => by rw [hfree] at hsegment; cases hsegment)
  have hdisposing : .disposing child ∈ (st.loop.disposeAgent child record).stack :=
    AgentsState.mem_stack_abortBy { st.loop with stack := .disposing child :: st.loop.stack } List.mem_cons_self _ _
  refine ⟨hmoved.linked, hmoved.records, hmoved.apart, hmoved.drains, hmoved.objects, fun other call' hcall' => ?_,
    fun other call' hcall' hphase' other' call'' hcall'' agent hagent => ?_⟩
  · dsimp only [enter] at hcall' ⊢
    by_cases hother : other = child
    · rw [hother, Function.update_self] at hcall'
      obtain rfl := Option.some.inj hcall'
      have hkept := hmoved.calls child call hcall
      rw [hother]
      refine ⟨hkept.made, hkept.called, hkept.depth, hkept.bound, Or.inr (hkept.stamped.resolve_left ?_), hkept.watched, hkept.idle,
        hkept.object, hkept.session, rfl, Or.inl hdisposing⟩
      simp [hphase]
    · rw [Function.update_of_ne hother] at hcall'
      exact (hmoved.calls other call' hcall').resegment (by simp [hfree]) _
  · exact absurd hphase' (h.not_opening (by simp [hfree]) call (by simp) hcall')

theorem branchDepth_update (depths : Nat → Nat) (depth : Nat) {child : Nat} {caller : Option Nat} (h : ∀ agent ∈ caller, agent ≠ child) :
    branchDepth (Function.update depths child depth) caller = branchDepth depths caller := by
  cases caller with
  | none => rfl
  | some agent => simp [branchDepth, Function.update_of_ne (h agent rfl)]

/-- `create_agent` has returned: the depth is written on the child. -/
theorem Inv.made (h : st.Inv) {child : Nat} {call : SubagentCall} (hsegment : st.segment = some child)
    (hcall : st.calls child = some call) (hphase : call.phase = .opening) :
    Inv { st.enter child call .waiting with
      depths := Function.update st.depths child call.depth
      segment := none } := by
  refine ⟨h.linked, h.records, h.apart, h.drains, h.objects, fun other call' hcall' => ?_,
    fun other call' hcall' hphase' other' call'' hcall'' agent hagent => ?_⟩
  · dsimp only [enter] at hcall' ⊢
    by_cases hother : other = child
    · rw [hother, Function.update_self] at hcall'
      obtain rfl := Option.some.inj hcall'
      have hkept := h.calls child call hcall
      have hsame := branchDepth_update st.depths call.depth
        (fun agent hagent => Nat.ne_of_lt (hkept.called agent hagent))
      rw [hother]
      exact ⟨hkept.made, hkept.called, hsame ▸ hkept.depth, hkept.bound, Or.inr (Function.update_self _ _ _), hkept.watched, hkept.idle,
        hkept.object, hkept.session, trivial⟩
    · rw [Function.update_of_ne hother] at hcall'
      have hkept := (h.calls other call' hcall').resegment (by rw [hsegment]; exact fun heq => hother (Option.some.inj heq).symm) none
      have hsame := branchDepth_update st.depths call.depth (h.newest child call hcall hphase other call' hcall')
      exact ⟨hkept.made, hkept.called, hsame ▸ hkept.depth, hkept.bound,
        by rw [Function.update_of_ne hother]; exact hkept.stamped, hkept.watched, hkept.idle, hkept.object, hkept.session, hkept.phased⟩
  · exact absurd hphase' (h.not_opening (by simp [hsegment]) call (by simp) hcall')

/-- `dispose` has returned: the session is removed, and the call is over. -/
theorem Inv.ended (h : st.Inv) (hstack : st.loop.stack = []) {child : Nat} {call : SubagentCall} (hsegment : st.segment = some child)
    (hcall : st.calls child = some call) {result : Option String} (hphase : call.phase = .closing result) :
    Inv { st.enter child call (.ended result) with
      store := st.store.remove call.session
      segment := none } := by
  have hremoved := h.remove call.session
  refine ⟨hremoved.linked, hremoved.records, hremoved.apart, hremoved.drains, hremoved.objects, fun other call' hcall' => ?_,
    fun other call' hcall' hphase' other' call'' hcall'' agent hagent => ?_⟩
  · dsimp only [enter] at hcall' ⊢
    by_cases hother : other = child
    · rw [hother, Function.update_self] at hcall'
      obtain rfl := Option.some.inj hcall'
      have hkept := hremoved.calls child call hcall
      have hphased := hkept.phased
      rw [Phased, hphase, hstack] at hphased
      rw [hother]
      refine ⟨hkept.made, hkept.called, hkept.depth, hkept.bound, Or.inr (hkept.stamped.resolve_left (by simp [hphase])), hkept.watched,
        hkept.idle, hkept.object, hkept.session, hphased.2.resolve_left (by simp), fun entry hentry heq => ?_⟩
      have hkey := hkept.session entry hentry heq
      simp [SessionStore.remove, Dict.pop, hkey] at hentry
    · rw [Function.update_of_ne hother] at hcall'
      exact (hremoved.calls other call' hcall').resegment (by rw [hsegment]; exact fun heq => hother (Option.some.inj heq).symm) none
  · exact absurd hphase' (h.not_opening (by simp [hsegment]) call (by simp) hcall')

theorem segment_of_free (h : st.free = true) : st.segment = none := by
  rw [free, Bool.and_eq_true] at h
  exact Option.isNone_iff_eq_none.mp h.1

/-- Every step of which nothing but an `Exception` comes keeps the invariant. -/
theorem Inv.step {st' : SubagentState} (h : st.Inv) {a : SubagentAction} (hcontained : st.Contained a) (hstep : st.step a = some st') :
    st'.Inv := by
  cases a with
  | code a =>
    obtain ⟨hgiven, hstep⟩ := Option.ite_none_right_eq_some.mp hstep
    obtain ⟨loop, hloop, rfl⟩ := Option.map_eq_some_iff.mp hstep
    exact h.code hgiven hcontained hloop
  | createSession id cwd createdAt =>
    simp only [SubagentState.step] at hstep
    rcases st.store.create_eq id cwd createdAt with ⟨_, -, herror⟩ | ⟨-, _, _, hok, hadds⟩
    · rw [herror] at hstep
      obtain rfl := Option.some.inj hstep
      exact h
    · rw [hok] at hstep
      obtain rfl := Option.some.inj hstep
      exact h.adds hadds
  | resumed id loaded =>
    simp only [SubagentState.step] at hstep
    rcases st.store.resumed_eq id loaded with ⟨_, -, herror⟩ | ⟨_, _, _, -, hok, hadds⟩
    · rw [herror] at hstep
      obtain rfl := Option.some.inj hstep
      exact h
    · rw [hok] at hstep
      obtain rfl := Option.some.inj hstep
      exact h.adds hadds
  | removeSession id =>
    obtain rfl := Option.some.inj hstep
    exact h.remove id
  | deliver agent =>
    obtain ⟨record, -, rfl⟩ := Option.map_eq_some_iff.mp hstep
    exact h.ensureDraining agent record
  | settle agent =>
    obtain ⟨signal, hsignal, rfl⟩ := Option.map_eq_some_iff.mp hstep
    exact h.settle hsignal
  | run tool prompt mounted caller token =>
    obtain ⟨⟨hfree, hcaller⟩, hstep⟩ := Option.ite_none_right_eq_some.mp hstep
    split at hstep
    next =>
      obtain rfl := Option.some.inj hstep
      exact h
    next depth hrun =>
      obtain rfl := Option.some.inj hstep
      obtain ⟨hdepth, hbound⟩ := SubagentTool.run_ok hrun
      exact h.delegate (segment_of_free hfree) hcaller hdepth hbound token
  | leave child ending =>
    obtain ⟨hfree, hstep⟩ := Option.ite_none_right_eq_some.mp hstep
    split at hstep
    next call record hcall hrecord =>
      split at hstep
      next hphase =>
        obtain rfl := Option.some.inj hstep
        exact h.leave (segment_of_free hfree) hcall hphase (call.tool.result ending)
      next => cases hstep
    next => cases hstep
  | goOn =>
    obtain ⟨hstack, hstep⟩ := Option.ite_none_right_eq_some.mp hstep
    obtain ⟨child, hsegment, hstep⟩ := Option.bind_eq_some_iff.mp hstep
    obtain ⟨call, hcall, hstep⟩ := Option.bind_eq_some_iff.mp hstep
    unfold SubagentState.goOn at hstep
    split at hstep
    next hphase =>
      obtain rfl := Option.some.inj hstep
      exact h.made hsegment hcall hphase
    next result hphase =>
      obtain rfl := Option.some.inj hstep
      exact h.ended (List.isEmpty_iff.mp hstack) hsegment hcall hphase
    next => cases hstep
  | escape => exact hcontained.elim

end Rules

end SubagentState

open SubagentState

/-- In every run in which nothing but an `Exception` comes out of a listener, the child of every call is one level below its caller and not
too deep, and what a call that is over made is given up exactly if its caller had no activity signal, or an aborted one, when the child
was made. -/
theorem subagents_cleaned_iff {st : SubagentState} (h : Machine.Reach SubagentState.step Contained {} st) {child : Nat}
    {call : SubagentCall} (hcall : st.calls child = some call) :
    (call.phase ≠ .opening → st.Bounded child call) ∧
      ∀ result, call.phase = .ended result → (st.Cleaned child call ↔ call.live = false) := by
  have hinv : st.Inv := h.invariant (P := Inv) .start (fun _ _ _ hinv hcontained hstep => hinv.step hcontained hstep)
  have hkept := hinv.calls child call hcall
  refine ⟨fun hphase => ?_, fun result hphase => ?_⟩
  · have hstamped : branchDepth st.depths (some child) = call.depth := hkept.stamped.resolve_left hphase
    exact ⟨hstamped.trans hkept.depth, hstamped ▸ hkept.bound⟩
  · have hphased := hkept.phased
    rw [Phased, hphase] at hphased
    have hrecord := List.getElem?_eq_getElem hkept.made
    constructor
    · rintro ⟨-, -, hdetached⟩
      cases hactivity : call.activity with
      | none => exact hkept.idle hactivity
      | some s =>
        by_contra hlive
        obtain ⟨l, hl, htarget⟩ := (hkept.watched s hactivity _ hrecord).mpr (by simpa using hlive)
        exact hdetached s hactivity _ hrecord l hl htarget
    · intro hlive
      refine ⟨hphased.2, hphased.1, fun s hs record hrecord l hl htarget => ?_⟩
      have hwatched := (hkept.watched s hs record hrecord).mp ⟨l, hl, htarget⟩
      rw [hlive] at hwatched
      cases hwatched

namespace SubagentRuns

/-- A tool as it is configured by default. -/
def tool : SubagentTool := { provider := "acme", model := "one" }

/-- An agent that has no turn calls for a subagent. -/
def apart : List SubagentAction :=
  [.code (.createAgent "chat-1" none), .code .proceed, .run tool (.str "Go and find out.") true (some 0) "0a1b2c3d", .code .proceed,
    .goOn, .leave 1 .cancelled, .code .proceed, .code .proceed, .goOn]

end SubagentRuns

open SubagentRuns in
/-- The call of an agent that has no turn gives up what it made, although it is cancelled. -/
theorem subagents_cleaned_apart : ∃ st call, Machine.exec SubagentState.step {} apart = some st ∧ st.calls 1 = some call ∧
    call.phase = .ended none ∧ st.Bounded 1 call ∧ st.Cleaned 1 call := by
  have hreach : ∃ st, Machine.exec SubagentState.step {} apart = some st ∧ Machine.Reach SubagentState.step Contained {} st ∧
      (st.calls 1).map (fun call => (call.live, call.phase)) = some (false, .ended none) :=
    ⟨_, rfl, .next .goOn (.next (.code .proceed) (.next (.code .proceed) (.next (.leave 1 .cancelled) (.next .goOn (.next (.code .proceed)
      (.next (.run tool (.str "Go and find out.") true (some 0) "0a1b2c3d") (.next (.code .proceed)
        (.next (.code (.createAgent "chat-1" none)) .start trivial rfl) trivial rfl) trivial rfl) trivial rfl) trivial rfl) trivial rfl)
      trivial rfl) trivial rfl) trivial rfl, rfl⟩
  obtain ⟨st, hrun, hst, hcall⟩ := hreach
  obtain ⟨call, hcall, heq⟩ := Option.map_eq_some_iff.mp hcall
  obtain ⟨hlive, hphase⟩ := Prod.mk.inj heq
  have hcleaned := subagents_cleaned_iff hst hcall
  exact ⟨st, call, hrun, hcall, hphase, hcleaned.1 (by simp [hphase]), (hcleaned.2 none hphase).mpr hlive⟩

/-- A call that is over has left a listener on the signal of its caller's turn. -/
theorem not_subagents_cleaned : ∃ st call, Machine.Reach SubagentState.step Contained {} st ∧ st.calls 1 = some call ∧
    call.phase = .ended none ∧ ¬st.Cleaned 1 call := by
  have hreach : ∃ st, Machine.Reach SubagentState.step Contained {} st ∧
      (st.calls 1).map (fun call => (call.activity, call.phase)) = some (some 3, .ended none) ∧
      (st.loop.agents[1]?).map LoopAgent.between = some 4 ∧
      (st.loop.signals.at_ 3).listeners.map Listener.callback = [.fused 4] :=
    ⟨_, .next .goOn (.next (.code .proceed) (.next (.code .proceed) (.next (.leave 1 .cancelled) (.next .goOn (.next (.code .proceed)
      (.next (.run SubagentRuns.tool (.str "Go and find out.") true (some 0) "0a1b2c3d") (.next (.deliver 0) (.next (.code .proceed)
        (.next (.code (.createAgent "chat-1" none)) .start trivial rfl) trivial rfl) trivial rfl) trivial rfl) trivial rfl) trivial rfl)
      trivial rfl) trivial rfl) trivial rfl) trivial rfl, rfl, rfl, rfl⟩
  obtain ⟨st, hst, hcall, hagent, hlisteners⟩ := hreach
  obtain ⟨call, hcall, heq⟩ := Option.map_eq_some_iff.mp hcall
  obtain ⟨hactivity, hphase⟩ := Prod.mk.inj heq
  obtain ⟨record, hrecord, hbetween⟩ := Option.map_eq_some_iff.mp hagent
  refine ⟨st, call, hst, hcall, hphase, fun hcleaned => ?_⟩
  obtain ⟨l, hl, htarget⟩ := List.mem_map.mp (hlisteners ▸ List.mem_singleton_self (Callback.fused 4))
  exact hcleaned.detached 3 hactivity record hrecord l hl (hbetween ▸ htarget)

end Pydsh
