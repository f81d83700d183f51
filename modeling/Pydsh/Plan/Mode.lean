import Pydsh.Agent.TurnLog
import Pydsh.Lib.History
import Pydsh.Lib.Machine
import Pydsh.Session.Logged
import Pydsh.Session.Replay

/-!
# Plan mode is constant within a turn

`plan/mode.py` with the agent that runs the turns: a flip chosen while a turn runs is held until `apply_pending` is called in a later
turn, which plan mode's own listener does before the first step is entered. The listener does so only where it sees an `enter`
decision of the listeners inside it, and the agent enters a step without one too. Then the intent is still held while the turn runs,
and a call of `apply_pending` by a host records it there (`plan_mode_constant`).
-/

namespace Pydsh

/-- The mode an event of `plan/mode` records. -/
def recordedMode (data : Json) : Bool :=
  match data with
  | .obj kvs => ((field? kvs "active").getD (.bool false)).loads.truthy
  | _ => false

/-- `fold_plan_mode`. -/
def foldPlanMode (events : List SessionEvent) : Bool :=
  events.foldl (fun active e => if e.type = .planMode then recordedMode e.data else active) false

/-- `has_open_turn`. -/
def hasOpenTurn (events : List SessionEvent) : Bool :=
  events.foldl (fun running e => if e.type = .turnStart then true else if e.type = .turnEnd then false else running) false

/-- `last_turn_start_seq`. -/
def lastTurnStartSeq (events : List SessionEvent) : Nat :=
  events.foldl (fun seq e => if e.type = .turnStart then e.seq else seq) 0

/-- A held intent, with the turn it was queued in. -/
structure PendingMode where
  active : Bool
  turnSeq : Nat

/-- Where the agent is: between turns; or in a turn, after so many steps: at the end of the last one, while the listeners decide on the
next one, or in it. -/
inductive TurnPhase where
  | idle
  | boundary (turn steps : Nat)
  | deciding (turn steps : Nat)
  | entered (turn steps : Nat)

/-- What plan mode is about: a request is assembled under a mode, in the turn with a start seq; an intent that was queued in one turn is
recorded when another is the last to have started, and is running or not. -/
inductive PlanDone where
  | assembled (turn : Nat) (mode : Bool)
  | applied (queuedIn turn : Nat) (running : Bool)

/-- A session with its agent, the intent held for it, the reviews of a plan that are awaited, and what was done. -/
structure PlanRun where
  session : Session
  phase : TurnPhase := .idle
  pending : Option PendingMode := none
  reviews : Nat := 0
  history : List PlanDone := []

/-- What `set` returns. -/
inductive SetOutcome where
  | committed | queued | cancelled | noop
  deriving DecidableEq

namespace PlanRun

/-- An event is put into the log, unless the gate refuses its data. -/
def log (s : PlanRun) (type : EventType) (data : PyValue) (time : Rat) : PlanRun :=
  { s with session := (s.session.append { eventType := type, data, time }).2 }

/-- The event that records a mode. -/
def record (s : PlanRun) (active : Bool) (time : Rat) : PlanRun := s.log .planMode (Json.obj [("active", .bool active)]).loads time

/-- The recorded mode. -/
def mode (s : PlanRun) : Bool := foldPlanMode s.session.events

/-- A turn is running, says the log. -/
def running (s : PlanRun) : Bool := hasOpenTurn s.session.events

/-- The seq of the last start of a turn. -/
def turnSeq (s : PlanRun) : Nat := lastTurnStartSeq s.session.events

/-- `PlanMode.set`. -/
def set (s : PlanRun) (active : Bool) (time : Rat) : SetOutcome × PlanRun :=
  if active = (s.pending.map (·.active)).getD s.mode then (.noop, s)
  else if s.running then
    if active = s.mode then (.cancelled, { s with pending := none })
    else (.queued, { s with pending := some ⟨active, s.turnSeq⟩ })
  else (.committed, { s.record active time with pending := none })

/-- `PlanMode.apply_pending`. -/
def applyPending (s : PlanRun) (time : Rat) : Bool × PlanRun :=
  match s.pending with
  | none => (false, s)
  | some intent =>
    if s.turnSeq ≤ intent.turnSeq then (false, s)
    else if intent.active = s.mode then (false, { s with pending := none })
    else (true, { s.record intent.active time with
      pending := none
      history := s.history ++ [.applied intent.turnSeq s.turnSeq s.running] })

/-- `PlanMode._on_pre_step`, for a step whose inner listeners decided to enter it or not. -/
def onPreStep (s : PlanRun) (step : Nat) (enter : Bool) (time : Rat) : PlanRun :=
  if enter && step == 1 then (s.applyPending time).2 else s

end PlanRun

/-- `_is_markdown_plan`. -/
def isMarkdownPlan (plan : PyValue) : Bool :=
  match plan with
  | .str s => "# ".toList.isPrefixOf (pyStrip s).toList && decide (2 < (pyStrip s).length)
  | _ => false

/-- Why `exit_plan_mode` does not ask for a review; `none` where it does. -/
def exitRefusal (s : PlanRun) (plan : PyValue) (mounted : Bool) : Option String :=
  if !s.mode then some "Error: exit_plan_mode is only available in plan mode."
  else if !isMarkdownPlan plan then
    some "Error: exit_plan_mode needs a plan in markdown, starting with a # heading that names it."
  else if !mounted then
    some ("Error: no review channel (ctx.user_questions) is mounted, so the plan cannot be put to the user. Ask them to leave plan " ++
      "mode instead.")
  else none

/-- What happens. The agent starts a turn, asks the listeners about a step (plan mode's own one is called with the decision of the inner
ones), enters it, assembles requests, ends the step and the turn. At any time `set` is called, or `exit_plan_mode`, or a review ends,
or a host calls `apply_pending`, or other code appends; and a new process goes on from the stored session. -/
inductive PlanAction where
  | startTurn (turn : Nat) (time : Rat)
  | decide
  | preStep (enter : Bool) (time : Rat)
  | enter (time : Rat)
  | assemble
  | endStep (time : Rat)
  | endTurn (reason : PyValue) (time : Rat)
  | set (active : Bool) (time : Rat)
  | exit (plan : PyValue) (mounted : Bool)
  | reviewed (approved : Bool)
  | applyPending (time : Rat)
  | append (call : AppendCall)
  | resume

/-- The events that plan mode reads. -/
def EventType.isPlanInput : EventType → Bool
  | .planMode | .turnStart | .turnEnd => true
  | _ => false

namespace PlanRun

/-- A new session. -/
def start (id : String) (header : SessionHeader) : PlanRun := { session := .new id header }

/-- The turn ends. -/
def close (s : PlanRun) (turn : Nat) (reason : PyValue) (time : Rat) : PlanRun :=
  { s.log .turnEnd (.record [("turn", .int turn), ("reason", reason)]) time with phase := .idle }

/-- What an action does; `none` where it cannot happen. -/
def step (s : PlanRun) : PlanAction → Option PlanRun
  | .startTurn turn time =>
    match s.phase with
    | .idle => some { s.log .turnStart (turnData turn).loads time with phase := .boundary turn 0 }
    | _ => none
  | .decide =>
    match s.phase with
    | .boundary turn steps => some { s with phase := .deciding turn steps }
    | _ => none
  | .preStep enter time =>
    match s.phase with
    | .deciding _ steps => some (s.onPreStep (steps + 1) enter time)
    | _ => none
  | .enter time =>
    match s.phase with
    | .deciding turn steps => some { s.log .stepStart (stepData turn (steps + 1)).loads time with phase := .entered turn steps }
    | _ => none
  | .assemble =>
    match s.phase with
    | .entered _ _ => some { s with history := s.history ++ [.assembled s.turnSeq s.mode] }
    | _ => none
  | .endStep time =>
    match s.phase with
    | .entered turn steps =>
      some { s.log .stepEnd (stepData turn (steps + 1)).loads time with phase := .boundary turn (steps + 1) }
    | _ => none
  | .endTurn reason time =>
    match s.phase with
    | .idle | .entered _ _ => none
    | .boundary turn _ | .deciding turn _ => some (s.close turn reason time)
  | .set active time => some (s.set active time).2
  | .exit plan mounted => if (exitRefusal s plan mounted).isSome then some s else some { s with reviews := s.reviews + 1 }
  | .reviewed approved =>
    match s.reviews with
    | 0 => none
    | n + 1 =>
      if approved then some { s with reviews := n, pending := some ⟨false, s.turnSeq⟩ } else some { s with reviews := n }
  | .applyPending time => some (s.applyPending time).2
  | .append call => if call.eventType.isPlanInput then none else some { s with session := (s.session.append call).2 }
  | .resume =>
    match Session.fromJson s.session.toJson with
    | .ok session => some { session, history := s.history }
    | .error _ => none

end PlanRun

/-- The law: the requests of a turn are assembled under one mode; and a held intent is recorded when a later turn than its own is the
last to have started, at a time when no request of that turn was assembled or the turn is over. -/
def PlanAllowed (before : List PlanDone) : PlanDone → Prop
  | .assembled turn mode => ∀ mode', .assembled turn mode' ∈ before → mode' = mode
  | .applied queuedIn turn running => queuedIn < turn ∧ (running = true → ∀ mode, .assembled turn mode ∉ before)

/-- A host calls `apply_pending` while a turn runs that a request was assembled in, and an intent of an earlier turn is still held that
is not the recorded mode. -/
def PlanRun.MidTurn (s : PlanRun) (a : PlanAction) : Prop :=
  ∃ time intent mode, a = .applyPending time ∧ s.running = true ∧ .assembled s.turnSeq mode ∈ s.history ∧
    s.pending = some intent ∧ intent.turnSeq < s.turnSeq ∧ intent.active ≠ s.mode

/-! ## What an event does to the mode -/

theorem foldPlanMode_concat (events : List SessionEvent) (e : SessionEvent) :
    foldPlanMode (events ++ [e]) = if e.type = .planMode then recordedMode e.data else foldPlanMode events := by
  simp [foldPlanMode]

theorem hasOpenTurn_concat (events : List SessionEvent) (e : SessionEvent) :
    hasOpenTurn (events ++ [e]) = if e.type = .turnStart then true else if e.type = .turnEnd then false else hasOpenTurn events := by
  simp [hasOpenTurn]

theorem lastTurnStartSeq_concat (events : List SessionEvent) (e : SessionEvent) :
    lastTurnStartSeq (events ++ [e]) = if e.type = .turnStart then e.seq else lastTurnStartSeq events := by
  simp [lastTurnStartSeq]

/-- The last start of a turn is an event of the log, if there is one. -/
theorem lastTurnStartSeq_le {events : List SessionEvent} {n : Nat} (h : ∀ e ∈ events, e.seq ≤ n) : lastTurnStartSeq events ≤ n := by
  induction events using List.reverseRecOn with
  | nil => exact Nat.zero_le n
  | append_singleton events e ih =>
    rw [lastTurnStartSeq_concat]
    split
    · exact h e (by simp)
    · exact ih (fun e' he' => h e' (by simp [he']))

/-- The two sessions are the same to plan mode. -/
structure SamePlan (s s' : Session) : Prop where
  mode : foldPlanMode s'.events = foldPlanMode s.events
  running : hasOpenTurn s'.events = hasOpenTurn s.events
  turnSeq : lastTurnStartSeq s'.events = lastTurnStartSeq s.events
  increasing : s.Increasing → s'.Increasing

theorem SamePlan.refl (s : Session) : SamePlan s s := ⟨rfl, rfl, rfl, fun h => h⟩

theorem samePlan_append (s : Session) {c : AppendCall} (h : c.eventType.isPlanInput = false) : SamePlan s (s.append c).2 := by
  have hplan : c.eventType ≠ .planMode := by
    intro heq
    rw [heq] at h
    cases h
  have hstart : c.eventType ≠ .turnStart := by
    intro heq
    rw [heq] at h
    cases h
  have hend : c.eventType ≠ .turnEnd := by
    intro heq
    rw [heq] at h
    cases h
  rcases append_events s c with hsame | ⟨j, hgrown⟩
  · exact ⟨by rw [hsame], by rw [hsame], by rw [hsame], fun hs => hs.append c⟩
  · refine ⟨?_, ?_, ?_, fun hs => hs.append c⟩
    · rw [hgrown, foldPlanMode_concat, AppendCall.event_type, if_neg hplan]
    · rw [hgrown, hasOpenTurn_concat, AppendCall.event_type, if_neg hstart, if_neg hend]
    · rw [hgrown, lastTurnStartSeq_concat, AppendCall.event_type, if_neg hstart]

/-- No request of the turn was assembled yet: its first step is not entered. -/
def TurnPhase.beforeFirst : TurnPhase → Bool
  | .boundary _ 0 | .deciding _ 0 => true
  | _ => false

namespace PlanRun

variable {s s' : PlanRun}

/-- What a run keeps: the law; what was assembled, and the held intent, are of turns that have started; the requests of a running turn
were assembled under the recorded mode; and before its first step there are none. -/
structure Inv (s : PlanRun) : Prop where
  increasing : s.session.Increasing
  lawful : History.Lawful PlanAllowed s.history
  past : ∀ turn mode, .assembled turn mode ∈ s.history → turn ≤ s.turnSeq
  queued : ∀ intent, s.pending = some intent → intent.turnSeq ≤ s.turnSeq
  inTurn : s.phase ≠ .idle → s.running = true
  current : s.running = true → ∀ mode, .assembled s.turnSeq mode ∈ s.history → mode = s.mode
  first : s.phase.beforeFirst = true → ∀ mode, .assembled s.turnSeq mode ∉ s.history

theorem Inv.start (id : String) (header : SessionHeader) : (PlanRun.start id header).Inv := by
  refine ⟨.new id header, History.lawful_nil, ?_, ?_, ?_, ?_, ?_⟩
  · intro turn mode hmem
    cases hmem
  · intro intent hpending
    cases hpending
  · intro hphase
    exact absurd rfl hphase
  · intro hrunning
    cases hrunning
  · intro hphase
    cases hphase

theorem Inv.quiet (h : s.Inv) (hsame : SamePlan s.session s'.session) (hhistory : s'.history = s.history)
    (hpending : ∀ intent, s'.pending = some intent → intent.turnSeq ≤ s.turnSeq) (hphase : s'.phase ≠ .idle → s.phase ≠ .idle)
    (hfirst : s'.phase.beforeFirst = true → s.phase.beforeFirst = true) : s'.Inv := by
  have hmode : s'.mode = s.mode := hsame.mode
  have hrunning : s'.running = s.running := hsame.running
  have hturn : s'.turnSeq = s.turnSeq := hsame.turnSeq
  refine ⟨hsame.increasing h.increasing, ?_, ?_, ?_, ?_, ?_, ?_⟩
  · rw [hhistory]
    exact h.lawful
  · rw [hhistory, hturn]
    exact h.past
  · rw [hturn]
    exact hpending
  · rw [hrunning]
    exact fun hidle => h.inTurn (hphase hidle)
  · rw [hrunning, hturn, hhistory, hmode]
    exact h.current
  · rw [hturn, hhistory]
    exact fun hbefore => h.first (hfirst hbefore)

theorem Inv.hold (h : s.Inv) (pending : Option PendingMode) (hpending : ∀ intent, pending = some intent → intent.turnSeq ≤ s.turnSeq) :
    { s with pending }.Inv :=
  h.quiet (.refl _) rfl hpending (fun hidle => hidle) (fun hbefore => hbefore)

/-- Another event is put into the log, and the agent moves on. -/
theorem Inv.logged (h : s.Inv) {type : EventType} (htype : type.isPlanInput = false) (data : PyValue) (time : Rat) {phase : TurnPhase}
    (hphase : s.phase ≠ .idle) (hfirst : phase.beforeFirst = false) : { s.log type data time with phase }.Inv := by
  refine h.quiet (samePlan_append s.session htype) rfl h.queued (fun _ => hphase) ?_
  intro hbefore
  rw [hfirst] at hbefore
  cases hbefore

theorem record_log (s : PlanRun) (active : Bool) (time : Rat) : (s.record active time).mode = active ∧
    (s.record active time).running = s.running ∧ (s.record active time).turnSeq = s.turnSeq := by
  obtain ⟨event, session, happend, hevents, hentry, -⟩ := append_document s.session
    (c := { eventType := .planMode, data := (Json.obj [("active", .bool active)]).loads, time }) rfl rfl rfl
  have htype : event.type = .planMode := congrArg Prod.fst hentry
  have hdata : event.data = .obj [("active", .bool active)] := congrArg Prod.snd hentry
  have hsession : (s.record active time).session.events = s.session.events ++ [event] := by
    unfold record log
    rw [happend]
    exact hevents
  refine ⟨?_, ?_, ?_⟩
  · rw [mode, hsession, foldPlanMode_concat, if_pos htype, hdata]
    cases active <;> rfl
  · rw [running, hsession, hasOpenTurn_concat, htype]
    rfl
  · rw [turnSeq, hsession, lastTurnStartSeq_concat, htype]
    rfl

/-- A mode is recorded when no request of the running turn was assembled. -/
theorem Inv.record (h : s.Inv) (active : Bool) (time : Rat)
    (hfree : s.running = true → ∀ mode, .assembled s.turnSeq mode ∉ s.history) : (s.record active time).Inv := by
  obtain ⟨-, hrunning, hturn⟩ := record_log s active time
  refine ⟨h.increasing.append _, h.lawful, ?_, ?_, ?_, ?_, ?_⟩
  · rw [hturn]
    exact h.past
  · rw [hturn]
    exact h.queued
  · rw [hrunning]
    exact h.inTurn
  · rw [hrunning, hturn]
    exact fun hopen mode hmem => absurd hmem (hfree hopen mode)
  · rw [hturn]
    exact h.first

/-- What was done is one more thing that the law allows, and is no request. -/
theorem Inv.noted (h : s.Inv) {queuedIn turn : Nat} {running : Bool} (hallowed : PlanAllowed s.history (.applied queuedIn turn running)) :
    { s with history := s.history ++ [PlanDone.applied queuedIn turn running] }.Inv := by
  have hold : ∀ {turn' mode}, .assembled turn' mode ∈ s.history ++ [PlanDone.applied queuedIn turn running] →
      .assembled turn' mode ∈ s.history := by
    intro turn' mode hmem
    simpa using hmem
  refine ⟨h.increasing, History.lawful_concat.mpr ⟨h.lawful, hallowed⟩, ?_, h.queued, h.inTurn, ?_, ?_⟩
  · intro turn' mode hmem
    exact h.past turn' mode (hold hmem)
  · intro hopen mode hmem
    exact h.current hopen mode (hold hmem)
  · intro hbefore mode hmem
    exact h.first hbefore mode (hold hmem)

theorem Inv.set (h : s.Inv) (active : Bool) (time : Rat) : (s.set active time).2.Inv := by
  unfold PlanRun.set
  split
  · exact h
  · split
    · split
      · refine h.hold none ?_
        intro intent hpending
        cases hpending
      · refine h.hold (some ⟨active, s.turnSeq⟩) ?_
        intro intent hpending
        cases hpending
        exact Nat.le_refl _
    · rename_i hrunning
      refine (h.record active time (fun hopen => absurd hopen hrunning)).hold none ?_
      intro intent hpending
      cases hpending

/-- What `apply_pending` does: nothing to the log; or it records an intent of an earlier turn that is not the recorded mode. -/
theorem applyPending_cases (s : PlanRun) (time : Rat) : (s.applyPending time).2 = s ∨ (s.applyPending time).2 = { s with pending := none } ∨
    ∃ intent, s.pending = some intent ∧ intent.turnSeq < s.turnSeq ∧ intent.active ≠ s.mode ∧
      (s.applyPending time).2 = { s.record intent.active time with
        pending := none
        history := s.history ++ [.applied intent.turnSeq s.turnSeq s.running] } := by
  unfold PlanRun.applyPending
  split
  · exact Or.inl rfl
  · rename_i intent hpending
    split
    · exact Or.inl rfl
    · rename_i hlater
      split
      · exact Or.inr (Or.inl rfl)
      · rename_i hactive
        exact Or.inr (Or.inr ⟨intent, hpending, Nat.lt_of_not_le hlater, hactive, rfl⟩)

/-- `apply_pending`, when no request of the running turn was assembled or it would record nothing. -/
theorem Inv.applyPending (h : s.Inv) (time : Rat) (hfree : ¬ s.MidTurn (.applyPending time)) : (s.applyPending time).2.Inv := by
  rcases applyPending_cases s time with heq | heq | ⟨intent, hpending, hlater, hactive, heq⟩
  · rw [heq]
    exact h
  · rw [heq]
    refine h.hold none ?_
    intro intent hpending
    cases hpending
  · have hnone : s.running = true → ∀ mode, .assembled s.turnSeq mode ∉ s.history := by
      intro hopen mode hmem
      exact hfree ⟨time, intent, mode, rfl, hopen, hmem, hpending, hlater, hactive⟩
    have hallowed : PlanAllowed s.history (.applied intent.turnSeq s.turnSeq s.running) := ⟨hlater, hnone⟩
    have hrecorded := (h.record intent.active time hnone).noted hallowed
    rw [heq]
    refine hrecorded.hold none ?_
    intro intent' hpending'
    cases hpending'

theorem Inv.startTurn (h : s.Inv) (turn : Nat) (time : Rat) :
    { s.log .turnStart (turnData turn).loads time with phase := .boundary turn 0 }.Inv := by
  obtain ⟨event, session, happend, hevents, hentry, hseq⟩ := append_document s.session
    (c := { eventType := .turnStart, data := (turnData turn).loads, time }) rfl rfl rfl
  have htype : event.type = .turnStart := congrArg Prod.fst hentry
  have hsession : (s.log .turnStart (turnData turn).loads time).session.events = s.session.events ++ [event] := by
    unfold log
    rw [happend]
    exact hevents
  have hmode : (s.log .turnStart (turnData turn).loads time).mode = s.mode := by
    rw [mode, hsession, foldPlanMode_concat, htype]
    rfl
  have hrunning : (s.log .turnStart (turnData turn).loads time).running = true := by
    rw [running, hsession, hasOpenTurn_concat, if_pos htype]
  have hturn : (s.log .turnStart (turnData turn).loads time).turnSeq = s.session.seq + 1 := by
    rw [turnSeq, hsession, lastTurnStartSeq_concat, if_pos htype, hseq]
  have hlater : s.turnSeq < s.session.seq + 1 := Nat.lt_succ_of_le (lastTurnStartSeq_le h.increasing.bounded)
  have hnone : ∀ mode, .assembled (s.session.seq + 1) mode ∉ s.history := by
    intro mode hmem
    exact Nat.not_lt.mpr (h.past _ mode hmem) hlater
  refine ⟨h.increasing.append _, h.lawful, ?_, ?_, ?_, ?_, ?_⟩
  · intro turn' mode hmem
    change turn' ≤ (s.log .turnStart (turnData turn).loads time).turnSeq
    rw [hturn]
    exact Nat.le_of_lt (Nat.lt_of_le_of_lt (h.past turn' mode hmem) hlater)
  · intro intent hpending
    change intent.turnSeq ≤ (s.log .turnStart (turnData turn).loads time).turnSeq
    rw [hturn]
    exact Nat.le_of_lt (Nat.lt_of_le_of_lt (h.queued intent hpending) hlater)
  · exact fun _ => hrunning
  · intro _ mode hmem
    change .assembled (s.log .turnStart (turnData turn).loads time).turnSeq mode ∈ s.history at hmem
    rw [hturn] at hmem
    exact absurd hmem (hnone mode)
  · intro _ mode hmem
    change .assembled (s.log .turnStart (turnData turn).loads time).turnSeq mode ∈ s.history at hmem
    rw [hturn] at hmem
    exact hnone mode hmem

theorem Inv.close (h : s.Inv) (turn : Nat) (reason : PyValue) (time : Rat) : (s.close turn reason time).Inv := by
  have hclosed : ∀ {session : Session}, session.Increasing → foldPlanMode session.events = s.mode →
      (hasOpenTurn session.events = true → s.running = true) → lastTurnStartSeq session.events = s.turnSeq →
      ({ s with session, phase := .idle } : PlanRun).Inv := by
    intro session hincreasing hmode hrunning hturn
    refine ⟨hincreasing, h.lawful, ?_, ?_, ?_, ?_, ?_⟩
    · intro turn' mode hmem
      exact (h.past turn' mode hmem).trans (Nat.le_of_eq hturn.symm)
    · intro intent hpending
      exact (h.queued intent hpending).trans (Nat.le_of_eq hturn.symm)
    · intro hphase
      exact absurd rfl hphase
    · intro hopen mode hmem
      change .assembled (lastTurnStartSeq session.events) mode ∈ s.history at hmem
      rw [hturn] at hmem
      exact (h.current (hrunning hopen) mode hmem).trans hmode.symm
    · intro hphase
      cases hphase
  let c : AppendCall :=
    { eventType := .turnEnd
      data := .record [("turn", .int turn), ("reason", reason)]
      time }
  have hclose : s.close turn reason time = { s with session := (s.session.append c).2, phase := .idle } := rfl
  rw [hclose]
  rcases append_events s.session c with hsame | ⟨j, hgrown⟩
  · exact hclosed (h.increasing.append c) (by rw [hsame]; rfl) (by rw [hsame]; exact fun hopen => hopen) (by rw [hsame]; rfl)
  · refine hclosed (h.increasing.append c) ?_ ?_ ?_
    · rw [hgrown, foldPlanMode_concat]
      rfl
    · rw [hgrown, hasOpenTurn_concat]
      intro hopen
      cases hopen
    · rw [hgrown, lastTurnStartSeq_concat]
      rfl

theorem Inv.assemble (h : s.Inv) {turn steps : Nat} (hphase : s.phase = .entered turn steps) :
    { s with history := s.history ++ [PlanDone.assembled s.turnSeq s.mode] }.Inv := by
  have hrunning : s.running = true := h.inTurn (by rw [hphase]; exact TurnPhase.noConfusion)
  refine ⟨h.increasing, History.lawful_concat.mpr ⟨h.lawful, ?_⟩, ?_, h.queued, h.inTurn, ?_, ?_⟩
  · intro mode hmem
    exact h.current hrunning mode hmem
  · intro turn' mode hmem
    rcases List.mem_append.mp hmem with hmem | hmem
    · exact h.past turn' mode hmem
    · cases List.mem_singleton.mp hmem
      exact Nat.le_refl _
  · intro hopen mode hmem
    rcases List.mem_append.mp hmem with hmem | hmem
    · exact h.current hopen mode hmem
    · cases List.mem_singleton.mp hmem
      rfl
  · intro hbefore
    rw [hphase] at hbefore
    cases hbefore

/-- The listener of plan mode: it is called before the first step of a turn, when no request was assembled. -/
theorem Inv.onPreStep (h : s.Inv) {turn steps : Nat} (hphase : s.phase = .deciding turn steps) (enter : Bool) (time : Rat) :
    (s.onPreStep (steps + 1) enter time).Inv := by
  unfold PlanRun.onPreStep
  split
  · rename_i hfirst
    obtain ⟨-, hzero⟩ : enter = true ∧ steps = 0 := by simpa using hfirst
    refine h.applyPending time ?_
    rintro ⟨time', intent, mode, -, -, hmem, -⟩
    exact h.first (by rw [hphase, hzero]; rfl) mode hmem
  · exact h

/-- A step that is no call of `apply_pending` in the middle of a turn keeps the invariant. -/
theorem Inv.step (h : s.Inv) {a : PlanAction} (hfree : ¬ s.MidTurn a) (hstep : s.step a = some s') : s'.Inv := by
  cases a with
  | startTurn turn time =>
    simp only [PlanRun.step] at hstep
    split at hstep <;> cases hstep
    exact h.startTurn turn time
  | decide =>
    simp only [PlanRun.step] at hstep
    split at hstep <;> cases hstep
    rename_i turn steps hphase
    refine h.quiet (.refl _) rfl h.queued (fun _ => by rw [hphase]; exact TurnPhase.noConfusion) ?_
    intro hbefore
    rw [hphase]
    cases steps with
    | zero => rfl
    | succ n => cases hbefore
  | preStep enter time =>
    simp only [PlanRun.step] at hstep
    split at hstep <;> cases hstep
    rename_i turn steps hphase
    exact h.onPreStep hphase enter time
  | enter time =>
    simp only [PlanRun.step] at hstep
    split at hstep <;> cases hstep
    rename_i turn steps hphase
    exact h.logged rfl _ time (by rw [hphase]; exact TurnPhase.noConfusion) rfl
  | assemble =>
    simp only [PlanRun.step] at hstep
    split at hstep <;> cases hstep
    rename_i turn steps hphase
    exact h.assemble hphase
  | endStep time =>
    simp only [PlanRun.step] at hstep
    split at hstep <;> cases hstep
    rename_i turn steps hphase
    exact h.logged rfl _ time (by rw [hphase]; exact TurnPhase.noConfusion) rfl
  | endTurn reason time =>
    simp only [PlanRun.step] at hstep
    split at hstep <;> cases hstep
    · exact h.close _ reason time
    · exact h.close _ reason time
  | set active time =>
    obtain rfl := Option.some.inj hstep
    exact h.set active time
  | exit plan mounted =>
    simp only [PlanRun.step] at hstep
    split at hstep <;> cases hstep
    · exact h
    · exact h.quiet (.refl _) rfl h.queued (fun hidle => hidle) (fun hbefore => hbefore)
  | reviewed approved =>
    simp only [PlanRun.step] at hstep
    split at hstep
    · cases hstep
    · split at hstep <;> cases hstep
      · refine h.quiet (.refl _) rfl ?_ (fun hidle => hidle) (fun hbefore => hbefore)
        intro intent hpending
        cases hpending
        exact Nat.le_refl _
      · exact h.quiet (.refl _) rfl h.queued (fun hidle => hidle) (fun hbefore => hbefore)
  | applyPending time =>
    obtain rfl := Option.some.inj hstep
    exact h.applyPending time hfree
  | append call =>
    simp only [PlanRun.step] at hstep
    split at hstep
    · cases hstep
    · rename_i hother
      obtain rfl := Option.some.inj hstep
      exact h.quiet (samePlan_append s.session (by simpa using hother)) rfl h.queued (fun hidle => hidle) (fun hbefore => hbefore)
  | resume =>
    simp only [PlanRun.step] at hstep
    split at hstep
    · rename_i session hload
      obtain rfl := Option.some.inj hstep
      obtain ⟨hevents, -, hbounded, -⟩ := seedAll_ok hload
      have hevents : session.events = s.session.events := by
        rw [hevents]
        rfl
      refine h.quiet ⟨by rw [hevents], by rw [hevents], by rw [hevents], fun hs => ⟨?_, ?_⟩⟩ rfl ?_ ?_ ?_
      · rw [hevents]
        exact hs.increasing
      · rw [hevents]
        exact hbounded
      · intro intent hpending
        cases hpending
      · intro hidle
        exact absurd rfl hidle
      · intro hbefore
        cases hbefore
    · cases hstep

/-- A call of `apply_pending` in the middle of a turn breaks the law. -/
theorem not_lawful_of_midTurn {a : PlanAction} (hmid : s.MidTurn a) (hstep : s.step a = some s') :
    ¬ History.Lawful PlanAllowed s'.history := by
  obtain ⟨time, intent, mode, rfl, hopen, hmem, hpending, hlater, hactive⟩ := hmid
  obtain rfl := Option.some.inj hstep
  have hnot : ¬ s.turnSeq ≤ intent.turnSeq := Nat.not_le.mpr hlater
  have happly : (s.applyPending time).2.history = s.history ++ [.applied intent.turnSeq s.turnSeq s.running] := by
    simp [PlanRun.applyPending, hpending, hnot, hactive]
  rw [happly]
  intro hlawful
  exact ((History.lawful_concat.mp hlawful).2).2 hopen mode hmem

end PlanRun

/-- In every run in which no host calls `apply_pending` in the middle of a turn while an intent of an earlier turn is held, the requests
of each turn are assembled under one mode, and a queued flip takes effect before the first request of a later turn; and the next step
keeps that exactly when it is no such call. -/
theorem plan_mode_constant {id : String} {header : SessionHeader} {s : PlanRun}
    (h : Machine.Reach PlanRun.step (fun s a => ¬ s.MidTurn a) (.start id header) s) :
    History.Lawful PlanAllowed s.history ∧
      ∀ a s', s.step a = some s' → (History.Lawful PlanAllowed s'.history ↔ ¬ s.MidTurn a) := by
  have hinv : s.Inv := h.invariant (.start id header) (fun _ _ _ hinv hfree hstep => hinv.step hfree hstep)
  refine ⟨hinv.lawful, fun a s' hstep => ⟨?_, ?_⟩⟩
  · intro hlawful hmid
    exact PlanRun.not_lawful_of_midTurn hmid hstep hlawful
  · intro hfree
    exact (hinv.step hfree hstep).lawful

/-- A flip is queued in the first turn; before the first step of the second one the inner listeners decide nothing, and the agent enters
the step. -/
def heldOver : List PlanAction :=
  [.startTurn 1 0, .decide, .preStep true 0, .enter 0, .assemble, .set true 0, .endStep 0, .endTurn .none 0,
    .startTurn 2 0, .decide, .preStep false 0, .enter 0, .assemble]

/-- The mode at each request, with the turn it was assembled in. -/
def PlanRun.requests (s : PlanRun) : List (Nat × Bool) :=
  s.history.filterMap (fun done =>
    match done with
    | .assembled turn mode => some (turn, mode)
    | .applied _ _ _ => none)

theorem mode_unique {history : List PlanDone} (h : History.Lawful PlanAllowed history) {turn : Nat} {mode mode' : Bool}
    (hmode : .assembled turn mode ∈ history) (hmode' : .assembled turn mode' ∈ history) : mode = mode' := by
  obtain ⟨before, after, rfl⟩ := List.append_of_mem hmode
  rcases List.mem_append.mp hmode' with hbefore | hafter
  · exact (h before _ after rfl mode' hbefore).symm
  · rcases List.mem_cons.mp hafter with heq | hafter
    · cases heq
      rfl
    · obtain ⟨middle, rest, rfl⟩ := List.append_of_mem hafter
      have hlater : PlanAllowed (before ++ .assembled turn mode :: middle) (.assembled turn mode') := h _ _ rest (by simp)
      exact hlater mode (by simp)

theorem PlanRun.mem_requests {s : PlanRun} {turn : Nat} {mode : Bool} :
    (turn, mode) ∈ s.requests ↔ .assembled turn mode ∈ s.history := by
  unfold PlanRun.requests
  rw [List.mem_filterMap]
  constructor
  · rintro ⟨done, hdone, heq⟩
    cases done with
    | assembled turn' mode' =>
      cases heq
      exact hdone
    | applied queuedIn turn' running => cases heq
  · intro hmem
    exact ⟨_, hmem, rfl⟩

/-- A call of `apply_pending` by a host. -/
def PlanAction.isApply : PlanAction → Bool
  | .applyPending _ => true
  | _ => false

theorem PlanRun.not_midTurn {s : PlanRun} {a : PlanAction} (h : a.isApply = false) : ¬ s.MidTurn a := by
  rintro ⟨time, intent, mode, rfl, -⟩
  cases h

/-- While the flip is held, the second turn goes on without plan mode. -/
theorem plan_mode_constant_heldOver :
    ∃ s, Machine.execIf PlanRun.step (fun _ a => a.isApply = false) (.start "s" {}) heldOver = some s ∧
      s.requests = [(1, false), (5, false)] ∧ History.Lawful PlanAllowed s.history := by
  have hrequests : (Machine.execIf PlanRun.step (fun _ a => a.isApply = false) (.start "s" {}) heldOver).map PlanRun.requests =
      some [(1, false), (5, false)] := by decide +kernel
  obtain ⟨s, hs, hassembled⟩ := Option.map_eq_some_iff.mp hrequests
  have hreach : Machine.Reach PlanRun.step (fun s a => ¬ s.MidTurn a) (.start "s" {}) s :=
    (Machine.Reach.start.execIf hs).mono (fun _ _ => PlanRun.not_midTurn)
  exact ⟨s, hs, hassembled, (plan_mode_constant hreach).1⟩

/-- A host calls `apply_pending` there: the next request of the turn is assembled in plan mode. -/
theorem plan_mode_changed : ∃ s, Machine.exec PlanRun.step (.start "s" {})
      (heldOver ++ [.applyPending 0, .endStep 0, .decide, .preStep true 0, .enter 0, .assemble]) = some s ∧
    s.requests = [(1, false), (5, false), (5, true)] ∧ ¬ History.Lawful PlanAllowed s.history := by
  have hrequests : (Machine.exec PlanRun.step (.start "s" {})
      (heldOver ++ [.applyPending 0, .endStep 0, .decide, .preStep true 0, .enter 0, .assemble])).map PlanRun.requests =
      some [(1, false), (5, false), (5, true)] := by decide +kernel
  obtain ⟨s, hs, hassembled⟩ := Option.map_eq_some_iff.mp hrequests
  refine ⟨s, hs, hassembled, ?_⟩
  intro hlawful
  have hplain : (5, false) ∈ s.requests := by simp [hassembled]
  have hplan : (5, true) ∈ s.requests := by simp [hassembled]
  exact Bool.noConfusion (mode_unique hlawful (PlanRun.mem_requests.mp hplain) (PlanRun.mem_requests.mp hplan))

end Pydsh
