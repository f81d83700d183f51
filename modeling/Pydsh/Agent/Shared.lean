import Mathlib.Data.List.Chain
import Pydsh.Agent.Conversation
import Pydsh.Agent.TurnLog
import Pydsh.Bounded.Shown
import Pydsh.Compaction.Interleaving
import Pydsh.Governance.Schedule

/-!
# A surface that several write to

The agent of `agent/agent.py` awaits the listeners, the model and the tools, and at each await others go on with the same session: a
timer's `tick` delivers what is due, compactions begin and end, results are pruned, and log-only events come in. Between two awaits the
agent's code runs without interruption. What a turn appends is what the loop's parts append when nobody else does (`Loop.alone`).
-/

namespace Pydsh

open Following

/-- The loop, without other code in between. -/
def Loop.alone (l : Loop) : Loop :=
  { l with
    listeners := fun _ => []
    others := fun _ => [] }

/-- What the agent awaits: nothing, between turns; the listeners that decide on what enters a step; the listeners of the request; the
model; or the tools that the reply with a seq asked for. -/
inductive SharedPhase where
  | idle
  | deciding (turn step : Nat) (pending : List Message)
  | entered (turn step : Nat)
  | streaming (turn step : Nat)
  | running (turn step : Nat) (w : StepWorld) (reply : Nat)

/-- A session with the compactions that wait for their summaries, and its agent. -/
structure SharedRun where
  compactions : CompactionState
  phase : SharedPhase := .idle

/-- What happens at an await point. The agent starts a turn with what it claimed, goes on with the decision of the listeners, builds the
request, takes the reply, has the results of its tools, or ends the turn where a check or an await raised or the steps are used up; the
schedules are ticked; and what happens to compactions, with prunes and the events of others. -/
inductive SharedAction where
  | startTurn (turn : Nat) (claimed : List Message)
  | preStep (decision : PreStep)
  | request
  | reply (w : StepWorld)
  | toolsReturn
  | endTurn (ended : Except Raised PyValue)
  | tick (stamp : Int) (messageId : String → String) (time : Rat)
  | beside (a : CompactionAction)

/-- The messages that enter, by the decision of the listeners; `none` where it rejects. -/
def PreStep.entering (pending : List Message) : PreStep → Option (List Message)
  | .reject => none
  | .enter messages => some messages
  | .noOpinion => some pending

/-- Others put no message of their own onto the surface. -/
def CompactionAction.isMessage : CompactionAction → Bool
  | .append c => c.eventType.isSurface
  | _ => false

namespace SharedRun

/-- A new session, with its agent idle. -/
def start (id : String) (header : SessionHeader) : SharedRun := { compactions := .new id header }

/-- The session. -/
abbrev session (s : SharedRun) : Session := s.compactions.session

/-- The session changes. -/
def withSession (s : SharedRun) (session : Session) : SharedRun := { s with compactions := { s.compactions with session } }

/-- The agent appends an event. -/
def write (l : Loop) (s : SharedRun) (type : EventType) (data : Json) : SharedRun :=
  s.withSession (l.alone.write type data.loads s.session).2

/-- The turn ends. -/
def close (l : Loop) (s : SharedRun) (turn : Nat) (ended : Except Raised PyValue) : SharedRun :=
  { s.withSession (l.alone.closeTurn turn ended s.session).2 with phase := .idle }

/-- The step ends, and the turn with it. -/
def closeStep (l : Loop) (s : SharedRun) (turn step : Nat) (ended : Except Raised PyValue) : SharedRun :=
  (s.write l .stepEnd (stepData turn step)).close l turn ended

/-- `_run_step` from the finished assembler to the tools, or to the end of the turn. -/
def takeReply (l : Loop) (s : SharedRun) (turn step : Nat) (w : StepWorld) : SharedRun :=
  if w.assembler.finishKind = some "error" then s.closeStep l turn step (.ok (.dict w.assembler.finish))
  else
    match l.alone.write .assistantMessage (l.replyData turn step w w.assembler) s.session with
    | (.error e, session) => (s.withSession session).closeStep l turn step (.error e)
    | (.ok _, session) =>
      if w.assembler.finishKind = some "max-tokens" then
        (s.withSession session).closeStep l turn step (.ok (reasonOf "max-tokens"))
      else if w.calls.isEmpty then (s.withSession session).closeStep l turn step (.ok (reasonOf "completed"))
      else { s.withSession session with phase := .running turn step w session.seq }

/-- What an action does; `none` where it cannot happen. -/
def step (l : Loop) (clock : FloatClock) (s : SharedRun) : SharedAction → Option SharedRun
  | .startTurn turn claimed =>
    match s.phase with
    | .idle => some { s.write l .turnStart (turnData turn) with phase := .deciding turn 1 claimed }
    | _ => none
  | .preStep decision =>
    match s.phase with
    | .deciding turn step pending =>
      if (step : Int) ≤ l.options.maxSteps then
        match decision.entering pending with
        | none => some (s.close l turn (.ok (reasonOf "blocked")))
        | some messages =>
          some { (s.withSession (l.alone.enter messages s.session).2).write l .stepStart (stepData turn step) with
            phase := .entered turn step }
      else none
    | _ => none
  | .request =>
    match s.phase with
    | .entered turn step =>
      match l.requestMessages s.session with
      | .error e => some (s.closeStep l turn step (.error e))
      | .ok _ => some { s.withSession (l.setRequest s.session) with phase := .streaming turn step }
    | _ => none
  | .reply w =>
    match s.phase with
    | .streaming turn step => some (s.takeReply l turn step w)
    | _ => none
  | .toolsReturn =>
    match s.phase with
    | .running turn step w _ =>
      some { (s.withSession (l.alone.writeResults turn step w w.calls s.session).2).write l .stepEnd (stepData turn step) with
        phase := .deciding turn (step + 1) (w.calls.map w.resultOf) }
    | _ => none
  | .endTurn ended =>
    match s.phase with
    | .idle => none
    | .deciding turn _ _ => some (s.close l turn ended)
    | .entered turn step | .streaming turn step | .running turn step _ _ => some (s.closeStep l turn step ended)
  | .tick stamp messageId time => some (s.withSession (tick clock s.session stamp messageId time).2)
  | .beside a =>
    if a.isMessage then none else (s.compactions.step a).map (fun compactions => { s with compactions })

/-! ## What is asked of a run -/

/-- The messages come right behind those whose calls they answer, and so do the `tool` messages on the wire. -/
structure InPlace (messages : List Message) : Prop where
  results : messageRule.Follows messages
  tools : wireRule.Follows (serializeMessages messages)

/-- Where a model request is about to be built, the session derives messages that are in place. -/
def Sound (l : Loop) (s : SharedRun) : Prop :=
  ∀ turn step, s.phase = .entered turn step →
    ∃ messages, l.requestMessages s.session = .ok (messages.map Message.toPy) ∧ InPlace messages

/-- The message right behind a node of the surface is a user's that holds results of tools: a copy that entered a step. -/
def CopyBehind (s : SharedRun) (node : Nat) : Prop :=
  ∃ next e m, s.session.surfaceNodes[s.session.surfaceNodes.idxOf node + 1]? = some next ∧ s.session.eventAt next = some e ∧
    e.Carries ⟨.userMessage, m⟩ ∧ m.sentResults ≠ []

/-- The step puts nothing between calls and their results: where the tools return, the surface still ends with the reply that asked for
them; where results enter the next step once more, the messages before them still end with the results of these calls; and where a
compaction takes a run out, no such copy comes right behind it. -/
def Unsplit (l : Loop) (s : SharedRun) : SharedAction → Prop
  | .toolsReturn => ∀ turn step w reply, s.phase = .running turn step w reply → s.session.surfaceNodes.getLast? = some reply
  | .preStep decision => ∀ turn step pending messages shown, s.phase = .deciding turn step pending →
      decision.entering pending = some messages → l.requestMessages s.session = .ok (shown.map Message.toPy) →
      messageRule.Walks (messageRule.opened [] shown) messages
  | .beside (.resume id reply) => ∀ p summary, s.compactions.flight? id = some p → summaryOf reply = .ok summary →
      InOrder s.session.surfaceNodes p.first p.last → ¬ s.CopyBehind p.last
  | _ => True

end SharedRun

end Pydsh
