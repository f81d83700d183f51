import Pydsh.Agent.Parts
import Pydsh.Session.Logged

/-!
# How a turn ends, and what it puts into the log

`TurnExit` names the ways a turn's loop ends, and `Loop.TurnEnds` says which of them a turn comes to, by what its steps meet
outside and by the sessions its requests are built from. `runTurn_logs` is what the turn puts into the log then: its start, its
steps, one after another, and its end, if the gate takes the reason.
-/

namespace Pydsh

open Effect (Does)

/-! ## Exits -/

/-- The ways the loop of a turn ends: the last four by a raise. -/
inductive TurnExit where
  | completed
  | maxTokens
  | errorFinish (finish : PyDict)
  | maxSteps
  | blocked
  | cancelled (reason : PyValue)
  | failed (error : String)
  | interrupted

/-- The exit by a raise. -/
def Raised.exit : Raised → TurnExit
  | .cancelled reason => .cancelled reason
  | .failed error => .failed error
  | .base => .interrupted

/-- What the loop of the turn returns or raises. -/
def TurnExit.result : TurnExit → Except Raised PyValue
  | .completed => .ok (reasonOf "completed")
  | .maxTokens => .ok (reasonOf "max-tokens")
  | .errorFinish finish => .ok (.dict finish)
  | .maxSteps => .ok (reasonOf "max-steps")
  | .blocked => .ok (reasonOf "blocked")
  | .cancelled reason => .error (.cancelled reason)
  | .failed error => .error (.failed error)
  | .interrupted => .error .base

/-- The reason the turn's `turn/end` is given. -/
def TurnExit.reason : TurnExit → PyValue
  | .completed => reasonOf "completed"
  | .maxTokens => reasonOf "max-tokens"
  | .errorFinish finish => .dict finish
  | .maxSteps => reasonOf "max-steps"
  | .blocked => reasonOf "blocked"
  | .cancelled reason => .record [("kind", .str "cancelled"), ("reason", reason)]
  | .failed error => .record [("kind", .str "failed"), ("error", .str error)]
  | .interrupted => reasonOf "completed"

/-- What `_run_turn` raises after its `turn/end`. -/
def TurnExit.raises : TurnExit → Except Raised Unit
  | .failed error => .error (.failed error)
  | .interrupted => .error .base
  | _ => .ok ()

/-- The exit a step's end leads to, if it is the last step; a raise leaves the loop at once. -/
def StepEnd.exit (w : StepWorld) : StepEnd → Except Raised (Option TurnExit)
  | .unreplied e | .unrecorded e | .toolsRaised e => .error e
  | .errorFinish => .ok (some (.errorFinish w.assembler.finish))
  | .maxTokens => .ok (some .maxTokens)
  | .completed => .ok (some .completed)
  | .ranTools => .ok none

namespace Loop

variable (l : Loop)

/-- What comes before a step: the messages that enter, and its `step/start`. -/
def openStep (turn step : Nat) (w : StepWorld) (messages : List Message) : LoopM Unit := do
  l.enter messages
  Effect.result w.appended
  l.write .stepStart (Json.obj [("turn", .int turn), ("step", .int step)]).loads

/-- A step with its `step/end`. -/
def closedStep (turn step : Nat) (w : StepWorld) : LoopM (Option PyValue × List Message) :=
  Effect.ensure (l.runStep turn step w) (l.write .stepEnd (Json.obj [("turn", .int turn), ("step", .int step)]).loads)

/-- How the step's request is built, where the turn's loop comes to the step in a session. -/
def readyAt (turn step : Nat) (w : StepWorld) (messages : List Message) (s : Session) : Except Raised Unit :=
  l.ready (l.listen (l.openStep turn step w messages s).2)

/-- The session after the step. -/
def afterStep (turn step : Nat) (w : StepWorld) (messages : List Message) (s : Session) : Session :=
  (l.closedStep turn step w (l.openStep turn step w messages s).2).2

end Loop

/-- The step is decided: the signal is not aborted, the ceiling is not reached, and the messages are to enter. -/
structure StepWorld.Decided (w : StepWorld) (l : Loop) (step : Nat) (pending messages : List Message) : Prop where
  live : w.abortedBefore = none
  allowed : (step : Int) ≤ l.options.maxSteps
  enters : w.entering pending = .ok (some messages)

/-- The step is taken: it is decided, and the messages enter. -/
structure StepWorld.Taken (w : StepWorld) (l : Loop) (step : Nat) (pending messages : List Message) : Prop
    extends w.Decided l step pending messages where
  entered : w.appended = .ok ()

/-- The exit the turn's loop comes to, from a session, a step and the pending messages. -/
inductive Loop.TurnEnds (l : Loop) (turn : Nat) (world : Nat → StepWorld) : Session → Nat → List Message → TurnExit → Prop where
  | aborted {s : Session} {step : Nat} {pending : List Message} {reason : PyValue}
      (aborted : (world step).abortedBefore = some reason) : TurnEnds l turn world s step pending (.cancelled reason)
  | maxSteps {s : Session} {step : Nat} {pending : List Message} (live : (world step).abortedBefore = none)
      (ceiling : l.options.maxSteps < step) : TurnEnds l turn world s step pending .maxSteps
  | undecided {s : Session} {step : Nat} {pending : List Message} {e : Raised} (live : (world step).abortedBefore = none)
      (allowed : (step : Int) ≤ l.options.maxSteps) (raised : (world step).decision = .error e) :
      TurnEnds l turn world s step pending e.exit
  | blocked {s : Session} {step : Nat} {pending : List Message} (live : (world step).abortedBefore = none)
      (allowed : (step : Int) ≤ l.options.maxSteps) (rejected : (world step).decision = .ok .reject) :
      TurnEnds l turn world s step pending .blocked
  | unentered {s : Session} {step : Nat} {pending messages : List Message} {e : Raised}
      (decided : (world step).Decided l step pending messages) (raised : (world step).appended = .error e) :
      TurnEnds l turn world s step pending e.exit
  | raised {s : Session} {step : Nat} {pending messages : List Message} {ended : StepEnd} {e : Raised}
      (taken : (world step).Taken l step pending messages) (ends : (world step).Ends l (l.readyAt turn step (world step) messages s) ended)
      (raised : ended.exit (world step) = .error e) : TurnEnds l turn world s step pending e.exit
  | abortedAfter {s : Session} {step : Nat} {pending messages : List Message} {ended : StepEnd} {exit : Option TurnExit}
      {reason : PyValue} (taken : (world step).Taken l step pending messages)
      (ends : (world step).Ends l (l.readyAt turn step (world step) messages s) ended) (returned : ended.exit (world step) = .ok exit)
      (aborted : (world step).abortedAfter = some reason) : TurnEnds l turn world s step pending (.cancelled reason)
  | ended {s : Session} {step : Nat} {pending messages : List Message} {ended : StepEnd} {exit : TurnExit}
      (taken : (world step).Taken l step pending messages) (ends : (world step).Ends l (l.readyAt turn step (world step) messages s) ended)
      (returned : ended.exit (world step) = .ok (some exit)) (live : (world step).abortedAfter = none) :
      TurnEnds l turn world s step pending exit
  | next {s : Session} {step : Nat} {pending messages : List Message} {exit : TurnExit}
      (taken : (world step).Taken l step pending messages) (ends : (world step).Ends l (l.readyAt turn step (world step) messages s) .ranTools)
      (live : (world step).abortedAfter = none)
      (rest : TurnEnds l turn world (l.afterStep turn step (world step) messages s) (step + 1)
        ((world step).calls.map (world step).resultOf) exit) : TurnEnds l turn world s step pending exit

/-- The exit a turn comes to. -/
abbrev Loop.Exits (l : Loop) (turn : Nat) (claimed : List Message) (world : Nat → StepWorld) (s : Session) (exit : TurnExit) :
    Prop :=
  l.TurnEnds turn world (l.write .turnStart (Json.obj [("turn", .int turn)]).loads s).2 1 claimed exit

theorem StepEnd.exit_eq_none {w : StepWorld} (ended : StepEnd) (h : ended.exit w = .ok none) : ended = .ranTools := by
  cases ended <;> simp_all [StepEnd.exit]

theorem StepWorld.entering_eq_error {w : StepWorld} {pending : List Message} {e : Raised} (h : w.entering pending = .error e) :
    w.decision = .error e := by
  unfold StepWorld.entering at h
  cases hdecision : w.decision with
  | error e' => simpa [hdecision, Except.map] using h
  | ok decision => simp [hdecision, Except.map] at h

theorem StepWorld.entering_eq_none {w : StepWorld} {pending : List Message} (h : w.entering pending = .ok none) :
    w.decision = .ok .reject := by
  unfold StepWorld.entering at h
  cases hdecision : w.decision with
  | error e => simp [hdecision, Except.map] at h
  | ok decision => cases decision <;> simp_all [Except.map]

/-- A step of a turn that the loop comes to within its ceiling, or just past it, ends the turn in some way. -/
theorem Loop.exists_turnEnds (l : Loop) (turn : Nat) (world : Nat → StepWorld) (s : Session) (step : Nat) (pending : List Message) :
    ∃ exit, l.TurnEnds turn world s step pending exit := by
  generalize hremaining : (l.options.maxSteps + 1 - step).toNat = remaining
  induction remaining generalizing s step pending with
  | zero =>
    cases haborted : (world step).abortedBefore with
    | some reason => exact ⟨_, .aborted haborted⟩
    | none => exact ⟨_, .maxSteps haborted (by omega)⟩
  | succ remaining ih =>
    have hallowed : (step : Int) ≤ l.options.maxSteps := by omega
    cases hlive : (world step).abortedBefore with
    | some reason => exact ⟨_, .aborted hlive⟩
    | none =>
      rcases hentering : (world step).entering pending with e | _ | messages
      · exact ⟨_, .undecided hlive hallowed (StepWorld.entering_eq_error hentering)⟩
      · exact ⟨_, .blocked hlive hallowed (StepWorld.entering_eq_none hentering)⟩
      · have hdecided : (world step).Decided l step pending messages := ⟨hlive, hallowed, hentering⟩
        cases hentered : (world step).appended with
        | error e => exact ⟨_, .unentered hdecided hentered⟩
        | ok u =>
          have htaken : (world step).Taken l step pending messages := ⟨hdecided, hentered⟩
          obtain ⟨ended, hends⟩ := (world step).exists_ends l (l.readyAt turn step (world step) messages s)
          rcases hexit : ended.exit (world step) with e | exit
          · exact ⟨_, .raised htaken hends hexit⟩
          · cases hafter : (world step).abortedAfter with
            | some reason => exact ⟨_, .abortedAfter htaken hends hexit hafter⟩
            | none =>
              cases exit with
              | some exit => exact ⟨_, .ended htaken hends hexit hafter⟩
              | none =>
                obtain rfl := ended.exit_eq_none hexit
                obtain ⟨exit, hrest⟩ := ih (l.afterStep turn step (world step) messages s) (step + 1)
                  ((world step).calls.map (world step).resultOf) (by omega)
                exact ⟨exit, .next htaken hends hafter hrest⟩

end Pydsh
