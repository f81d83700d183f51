import Pydsh.Agent.Parts

/-!
# What every turn keeps

A property of the session that each of a loop's own appends keeps, and what the listeners and the route do, is kept by a turn, whatever
the model and the tools do and however the turn ends (`Loop.Keeping.runTurn`).
-/

namespace Pydsh

open Effect

/-- Every part of a turn that changes the session keeps the property. -/
structure Loop.Keeping (l : Loop) (P : Session → Prop) : Prop where
  listens : ∀ s, P s → P (l.listen s)
  routes : ∀ s, P s → P (l.setRequest s)
  turnStart : ∀ turn : Nat, Keeps P (l.write .turnStart (Json.obj [("turn", .int turn)]).loads)
  message : ∀ m : Message, Keeps P (l.write .userMessage m.toJson.loads)
  stepStart : ∀ turn step : Nat, Keeps P (l.write .stepStart (Json.obj [("turn", .int turn), ("step", .int step)]).loads)
  chunk : ∀ (turn step : Nat) (chunk : StreamChunk), Keeps P
    (l.write .assistantChunk (.record [("turn", .int turn), ("step", .int step), ("chunk", encodePayload chunk.toPy)]))
  reply : ∀ turn step w a, Keeps P (l.write .assistantMessage (l.replyData turn step w a))
  tools : ∀ turn step w calls, Keeps P (l.writeResults turn step w calls)
  stepEnd : ∀ turn step : Nat, Keeps P (l.write .stepEnd (Json.obj [("turn", .int turn), ("step", .int step)]).loads)
  turnEnd : ∀ turn reason, Keeps P (l.endTurn turn reason)

namespace Loop.Keeping

variable {l : Loop} {P : Session → Prop}

theorem throwIfAborted (aborted : Option PyValue) : Keeps P (throwIfAborted aborted) := by
  cases aborted with
  | none => exact .pure ()
  | some reason => exact .raise _

variable (h : l.Keeping P)

include h

theorem pushAll (turn step : Nat) (chunks : List StreamChunk) (a : BlockAssembler) : Keeps P (l.pushAll turn step a chunks) := by
  induction chunks generalizing a with
  | nil => exact .pure a
  | cons chunk chunks ih => exact .bind (h.chunk turn step chunk) (fun _ => ih _)

theorem stream (turn step : Nat) (w : StepWorld) (retried : List (List StreamChunk)) : Keeps P (l.stream turn step w retried) := by
  induction retried with
  | nil => exact .bind (h.pushAll turn step _ _) (fun _ => .bind (.result _) (fun _ => .pure _))
  | cons chunks retried ih => exact .bind (h.pushAll turn step _ _) (fun _ => ih)

theorem finishStep (turn step : Nat) (w : StepWorld) (a : BlockAssembler) : Keeps P (l.finishStep turn step w a) := by
  unfold Loop.finishStep
  split
  · exact .pure _
  · refine .bind (h.reply turn step w a) (fun _ => ?_)
    split
    · exact .pure _
    · split
      · exact .pure _
      · exact .bind (.bind (.result _) (fun _ => h.tools turn step w _)) (fun _ => .pure _)

theorem runStep (turn step : Nat) (w : StepWorld) : Keeps P (l.runStep turn step w) := by
  refine .bind (.modifies h.listens) (fun _ => ?_)
  refine .bind (.result _) (fun _ => ?_)
  refine .bind (.bind (.reads _) (fun _ => .bind (.result _) (fun _ => .pure _))) (fun _ => ?_)
  refine .bind (.modifies h.routes) (fun _ => ?_)
  exact .bind (h.stream turn step w _) (fun _ => h.finishStep turn step w _)

theorem enter (messages : List Message) : Keeps P (l.enter messages) := by
  induction messages with
  | nil => exact .pure ()
  | cons message messages ih => exact .bind (h.message message) (fun _ => ih)

theorem steps (turn : Nat) (world : Nat → StepWorld) (remaining step : Nat) (pending : List Message) :
    Keeps P (l.steps turn world remaining step pending) := by
  induction remaining generalizing step pending with
  | zero => exact .bind (throwIfAborted _) (fun _ => .pure _)
  | succ remaining ih =>
    have hpre : Keeps P (preStep (world step) pending) := by
      refine .bind (.result _) (fun decision => ?_)
      split <;> exact .pure _
    refine .bind (throwIfAborted _) (fun _ => .bind hpre (fun decision => ?_))
    cases decision with
    | none => exact .pure _
    | some messages =>
      refine .bind (h.enter messages) (fun _ => .bind (.result _) (fun _ => .bind (h.stepStart turn step) (fun _ => ?_)))
      refine .bind (.ensure (h.runStep turn step _) (h.stepEnd turn step)) (fun ended => ?_)
      refine .bind (throwIfAborted _) (fun _ => ?_)
      cases ended.1 with
      | some reason => exact .pure _
      | none => exact ih _ _

theorem runTurn (turn : Nat) (claimed : List Message) (world : Nat → StepWorld) : Keeps P (l.runTurn turn claimed world) := by
  refine .bind (h.turnStart turn) (fun _ => .bind (.attempt (h.steps turn world _ 1 claimed)) (fun ended => ?_))
  match ended with
  | .ok reason => exact h.turnEnd turn reason
  | .error (.cancelled reason) => exact h.turnEnd turn _
  | .error (.failed error) => exact .bind (h.turnEnd turn _) (fun _ => .raise _)
  | .error .base => exact .bind (h.turnEnd turn _) (fun _ => .raise _)

end Loop.Keeping

/-! ## The log grows -/

theorem Session.append_prefix (s : Session) (c : AppendCall) : s.events <+: (s.append c).2.events := by
  rcases append_events s c with hsame | ⟨j, hgrown⟩
  · exact hsame ▸ List.prefix_refl s.events
  · rw [hgrown]
    exact List.prefix_append _ _

theorem Session.appends_prefix (s : Session) (calls : List AppendCall) : s.events <+: (s.appends calls).events := by
  unfold Session.appends
  induction calls generalizing s with
  | nil => exact List.prefix_refl _
  | cons c calls ih => exact (s.append_prefix c).trans (ih _)

namespace Loop

variable (l : Loop)

theorem write_grows (s₀ : Session) (type : EventType) (data : PyValue) :
    Effect.Keeps (fun s => s₀.events <+: s.events) (l.write type data) := by
  intro s hs
  rw [l.write_snd]
  exact hs.trans ((Session.appends_prefix s _).trans (Session.append_prefix _ _))

theorem writeResults_grows (s₀ : Session) (turn step : Nat) (w : StepWorld) (calls : List ToolCallBlock) :
    Effect.Keeps (fun s => s₀.events <+: s.events) (l.writeResults turn step w calls) := by
  induction calls with
  | nil => exact .pure _
  | cons call calls ih =>
    exact .bind (l.write_grows s₀ _ _) (fun _ => .bind (l.write_grows s₀ _ _) (fun _ => .bind ih (fun _ => .pure _)))

theorem growing (s₀ : Session) : l.Keeping (fun s => s₀.events <+: s.events) where
  listens s hs := hs.trans (Session.appends_prefix s _)
  routes _ hs := hs
  turnStart _ := l.write_grows s₀ _ _
  message _ := l.write_grows s₀ _ _
  stepStart _ _ := l.write_grows s₀ _ _
  chunk _ _ _ := l.write_grows s₀ _ _
  reply _ _ _ _ := l.write_grows s₀ _ _
  tools := l.writeResults_grows s₀
  stepEnd _ _ := l.write_grows s₀ _ _
  turnEnd _ _ := l.write_grows s₀ _ _

end Loop

end Pydsh
