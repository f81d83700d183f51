import Pydsh.Agent.Exits

/-!
# The log of a turn

The four bracket events are the loop's own: no other code appends them. In that reading a turn puts into the log its start, for
each step its start, its reply where it has one and its end, and at last the end of the turn, if the gate takes the reason
(`runTurn_logs`).
-/

namespace Pydsh

open Effect (Does)

/-- `turn/start`, `turn/end`, `step/start` and `step/end`. -/
def EventType.isBracket : EventType → Bool
  | .turnStart | .turnEnd | .stepStart | .stepEnd => true
  | _ => false

/-- `{"turn": turn}`. -/
def turnData (turn : Nat) : Json := .obj [("turn", .int turn)]

/-- `{"turn": turn, "step": step}`. -/
def stepData (turn step : Nat) : Json := .obj [("turn", .int turn), ("step", .int step)]

/-- `{"turn": turn, "reason": reason}`. -/
def turnEndData (turn : Nat) (reason : Json) : Json := .obj [("turn", .int turn), ("reason", reason)]

/-- The entries of one step, with its reply where it has one. -/
def stepEntries (turn step : Nat) (reply : Option Json) : List LogEntry :=
  (.stepStart, stepData turn step) :: (reply.toList.map (fun j => (.assistantMessage, j)) ++ [(.stepEnd, stepData turn step)])

/-- The entries of the steps from a number on, one for each reply. -/
def stepsEntries (turn : Nat) : Nat → List (Option Json) → List LogEntry
  | _, [] => []
  | step, reply :: replies => stepEntries turn step reply ++ stepsEntries turn (step + 1) replies

/-- A turn in the log: its number, for each of its steps the reply where there is one, and the reason it ended. -/
structure TurnRecord where
  turn : Nat
  replies : List (Option Json)
  reason : Json

/-- The start of a turn with its steps. -/
def openEntries (turn : Nat) (replies : List (Option Json)) : List LogEntry :=
  (.turnStart, turnData turn) :: stepsEntries turn 1 replies

/-- The entries of a turn. -/
def TurnRecord.entries (t : TurnRecord) : List LogEntry :=
  openEntries t.turn t.replies ++ [(.turnEnd, turnEndData t.turn t.reason)]

/-- The value passes the gate. -/
def PyValue.Lossless (v : PyValue) : Prop := ∃ j : Json, v = j.loads

/-- The gate takes the reason of the turn's end: an abort's reason and the finish of an error are the only ones it may refuse. -/
def TurnExit.Recordable : TurnExit → Prop
  | .cancelled reason => reason.Lossless
  | .errorFinish finish => (PyValue.dict finish).Lossless
  | _ => True

/-- A step that ends with its reply as the last one of its turn: the reply asks for no tool, and its finish is neither an error
nor the token ceiling. -/
structure Loop.LastReply (l : Loop) (turn step : Nat) (w : StepWorld) (reply : Json) : Prop where
  data : reply.loads = l.replyData turn step w w.assembler
  uncalled : w.calls = []
  noError : w.assembler.finishKind ≠ some "error"
  noCeiling : w.assembler.finishKind ≠ some "max-tokens"

/-- No other code appends bracket events. -/
structure Loop.OwnsBrackets (l : Loop) : Prop where
  listeners : ∀ seq, ∀ c ∈ l.listeners seq, c.eventType.isBracket = false
  others : ∀ seq, ∀ c ∈ l.others seq, c.eventType.isBracket = false

/-- From the session the code ends with the result, and puts the entries into the log. -/
abbrev Puts {α : Type} (m : LoopM α) (s : Session) (r : Except Raised α) (told : List LogEntry) : Prop :=
  Does (Session.Logs EventType.isBracket) m s r told

/-- A step within the ceiling has a round of the loop left for it. -/
theorem Loop.round_left (l : Loop) {step remaining : Nat} (allowed : (step : Int) ≤ l.options.maxSteps)
    (hremaining : (remaining : Int) = max (l.options.maxSteps + 1 - step) 0) : ∃ n, remaining = n + 1 :=
  ⟨remaining - 1, by omega⟩

namespace Loop.OwnsBrackets

variable {l : Loop} (hl : l.OwnsBrackets) {turn step : Nat} {w : StepWorld}

/-- The reading of a turn by its brackets tells entries in their order. -/
theorem telling : Effect.Telling (Session.Logs EventType.isBracket) := Session.logging EventType.isBracket

include hl

theorem interleave_logs (s : Session) : s.Logs EventType.isBracket (l.interleave s) [] := .appends_other s (hl.others s.seq)

/-- An event of another type, accepted or refused, need not be told. -/
theorem write_other (s : Session) {type : EventType} (hknown : type.isKnown = true) (hother : type.isBracket = false)
    (data : PyValue) : Puts (l.write type data) s (l.gate data) [] := by
  have hlogs := (hl.interleave_logs s).trans (Session.Logs.append_other (l.interleave s)
    (c := { eventType := type, data, time := l.clock (l.interleave s).seq }) hother)
  exact ⟨_, Prod.ext (l.write_fst s hknown data) (l.write_snd s type data), hlogs⟩

theorem write_told (s : Session) {type : EventType} (hknown : type.isKnown = true) {data : PyValue} {j : Json}
    (hdata : data = j.loads) : Puts (l.write type data) s (.ok ()) [(type, j)] := by
  subst hdata
  have hlogs := (hl.interleave_logs s).trans (Session.Logs.append_told (l.interleave s)
    (c := { eventType := type, data := j.loads, time := l.clock (l.interleave s).seq }) hknown rfl (validateLosslessJson_loads j))
  exact ⟨_, Prod.ext ((l.write_fst s hknown j.loads).trans (l.gate_loads j)) (l.write_snd s type j.loads), hlogs⟩

theorem write_refused (s : Session) {type : EventType} (hknown : type.isKnown = true) {data : PyValue} {e : Raised}
    (h : l.gate data = .error e) : Puts (l.write type data) s (.error e) [] :=
  ⟨l.interleave s, l.write_of_refused s hknown h, hl.interleave_logs s⟩

theorem reports : l.Reports (Session.Logs EventType.isBracket) where
  telling := telling
  listens s := .appends_other s (hl.listeners s.seq)
  routes s := ⟨[], by simp [Loop.setRequest], by simp, rfl⟩
  chunk s data := hl.write_other s rfl rfl data

/-! ## Steps -/

theorem writeResults_puts (turn step : Nat) (w : StepWorld) (s : Session) (calls : List ToolCallBlock) :
    Puts (l.writeResults turn step w calls) s (.ok (calls.map w.resultOf)) [] := by
  induction calls generalizing s with
  | nil => exact .pure telling _
  | cons call calls ih =>
    have hcall : Puts (l.write .toolCall _) s (l.gate _) [] := hl.write_other s rfl rfl (Json.obj [("turn", .int turn),
      ("step", .int step), ("callId", .str call.id), ("name", .str call.name), ("arguments", .str call.arguments)]).loads
    rw [gate_loads] at hcall
    refine .after telling hcall (fun s₁ _ => ?_)
    have hresult : Puts (l.write .toolResult _) s₁ (l.gate _) [] := hl.write_other s₁ rfl rfl (Json.obj [("turn", .int turn),
      ("step", .int step), ("message", (w.resultOf call).toJson), ("error", .bool (w.outcome call).isError), ("meta", .null)]).loads
    rw [gate_loads] at hresult
    exact .after telling hresult (fun s₂ _ => .returns telling (ih s₂) rfl)

theorem enter_puts (s : Session) (messages : List Message) : Puts (l.enter messages) s (.ok ()) [] := by
  induction messages generalizing s with
  | nil => exact .pure telling ()
  | cons m messages ih =>
    have hwrite : Puts (l.write .userMessage _) s (l.gate _) [] := hl.write_other s rfl rfl m.toJson.loads
    rw [gate_loads] at hwrite
    exact .after telling hwrite (fun s₁ _ => ih s₁)

theorem runStep_puts (turn step : Nat) (w : StepWorld) {s : Session} {ended : StepEnd}
    (hends : w.Ends l (l.ready (l.listen s)) ended) : ∃ reply : Option Json,
      Puts (l.runStep turn step w) s (ended.result w) (reply.toList.map (fun j => (.assistantMessage, j))) ∧
      (ended = .completed → ∃ j, reply = some j ∧ l.LastReply turn step w j) := by
  have hresults : w.gathered = .ok () → ∀ s', Puts (l.executeToolCalls turn step w w.calls) s' (.ok (w.calls.map w.resultOf)) [] :=
    fun h s' => .of_ok h (hl.writeResults_puts turn step w s' w.calls)
  have hrefused : ∀ e, w.recorded l = .error e → ∀ s',
      Puts (l.write .assistantMessage (l.replyData turn step w w.assembler)) s' (.error e) [] :=
    fun e h s' => hl.write_refused s' rfl ((l.gate_reply turn step w).trans h)
  cases hrecorded : w.recorded l with
  | error e =>
    have hdoes : Puts (l.runStep turn step w) s (ended.result w) (ended.told [] []) :=
      hl.reports.endedStep_does hends (fun h => by rw [hrecorded] at h; cases h) hrefused hresults
    have htold : ended.told ([] : List LogEntry) [] = [] := by cases ended <;> rfl
    rw [htold] at hdoes
    refine ⟨none, hdoes, ?_⟩
    rintro rfl
    cases hends with
    | completed replies noCeiling uncalled =>
      rw [replies.recorded] at hrecorded
      cases hrecorded
  | ok u =>
    obtain ⟨j, hj⟩ := l.gate_eq_ok_iff.mp ((l.gate_reply turn step w).trans hrecorded)
    have hdoes : Puts (l.runStep turn step w) s (ended.result w) (ended.told [(.assistantMessage, j)] []) :=
      hl.reports.endedStep_does hends (fun _ s' => hl.write_told s' rfl hj) hrefused hresults
    cases ended with
    | unreplied e => exact ⟨none, hdoes, fun h => by cases h⟩
    | errorFinish => exact ⟨none, hdoes, fun h => by cases h⟩
    | unrecorded e => exact ⟨none, hdoes, fun h => by cases h⟩
    | completed =>
      cases hends with
      | completed replies noCeiling uncalled =>
        exact ⟨some j, hdoes, fun _ => ⟨j, rfl, hj.symm, uncalled, replies.noError, noCeiling⟩⟩
    | _ => exact ⟨some j, hdoes, fun h => by cases h⟩

theorem openStep_puts (turn step : Nat) {w : StepWorld} (hentered : w.appended = .ok ()) (messages : List Message) (s : Session) :
    Puts (l.openStep turn step w messages) s (.ok ()) [(.stepStart, stepData turn step)] :=
  .after telling (hl.enter_puts s messages) (fun s₁ _ => .of_ok hentered (hl.write_told s₁ rfl rfl))

/-- A step, with its `step/end` however it ends. -/
theorem closedStep_puts (turn step : Nat) (w : StepWorld) {s : Session} {ended : StepEnd}
    (hends : w.Ends l (l.ready (l.listen s)) ended) : ∃ reply : Option Json,
      Puts (l.closedStep turn step w) s (ended.result w)
        (reply.toList.map (fun j => (.assistantMessage, j)) ++ [(.stepEnd, stepData turn step)]) ∧
      (ended = .completed → ∃ j, reply = some j ∧ l.LastReply turn step w j) := by
  obtain ⟨reply, hruns, hlast⟩ := hl.runStep_puts turn step w hends
  exact ⟨reply, hruns.ensure telling (fun s₁ _ => hl.write_told s₁ rfl rfl), hlast⟩

end Loop.OwnsBrackets

/-- The loop of a turn after a step, with what it returned. -/
def Loop.goOn (l : Loop) (turn : Nat) (world : Nat → StepWorld) (remaining step : Nat) (ended : Option PyValue × List Message) :
    LoopM PyValue := do
  throwIfAborted (world step).abortedAfter
  match ended.1 with
  | some reason => return reason
  | none => l.steps turn world remaining (step + 1) ended.2

theorem Loop.steps_taken (l : Loop) (turn : Nat) (world : Nat → StepWorld) (remaining step : Nat) {pending messages : List Message}
    (h : (world step).Taken l step pending messages) (s : Session) :
    l.steps turn world (remaining + 1) step pending s = (l.openStep turn step (world step) messages >>= fun _ =>
      l.closedStep turn step (world step) >>= l.goOn turn world remaining step) s := by
  have hdecided : preStep (world step) pending = pure (some messages) := by
    have henters := h.enters
    unfold StepWorld.entering at henters
    unfold preStep
    cases hdecision : (world step).decision with
    | error e => simp [hdecision, Except.map] at henters
    | ok decision =>
      rw [hdecision] at henters
      cases decision with
      | reject => cases henters
      | enter entering =>
        cases henters
        rfl
      | noOpinion =>
        cases henters
        rfl
  unfold Loop.steps Loop.openStep
  rw [h.live, hdecided, h.entered, Effect.bind_assoc]
  rfl

/-- A step that raises leaves the loop by its raise, and one that returns a reason hands on the result of its exit. -/
theorem StepEnd.result_of_exit (w : StepWorld) (ended : StepEnd) :
    (∀ e, ended.exit w = .error e → ended.result w = .error e) ∧
    ∀ exit, ended.exit w = .ok (some exit) → ∃ reason, ended.result w = .ok (some reason, []) ∧ exit.result = .ok reason := by
  cases ended <;>
    · refine ⟨fun e h => ?_, fun exit h => ?_⟩
      · cases h <;> rfl
      · cases h <;> exact ⟨_, rfl, rfl⟩

theorem StepEnd.result_of_exit_ok (w : StepWorld) (ended : StepEnd) {exit : Option TurnExit} (h : ended.exit w = .ok exit) :
    ∃ returned, ended.result w = .ok returned := by
  cases ended <;> first | cases h; done | exact ⟨_, rfl⟩

theorem StepEnd.exit_eq_completed {w : StepWorld} (ended : StepEnd) (h : ended.exit w = .ok (some .completed)) :
    ended = .completed := by
  cases ended <;> simp_all [StepEnd.exit]

/-- The end of a turn is appended if and only if its reason passes the gate. -/
theorem TurnExit.recordable_iff (exit : TurnExit) : exit.Recordable ↔ exit.reason.Lossless := by
  have hplain : ∀ kind, (reasonOf kind).Lossless := fun kind => ⟨.obj [("kind", .str kind)], rfl⟩
  cases exit with
  | cancelled reason =>
    constructor
    · rintro ⟨j, rfl⟩
      exact ⟨.obj [("kind", .str "cancelled"), ("reason", j)], rfl⟩
    · rintro ⟨j, hj⟩
      have hgate := validateLosslessJson_record [("kind", .str "cancelled")] "reason" reason
      have hrecord : validateLosslessJson (.record [("kind", .str "cancelled"), ("reason", reason)]) = .ok j :=
        (validateLosslessJson_eq_ok_iff _ j).mpr hj
      cases hreason : validateLosslessJson reason with
      | error e =>
        rw [hreason] at hgate
        cases hgate.symm.trans hrecord
      | ok k => exact ⟨k, (validateLosslessJson_eq_ok_iff _ k).mp hreason⟩
  | failed error => exact ⟨fun _ => ⟨.obj [("kind", .str "failed"), ("error", .str error)], rfl⟩, fun _ => trivial⟩
  | errorFinish finish => exact Iff.rfl
  | _ => exact ⟨fun _ => hplain _, fun _ => trivial⟩

/-- The end of a turn: its `turn/end`, and the raise that is not swallowed. -/
theorem Loop.closeTurn_eq (l : Loop) (turn : Nat) (exit : TurnExit) (s : Session) :
    l.closeTurn turn exit.result s = (l.endTurn turn exit.reason >>= fun _ => Effect.result exit.raises) s := by
  have hpure : ∀ m : LoopM Unit, m s = (m >>= fun _ => Effect.result (.ok ())) s := by
    intro m
    simp only [bind, Effect.result]
    rcases m s with ⟨e | u, s'⟩ <;> rfl
  cases exit <;> first | exact hpure _ | rfl

namespace Loop.OwnsBrackets

variable {l : Loop} (hl : l.OwnsBrackets) {turn : Nat} {world : Nat → StepWorld} {s : Session} {step : Nat}
  {pending messages : List Message}

include hl

/-- A step that is taken: its entries, and what follows them if it returns. -/
theorem taken_puts (taken : (world step).Taken l step pending messages) {ended : StepEnd}
    (ends : (world step).Ends l (l.readyAt turn step (world step) messages s) ended) (remaining : Nat) : ∃ reply : Option Json,
      (∀ e, ended.result (world step) = .error e →
        Puts (l.steps turn world (remaining + 1) step pending) s (.error e) (stepEntries turn step reply)) ∧
      (∀ returned r more, ended.result (world step) = .ok returned →
        Puts (l.goOn turn world remaining step returned) (l.afterStep turn step (world step) messages s) r more →
        Puts (l.steps turn world (remaining + 1) step pending) s r (stepEntries turn step reply ++ more)) ∧
      (ended = .completed → ∃ j, reply = some j ∧ l.LastReply turn step (world step) j) := by
  have hopen := hl.openStep_puts turn step taken.entered messages s
  obtain ⟨reply, hclosed, hlast⟩ := hl.closedStep_puts turn step (world step) ends
  refine ⟨reply, fun e he => ?_, fun returned r more hreturned hmore => ?_, hlast⟩
  · rw [he] at hclosed
    exact .of_eq (l.steps_taken turn world remaining step taken s) (hopen.bind_at telling (.bind_error hclosed))
  · rw [hreturned] at hclosed
    have hrest := hopen.bind_at telling (f := fun _ => l.closedStep turn step (world step) >>= l.goOn turn world remaining step)
      (hclosed.bind_at telling hmore)
    rw [← List.append_assoc] at hrest
    exact .of_eq (l.steps_taken turn world remaining step taken s) hrest

/-- The steps of a turn, by the exit it comes to: their results, and their entries. At a clean completion the last of them has
its reply. -/
theorem steps_puts {exit : TurnExit} (h : l.TurnEnds turn world s step pending exit) (remaining : Nat)
    (hremaining : (remaining : Int) = max (l.options.maxSteps + 1 - step) 0) : ∃ replies : List (Option Json),
      replies.length ≤ remaining ∧
      Puts (l.steps turn world remaining step pending) s exit.result (stepsEntries turn step replies) ∧
      (exit = .completed → ∃ before reply k, replies = before ++ [some reply] ∧ k + 1 = step + replies.length ∧
        l.LastReply turn k (world k) reply) := by
  induction h generalizing remaining with
  | @aborted s step pending reason aborted =>
    refine ⟨[], Nat.zero_le _, ?_, fun h => by cases h⟩
    cases remaining <;>
      · unfold Loop.steps
        rw [aborted]
        exact .bind_error (hl.reports.throwIfAborted_some s reason)
  | @maxSteps s step pending live ceiling =>
    obtain rfl : remaining = 0 := by omega
    refine ⟨[], Nat.le_refl _, ?_, fun h => by cases h⟩
    unfold Loop.steps
    rw [live]
    exact .returns telling (hl.reports.throwIfAborted_none s) rfl
  | @undecided s step pending e live allowed raised =>
    obtain ⟨n, rfl⟩ := l.round_left allowed hremaining
    refine ⟨[], Nat.zero_le _, ?_, fun h => by cases e <;> cases h⟩
    have hraised : (world step).entering pending = .error e := by simp [StepWorld.entering, raised, Except.map]
    have hsteps : Puts (l.steps turn world (n + 1) step pending) s (.error e) [] := by
      unfold Loop.steps
      rw [live]
      refine .after telling (hl.reports.throwIfAborted_none s) (fun s₁ _ => ?_)
      have hdecided := hl.reports.preStep_does (w := world step) s₁ pending
      rw [hraised] at hdecided
      exact .bind_error hdecided
    cases e <;> exact hsteps
  | @blocked s step pending live allowed rejected =>
    obtain ⟨n, rfl⟩ := l.round_left allowed hremaining
    refine ⟨[], Nat.zero_le _, ?_, fun h => by cases h⟩
    have hrejected : (world step).entering pending = .ok none := by simp [StepWorld.entering, rejected, Except.map]
    unfold Loop.steps
    rw [live]
    refine .after telling (hl.reports.throwIfAborted_none s) (fun s₁ _ => ?_)
    have hdecided := hl.reports.preStep_does (w := world step) s₁ pending
    rw [hrejected] at hdecided
    exact .returns telling hdecided rfl
  | @unentered s step pending messages e decided raised =>
    obtain ⟨n, rfl⟩ := l.round_left decided.allowed hremaining
    refine ⟨[], Nat.zero_le _, ?_, fun h => by cases e <;> cases h⟩
    have hsteps : Puts (l.steps turn world (n + 1) step pending) s (.error e) [] := by
      unfold Loop.steps
      rw [decided.live]
      refine .after telling (hl.reports.throwIfAborted_none s) (fun s₁ _ => ?_)
      have hdecided := hl.reports.preStep_does (w := world step) s₁ pending
      rw [decided.enters] at hdecided
      refine .after telling hdecided (fun s₂ _ => ?_)
      exact .after telling (hl.enter_puts s₂ messages) (fun s₃ _ => .of_error telling raised)
    cases e <;> exact hsteps
  | @raised s step pending messages ended e taken ends raised =>
    obtain ⟨n, rfl⟩ := l.round_left taken.allowed hremaining
    obtain ⟨reply, hraise, -, -⟩ := hl.taken_puts taken ends n
    refine ⟨[reply], by simp, ?_, fun h => by cases e <;> cases h⟩
    have hputs := hraise e ((ended.result_of_exit (world step)).1 e raised)
    have hsteps : stepsEntries turn step [reply] = stepEntries turn step reply := List.append_nil _
    rw [hsteps]
    cases e <;> exact hputs
  | @abortedAfter s step pending messages ended exit reason taken ends returned aborted =>
    obtain ⟨n, rfl⟩ := l.round_left taken.allowed hremaining
    obtain ⟨reply, -, hgoes, -⟩ := hl.taken_puts taken ends n
    obtain ⟨result, hresult⟩ := ended.result_of_exit_ok (world step) returned
    refine ⟨[reply], by simp, hgoes result _ _ hresult ?_, fun h => by cases h⟩
    unfold Loop.goOn
    rw [aborted]
    exact .bind_error (hl.reports.throwIfAborted_some _ reason)
  | @ended s step pending messages ended exit taken ends returned live =>
    obtain ⟨n, rfl⟩ := l.round_left taken.allowed hremaining
    obtain ⟨reply, -, hgoes, hlast⟩ := hl.taken_puts taken ends n
    obtain ⟨reason, hresult, hreason⟩ := (ended.result_of_exit (world step)).2 exit returned
    refine ⟨[reply], by simp, hgoes _ _ _ hresult ?_, ?_⟩
    · unfold Loop.goOn
      rw [live, hreason]
      exact .returns telling (hl.reports.throwIfAborted_none _) rfl
    · rintro rfl
      obtain rfl : ended = .completed := ended.exit_eq_completed returned
      obtain ⟨j, rfl, hj⟩ := hlast rfl
      exact ⟨[], j, step, rfl, rfl, hj⟩
  | @next s step pending messages exit taken ends live rest ih =>
    obtain ⟨n, rfl⟩ := l.round_left taken.allowed hremaining
    obtain ⟨reply, -, hgoes, -⟩ := hl.taken_puts taken ends n
    obtain ⟨replies, hlength, hrest, hlast⟩ := ih n (by omega)
    refine ⟨reply :: replies, by simpa using hlength, hgoes _ _ _ rfl ?_, fun hcompleted => ?_⟩
    · unfold Loop.goOn
      rw [live]
      exact .of_eq rfl hrest
    · obtain ⟨before, final, k, rfl, hk, hfinal⟩ := hlast hcompleted
      exact ⟨reply :: before, final, k, rfl, by simp only [List.length_cons, List.length_append] at hk ⊢; omega, hfinal⟩

/-! ## A turn -/

theorem closeTurn_puts (turn : Nat) (exit : TurnExit) (s : Session) :
    (∀ j : Json, exit.reason = j.loads → Puts (l.closeTurn turn exit.result) s exit.raises [(.turnEnd, turnEndData turn j)]) ∧
    (¬exit.Recordable → ∃ e, Puts (l.closeTurn turn exit.result) s (.error e) []) := by
  constructor
  · intro j hj
    have hend : Puts (l.endTurn turn exit.reason) s (.ok ()) [(.turnEnd, turnEndData turn j)] :=
      hl.write_told s rfl (j := turnEndData turn j) (by rw [hj]; rfl)
    exact .of_eq (l.closeTurn_eq turn exit s) (hend.bind telling (fun s₁ _ => .result telling _))
  · intro hrefused
    have hgate := l.gate_record [("turn", .int turn)] "reason" exit.reason
    cases hreason : l.gate exit.reason with
    | ok u => exact absurd (exit.recordable_iff.mpr (l.gate_eq_ok_iff.mp hreason)) hrefused
    | error e =>
      have hend : Puts (l.endTurn turn exit.reason) s (.error e) [] := hl.write_refused s rfl (hgate.trans hreason)
      exact ⟨e, .of_eq (l.closeTurn_eq turn exit s) (.bind_error hend)⟩

/-- What a turn puts into the log, by the exit it comes to: its start and its steps, at most as many as its ceiling, and its end
if the gate takes the reason. -/
theorem runTurn_puts {claimed : List Message} {exit : TurnExit} (h : l.Exits turn claimed world s exit) :
    ∃ replies : List (Option Json), (replies.length : Int) ≤ max l.options.maxSteps 0 ∧
      (∀ j : Json, exit.reason = j.loads →
        Puts (l.runTurn turn claimed world) s exit.raises (TurnRecord.entries ⟨turn, replies, j⟩)) ∧
      (¬exit.Recordable → ∃ e, Puts (l.runTurn turn claimed world) s (.error e) (openEntries turn replies)) ∧
      (exit = .completed → ∃ before reply k, replies = before ++ [some reply] ∧ k = replies.length ∧
        l.LastReply turn k (world k) reply) := by
  obtain ⟨replies, hlength, hsteps, hlast⟩ := hl.steps_puts h l.options.maxSteps.toNat (by omega)
  have hstart : Puts (l.write .turnStart (Json.obj [("turn", .int turn)]).loads) s (.ok ()) [(.turnStart, turnData turn)] :=
    hl.write_told s rfl rfl
  refine ⟨replies, by omega, fun j hj => ?_, fun hrefused => ?_, fun hcompleted => ?_⟩
  · have hclosed := hsteps.attempt.bind telling (f := l.closeTurn turn) (fun s₁ _ => (hl.closeTurn_puts turn exit s₁).1 j hj)
    have hall := hstart.bind_at telling
      (f := fun _ => Effect.attempt (l.steps turn world l.options.maxSteps.toNat 1 claimed) >>= l.closeTurn turn) hclosed
    exact hall
  · obtain ⟨e, hclose⟩ := (hl.closeTurn_puts turn exit _).2 hrefused
    have hclosed := hsteps.attempt.bind_at telling (f := l.closeTurn turn) hclose
    have hall := hstart.bind_at telling
      (f := fun _ => Effect.attempt (l.steps turn world l.options.maxSteps.toNat 1 claimed) >>= l.closeTurn turn) hclosed
    rw [List.append_nil] at hall
    exact ⟨e, hall⟩
  · obtain ⟨before, reply, k, rfl, hk, hreply⟩ := hlast hcompleted
    exact ⟨before, reply, k, rfl, by omega, hreply⟩

end Loop.OwnsBrackets

end Pydsh
