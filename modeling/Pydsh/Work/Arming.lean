import Pydsh.Work.Goals

/-!
# Arming and the goal it is for

`GoalService.arm` and its siblings keep one entry for each session: whether this process drives the session's goal, and how many rounds it
has. The goal itself is folded from the log, and neither a new goal nor a clear touches the entry. The runs here put marks on what happens
to the goal and to the entry, so that what the entry says can be compared with what happened since the current goal was created. The
entry belongs to the current goal throughout a run exactly if a goal is created or cleared only before the first round, and no round is
begun without a goal (`arming_own_iff`).
-/

namespace Pydsh

/-- The `GoalError` of `arm` when the round budget is spent. -/
structure RoundsExhausted where
  rounds : Nat
  limit : Int

def RoundsExhausted.message (e : RoundsExhausted) : String :=
  "this goal has driven " ++ toString e.rounds ++ " rounds, at the limit of " ++ toString e.limit ++ "; a human should look at it"

def RoundsExhausted.code (_ : RoundsExhausted) : String := "GOAL_ROUNDS_EXHAUSTED"

/-- An entry of `_armed`. -/
structure ArmEntry where
  armed : Bool := false
  rounds : Nat := 0

/-- `GoalService.is_armed`, of what `_armed` holds for the session. -/
def isArmed (entry : Option ArmEntry) : Bool := entry.any (·.armed)

/-- `GoalService.rounds`. -/
def roundsOf (entry : Option ArmEntry) : Nat := (entry.map (·.rounds)).getD 0

/-- `GoalService.arm`. The entry is made before the limit is looked at. -/
def arm (maxRounds : Int) (entry : Option ArmEntry) : Except RoundsExhausted Unit × Option ArmEntry :=
  let e := entry.getD {}
  if maxRounds ≤ e.rounds then (.error ⟨e.rounds, maxRounds⟩, some e)
  else (.ok (), some { armed := true, rounds := e.rounds + 1 })

/-- `GoalService.disarm`. -/
def disarm (entry : Option ArmEntry) : Option ArmEntry := entry.map (fun e => { e with armed := false })

/-! ## Runs -/

/-- What happened to a session's goal and to its entry. -/
inductive ArmMark where
  | created | cleared | armed | disarmed
  deriving DecidableEq

/-- The mark of a change that landed; a change of the same goal has none. -/
def GoalChange.mark : GoalChange → Option ArmMark
  | .snapshot .create _ => some .created
  | .snapshot _ _ => none
  | .clear _ _ _ => some .cleared

/-- The mark is about the entry. -/
def ArmMark.ofEntry : ArmMark → Bool
  | .armed | .disarmed => true
  | .created | .cleared => false

/-- `GoalService.current`; `none` also where the fold raises. -/
def GoalRun.current (s : GoalRun) : Option Goal :=
  match goalState s.session with
  | .ok state => state.current
  | .error _ => none

/-- The change that a call of the service puts into the log; `none` where it raises. -/
def GoalRun.lands (s : GoalRun) (c : GoalCall) : Option GoalChange :=
  match goalState s.session with
  | .error _ => none
  | .ok state =>
    match c.change state with
    | (.error _, _) => none
    | (.ok change, time) =>
      match applyGoal s.session change time with
      | (.error _, _) => none
      | (.ok _, _) => (decodeGoalChange change).toOption

/-- A session with its goals, what `_armed` holds for it, and what happened to both, the last first. -/
structure ArmingRun where
  goals : GoalRun
  entry : Option ArmEntry := none
  marks : List ArmMark := []

/-- What happens: the service is called, other code appends, the goal is armed or disarmed. -/
inductive ArmingAction where
  | call (c : GoalCall)
  | append (call : AppendCall)
  | arm
  | disarm

namespace ArmingRun

/-- What an action does, with the limit the service was given; `none` where it cannot happen. -/
def step (maxRounds : Int) (s : ArmingRun) : ArmingAction → Option ArmingRun
  | .call c => some { s with
      goals := s.goals.serve c
      marks := ((s.goals.lands c).bind GoalChange.mark).toList ++ s.marks }
  | .append call => (s.goals.step (.append call)).map (fun goals => { s with goals })
  | .arm =>
    match Pydsh.arm maxRounds s.entry with
    | (.ok (), entry) => some { s with entry, marks := .armed :: s.marks }
    | (.error _, entry) => some { s with entry }
  | .disarm => some { s with entry := Pydsh.disarm s.entry, marks := .disarmed :: s.marks }

/-- What happened to the entry since the current goal was created; nothing where there is no goal. -/
def ofCurrent (s : ArmingRun) : List ArmMark := if s.goals.current.isSome then s.marks.takeWhile ArmMark.ofEntry else []

/-- How often the current goal was armed. -/
def arms (s : ArmingRun) : Nat := s.ofCurrent.count .armed

/-- The entry belongs to the current goal: the session is armed only if that goal was, and was not disarmed since; the rounds are its
rounds; and `arm` is refused exactly when it has had as many as there may be. -/
structure Own (maxRounds : Int) (s : ArmingRun) : Prop where
  armed : isArmed s.entry = true → s.goals.current.isSome ∧ s.ofCurrent.head? = some .armed
  rounds : roundsOf s.entry = s.arms
  refused : (∃ e, (Pydsh.arm maxRounds s.entry).1 = .error e) ↔ maxRounds ≤ s.arms

/-- A call that creates or clears a goal comes before the first round; and `arm` begins a round only where there is a goal. -/
def InOrder (maxRounds : Int) (s : ArmingRun) : ArmingAction → Prop
  | .call c => ((s.goals.lands c).bind GoalChange.mark).isSome → roundsOf s.entry = 0
  | .arm => s.goals.current.isSome ∨ maxRounds ≤ roundsOf s.entry
  | .append _ | .disarm => True

end ArmingRun

/-! ## The current goal -/

theorem GoalRun.current_of_state {s : GoalRun} {state : GoalState} (h : goalState s.session = .ok state) : s.current = state.current := by
  rw [current, h]

/-- A goal that a change leaves and that it does not create was there before. -/
theorem GoalState.current_of_follow {state state' : GoalState} {change : GoalChange} (h : state.follow change = .ok state')
    (hmark : change.mark ≠ some .created) : state.current.isSome := by
  rcases (GoalState.follow_ok h).2 with ⟨goal, rfl, -⟩ | ⟨current, hcurrent, -⟩
  · exact absurd rfl hmark
  · rw [hcurrent]
    rfl

/-- A call leaves the current goal, or its change landed: then the goal is what the change leaves, and was there before if the change is
not the first of one. -/
theorem GoalRun.lands_cases (s : GoalRun) (c : GoalCall) :
    (s.lands c = none ∧ (s.serve c).current = s.current) ∨
      ∃ change, s.lands c = some change ∧ (s.serve c).current = change.next ∧ (change.mark ≠ some .created → s.current.isSome) := by
  have hkept : ∀ e, (s.ends (.error e, s.session)).current = s.current := by
    intro e
    rw [current, (ends_error s e).1, current]
  unfold lands serve
  cases hstate : goalState s.session with
  | error e => exact Or.inl ⟨rfl, hkept e⟩
  | ok state =>
    rcases hchange : c.change state with ⟨built, time⟩
    simp only [hchange]
    cases built with
    | error e => exact Or.inl ⟨rfl, hkept e⟩
    | ok change =>
      rcases applyGoal_cases s.session change time with ⟨e, happly⟩ |
        ⟨state₁, state', event, session, hstate₁, happlied, happly, hevents, htype, hdata⟩
      · refine Or.inl ⟨by simp only [happly], ?_⟩
        simp only [happly]
        exact hkept e
      · cases hstate.symm.trans hstate₁
        obtain ⟨decoded, hdecode, hfollow⟩ := applyGoalChange_ok happlied
        have hafter : goalState session = .ok state' := by
          rw [goalState_concat hevents htype hstate, hdata]
          exact happlied
        refine Or.inr ⟨decoded, ?_, ?_, fun hmark => ?_⟩
        · simp only [happly, hdecode]
          rfl
        · simp only [happly]
          rw [current_of_state (s := s.ends (.ok state'.current, session)) hafter]
          exact (GoalState.follow_ok hfollow).1.current
        · rw [current_of_state hstate]
          exact GoalState.current_of_follow hfollow hmark

theorem GoalRun.current_append {s s' : GoalRun} {call : AppendCall} (h : s.step (.append call) = some s') : s'.current = s.current := by
  have hsame : ∀ session : Session, goalChanges session = goalChanges s.session → goalState session = goalState s.session := by
    intro session hchanges
    rw [goalState, hchanges, goalState]
  simp only [step] at h
  split at h
  · cases h
  · rename_i htype
    split at h
    · rename_i event session happend
      cases h
      obtain ⟨hevents, -⟩ := append_ok_events happend
      obtain ⟨j, -, rfl, -⟩ := append_ok_cases happend
      rw [current, current, hsame session (goalChanges_other hevents htype)]
    · rename_i e session happend
      cases h
      have hsession : session = (s.session.append call).2 := by rw [happend]
      rw [current, current, hsame session]
      rcases append_events s.session call with hevents | ⟨j, hevents⟩
      · rw [goalChanges, hsession, hevents, goalChanges]
      · rw [← hsession] at hevents
        exact goalChanges_other hevents htype

namespace ArmingRun

variable {maxRounds : Int} {s s' : ArmingRun}

/-- `arm` begins a round, or leaves what the entry says. -/
theorem arm_cases (maxRounds : Int) (entry : Option ArmEntry) :
    (¬maxRounds ≤ roundsOf entry ∧ Pydsh.arm maxRounds entry = (.ok (), some { armed := true, rounds := roundsOf entry + 1 })) ∨
      (maxRounds ≤ roundsOf entry ∧ ∃ e entry', Pydsh.arm maxRounds entry = (.error e, entry') ∧
        isArmed entry' = isArmed entry ∧ roundsOf entry' = roundsOf entry) := by
  have hrounds : (entry.getD {}).rounds = roundsOf entry := by cases entry <;> rfl
  unfold Pydsh.arm
  simp only [hrounds]
  by_cases hle : maxRounds ≤ roundsOf entry
  · refine Or.inr ⟨hle, _, _, if_pos hle, ?_, hrounds⟩
    cases entry <;> rfl
  · exact Or.inl ⟨hle, if_neg hle⟩

theorem arm_error_iff (entry : Option ArmEntry) :
    (∃ e, (Pydsh.arm maxRounds entry).1 = .error e) ↔ maxRounds ≤ roundsOf entry := by
  rcases arm_cases maxRounds entry with ⟨hle, harm⟩ | ⟨hle, e, entry', harm, -⟩
  · refine iff_of_false ?_ hle
    rintro ⟨e, he⟩
    rw [harm] at he
    cases he
  · exact iff_of_true ⟨e, by rw [harm]⟩ hle

/-- The entry belongs to the current goal where what it says does; the refusals follow. -/
theorem Own.of_rounds (harmed : isArmed s.entry = true → s.goals.current.isSome ∧ s.ofCurrent.head? = some .armed)
    (hrounds : roundsOf s.entry = s.arms) : s.Own maxRounds :=
  ⟨harmed, hrounds, by rw [arm_error_iff, hrounds]⟩

theorem Own.unarmed (h : s.Own maxRounds) (hnone : roundsOf s.entry = 0) : isArmed s.entry = false := by
  by_contra harmed
  obtain ⟨-, hhead⟩ := h.armed (by simpa using harmed)
  have hcount : s.arms = 0 := h.rounds.symm.trans hnone
  have hmem : ArmMark.armed ∈ s.ofCurrent := List.mem_of_mem_head? hhead
  exact absurd hmem (List.count_eq_zero.mp hcount)

/-- What the entry belongs to depends on the entry, on the marks since the goal was created and on whether there is one. -/
theorem Own.congr (h : s.Own maxRounds) (harmed : isArmed s'.entry = isArmed s.entry) (hrounds : roundsOf s'.entry = roundsOf s.entry)
    (hcurrent : s'.goals.current.isSome = s.goals.current.isSome) (hmarks : s'.marks = s.marks) : s'.Own maxRounds := by
  have hof : s'.ofCurrent = s.ofCurrent := by rw [ofCurrent, ofCurrent, hcurrent, hmarks]
  refine .of_rounds (fun h' => ?_) ?_
  · rw [hcurrent, hof]
    exact h.armed (harmed ▸ h')
  · rw [arms, hof, hrounds]
    exact h.rounds

/-- A call keeps the ownership exactly if it neither creates nor clears a goal, or comes before the first round. -/
theorem own_call_iff (h : s.Own maxRounds) (c : GoalCall) (hstep : s.step maxRounds (.call c) = some s') :
    s'.Own maxRounds ↔ s.InOrder maxRounds (.call c) := by
  obtain rfl := Option.some.inj hstep
  rcases s.goals.lands_cases c with ⟨hlands, hcurrent⟩ | ⟨change, hlands, hcurrent, hbefore⟩
  · refine iff_of_true (h.congr rfl rfl (congrArg Option.isSome hcurrent) ?_) ?_
    · rw [hlands]
      rfl
    · simp [InOrder, hlands]
  · cases hmark : change.mark with
    | none =>
      refine iff_of_true (h.congr rfl rfl ?_ ?_) ?_
      · rw [hbefore (by simp [hmark]), hcurrent]
        cases change with
        | snapshot operation goal => rfl
        | clear cleared clearedAt positive => cases hmark
      · simp [hlands, hmark]
      · simp [InOrder, hlands, hmark]
    | some mark =>
      -- the entry stays, and no round of it is the goal's any more
      have hnew : ∀ entry, ({ goals := s.goals.serve c, entry, marks := mark :: s.marks } : ArmingRun).ofCurrent = [] := by
        intro entry
        have hof : mark.ofEntry = false := by
          cases change with
          | snapshot operation goal =>
            cases operation <;> cases hmark
            rfl
          | clear cleared clearedAt positive =>
            cases hmark
            rfl
        simp [ofCurrent, hof]
      have hmarks : ((s.goals.lands c).bind GoalChange.mark).toList ++ s.marks = mark :: s.marks := by simp [hlands, hmark]
      rw [hmarks]
      simp only [InOrder, hlands, Option.bind_some, hmark, Option.isSome_some, forall_const]
      constructor
      · intro hown
        have hrounds : roundsOf s.entry = _ := hown.rounds
        rwa [arms, hnew, List.count_nil] at hrounds
      · intro hnone
        refine .of_rounds (fun harmed => ?_) ?_
        · exact absurd harmed (by simp [h.unarmed hnone])
        · rw [arms, hnew, List.count_nil]
          exact hnone

/-- `arm` keeps the ownership exactly if there is a goal, or the rounds are spent. -/
theorem own_arm_iff (h : s.Own maxRounds) (hstep : s.step maxRounds .arm = some s') :
    s'.Own maxRounds ↔ s.InOrder maxRounds .arm := by
  rcases arm_cases maxRounds s.entry with ⟨hle, harm⟩ | ⟨hle, e, entry, harm, harmed, hrounds⟩
  · simp only [step, harm] at hstep
    obtain rfl := Option.some.inj hstep
    simp only [InOrder, hle, or_false]
    constructor
    · intro hown
      exact (hown.armed rfl).1
    · intro hcurrent
      have hof : ({ s with entry := some { armed := true, rounds := roundsOf s.entry + 1 }, marks := .armed :: s.marks } :
          ArmingRun).ofCurrent = .armed :: s.ofCurrent := by
        simp [ofCurrent, hcurrent, List.takeWhile_cons, ArmMark.ofEntry]
      refine .of_rounds (fun _ => ⟨hcurrent, by rw [hof]; rfl⟩) ?_
      rw [arms, hof, List.count_cons_self]
      exact congrArg (· + 1) h.rounds
  · simp only [step, harm] at hstep
    obtain rfl := Option.some.inj hstep
    exact iff_of_true (h.congr harmed hrounds rfl rfl) (Or.inr hle)

/-- `disarm` keeps it. -/
theorem Own.disarm (h : s.Own maxRounds) (hstep : s.step maxRounds .disarm = some s') : s'.Own maxRounds := by
  obtain rfl := Option.some.inj hstep
  have hunarmed : isArmed (Pydsh.disarm s.entry) = false := by cases s.entry <;> rfl
  have hrounds : roundsOf (Pydsh.disarm s.entry) = roundsOf s.entry := by cases s.entry <;> rfl
  refine .of_rounds (fun harmed => ?_) ?_
  · rw [hunarmed] at harmed
    cases harmed
  · rw [hrounds, h.rounds, arms, arms]
    unfold ofCurrent
    split <;> simp [List.takeWhile_cons, ArmMark.ofEntry]

theorem own_step_iff (h : s.Own maxRounds) {a : ArmingAction} (hstep : s.step maxRounds a = some s') :
    s'.Own maxRounds ↔ s.InOrder maxRounds a := by
  cases a with
  | call c => exact own_call_iff h c hstep
  | append call =>
    obtain ⟨goals, hgoals, rfl⟩ := Option.map_eq_some_iff.mp hstep
    exact iff_of_true (h.congr rfl rfl (congrArg Option.isSome (GoalRun.current_append hgoals)) rfl) trivial
  | arm => exact own_arm_iff h hstep
  | disarm => exact iff_of_true (h.disarm hstep) trivial

end ArmingRun

/-- Through a whole run from a session whose goal this process has not armed, the entry belongs to the current goal in every state exactly
if every step is in order: a goal is created or cleared only before the first round, and no round is begun without a goal. -/
theorem arming_own_iff {maxRounds : Int} {goals : GoalRun} {as : List ArmingAction} {s : ArmingRun}
    (hrun : Machine.exec (ArmingRun.step maxRounds) { goals } as = some s) :
    Machine.Always (ArmingRun.step maxRounds) (ArmingRun.Own maxRounds) { goals } as ↔
      Machine.Meets (ArmingRun.step maxRounds) (ArmingRun.InOrder maxRounds) { goals } as := by
  have hstart : ({ goals } : ArmingRun).Own maxRounds := by
    refine .of_rounds (fun harmed => ?_) ?_
    · cases harmed
    · unfold ArmingRun.arms ArmingRun.ofCurrent
      split <;> rfl
  exact Machine.always_iff_meets (fun s h => h) (fun s a s' h hstep => (ArmingRun.own_step_iff h hstep).mpr)
    (fun s a s' h hstep => (ArmingRun.own_step_iff h hstep).mp) hstart hrun

instance (maxRounds : Int) (s : ArmingRun) (a : ArmingAction) : Decidable (s.InOrder maxRounds a) :=
  match a with
  | .call c => inferInstanceAs (Decidable (((s.goals.lands c).bind GoalChange.mark).isSome → roundsOf s.entry = 0))
  | .arm => inferInstanceAs (Decidable (s.goals.current.isSome ∨ maxRounds ≤ roundsOf s.entry))
  | .append _ | .disarm => .isTrue trivial

/-- A goal is set, armed, reworded, disarmed and armed again; the third time there is no round left. -/
def armedTwice : List ArmingAction :=
  [.call (.set "write the report" "g1" 1 0), .arm, .call (.set "write the whole report" "" 2 0), .disarm, .arm, .arm]

theorem arming_own_iff_armedTwice : ∃ s, Machine.exec (ArmingRun.step 2) { goals := .start "s" {} } armedTwice = some s ∧
    isArmed s.entry = true ∧ s.arms = 2 ∧
    Machine.Always (ArmingRun.step 2) (ArmingRun.Own 2) { goals := .start "s" {} } armedTwice := by
  have hruns : (Machine.execIf (ArmingRun.step 2) (ArmingRun.InOrder 2) { goals := .start "s" {} } armedTwice).map
      (fun s => (isArmed s.entry, s.arms)) = some (true, 2) := by decide +kernel
  obtain ⟨s, hs, hsaid⟩ := Option.map_eq_some_iff.mp hruns
  obtain ⟨hexec, hmeets⟩ := Machine.meets_of_execIf hs
  obtain ⟨harmed, harms⟩ := Prod.mk.inj hsaid
  exact ⟨s, hexec, harmed, harms, (arming_own_iff hexec).mpr hmeets⟩

/-- A goal is set, armed and completed; the next one is set, and may have one round. -/
def nextGoal : List ArmingAction :=
  [.call (.set "write the report" "g1" 1 0), .arm, .call (.transition .complete 2 0), .call (.set "send it" "g2" 3 0)]

/-- The next goal is armed and has no round left, though nobody armed it. -/
theorem arming_not_own : ¬∀ maxRounds goals as s, Machine.exec (ArmingRun.step maxRounds) { goals } as = some s → s.Own maxRounds := by
  intro h
  have hruns : (Machine.exec (ArmingRun.step 1) { goals := .start "s" {} } nextGoal).map
      (fun s => (isArmed s.entry, s.ofCurrent, s.goals.current.map (·.id))) = some (true, [], some "g2") := by decide +kernel
  obtain ⟨s, hs, hsaid⟩ := Option.map_eq_some_iff.mp hruns
  obtain ⟨harmed, hof, -⟩ : isArmed s.entry = true ∧ s.ofCurrent = [] ∧ s.goals.current.map (·.id) = some "g2" := by simpa using hsaid
  obtain ⟨-, hhead⟩ := (h 1 _ nextGoal s hs).armed harmed
  rw [hof] at hhead
  cases hhead

end Pydsh
