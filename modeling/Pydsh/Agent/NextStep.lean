import Pydsh.Agent.Drain
import Pydsh.Agent.Shared
import Pydsh.Lib.Bracket

/-!
# Input for the next step

A turn of `agent/agent.py` from the claim that opens it to its end: before each step the listeners decide on what the turn carries in,
first what was claimed, then the results of the last step's tools. The drain claims before a turn only, so what is inserted on
`next-step` while a turn runs is not claimed under it (`not_claimed_in_turn`), and a run keeps the law that it joins the turn's next
step exactly where no step leaves it behind (`next_step_joins`).
-/

namespace Pydsh

/-- What happened: an insert, with the turn that was running; a claim under a turn; a turn took a step; and messages entered it. -/
inductive JoinEvent where
  | inserted (turn : Option Nat) (target : Target) (message : Message)
  | claimed (turn : Nat) (message : Message)
  | took (turn step : Nat)
  | entered (turn step : Nat) (messages : List Message)

/-- Where the agent is: in no turn; before the test of the loop, with the steps taken and what is carried in; at the listeners that
decide, with what was left on `next-step` when the step was taken; or in a step. -/
inductive JoinPhase where
  | resting
  | between (turn step : Nat) (pending : List Message)
  | deciding (turn step : Nat) (pending left : List Message)
  | stepping (turn step : Nat)

/-- The turn of a phase. -/
def JoinPhase.turn? : JoinPhase → Option Nat
  | .resting => none
  | .between turn _ _ | .deciding turn _ _ _ | .stepping turn _ => some turn

/-- What was left on `next-step` when the turn took the step it decides on. -/
def JoinPhase.left : JoinPhase → List Message
  | .deciding _ _ _ left => left
  | .resting | .between _ _ _ | .stepping _ _ => []

/-- An agent's inbox and its turn, with what happened. -/
structure JoinRun where
  inbox : Queues Message := {}
  lastTurn : Nat
  phase : JoinPhase := .resting
  history : List JoinEvent := []

/-- What happens: anyone inserts; the drain claims what opens a turn; the turn takes a step; its input is decided on; the step ends with
results of tools; or the turn ends. -/
inductive JoinAction where
  | insert (target : Target) (message : Message)
  | claim
  | takeStep
  | decide (decision : PreStep)
  | stepEnds (results : List Message)
  | turnEnds

namespace JoinRun

/-- An agent over a session whose last turn had a number. -/
def start (lastTurn : Nat) : JoinRun := { lastTurn }

/-- The turn that runs. -/
def turn? (s : JoinRun) : Option Nat := s.phase.turn?

/-- What an action does; `none` where it cannot happen. -/
def step (maxSteps : Int) (s : JoinRun) : JoinAction → Option JoinRun
  | .insert target message =>
    some { s with
      inbox := s.inbox.modify target (· ++ [message])
      history := s.history ++ [.inserted s.turn? target message] }
  | .claim =>
    match s.phase with
    | .resting =>
      if s.inbox.hasPending then
        some
          { inbox := s.inbox.claim.2
            lastTurn := s.lastTurn + 1
            phase := .between (s.lastTurn + 1) 0 s.inbox.claim.1
            history := s.history ++ s.inbox.claim.1.map (.claimed (s.lastTurn + 1)) }
      else none
    | _ => none
  | .takeStep =>
    match s.phase with
    | .between turn step pending =>
      if (step : Int) < maxSteps then
        some { s with
          phase := .deciding turn (step + 1) pending s.inbox.nextStep
          history := s.history ++ [.took turn (step + 1)] }
      else none
    | _ => none
  | .decide decision =>
    match s.phase with
    | .deciding turn step pending _ =>
      match decision.entering pending with
      | none => some { s with phase := .resting }
      | some messages =>
        some { s with
          phase := .stepping turn step
          history := s.history ++ [.entered turn step messages] }
    | _ => none
  | .stepEnds results =>
    match s.phase with
    | .stepping turn step => some { s with phase := .between turn step results }
    | _ => none
  | .turnEnds =>
    match s.phase with
    | .resting => none
    | _ => some { s with phase := .resting }

/-- What an action found, and the state it leaves. -/
inductive Does (maxSteps : Int) (s : JoinRun) : JoinAction → JoinRun → Prop where
  | inserts (target : Target) (message : Message) : Does maxSteps s (.insert target message)
      { s with
        inbox := s.inbox.modify target (· ++ [message])
        history := s.history ++ [.inserted s.turn? target message] }
  | claims (hphase : s.phase = .resting) : Does maxSteps s .claim
      { inbox := s.inbox.claim.2
        lastTurn := s.lastTurn + 1
        phase := .between (s.lastTurn + 1) 0 s.inbox.claim.1
        history := s.history ++ s.inbox.claim.1.map (.claimed (s.lastTurn + 1)) }
  | takes {turn step : Nat} {pending : List Message} (hphase : s.phase = .between turn step pending) : Does maxSteps s .takeStep
      { s with
        phase := .deciding turn (step + 1) pending s.inbox.nextStep
        history := s.history ++ [.took turn (step + 1)] }
  | enters {decision : PreStep} {turn step : Nat} {pending left messages : List Message}
      (hphase : s.phase = .deciding turn step pending left) (hentering : decision.entering pending = some messages) :
      Does maxSteps s (.decide decision)
        { s with
          phase := .stepping turn step
          history := s.history ++ [.entered turn step messages] }
  | rejects (decision : PreStep) : Does maxSteps s (.decide decision) { s with phase := .resting }
  | returns {results : List Message} {turn step : Nat} (hphase : s.phase = .stepping turn step) :
      Does maxSteps s (.stepEnds results) { s with phase := .between turn step results }
  | rests : Does maxSteps s .turnEnds { s with phase := .resting }

theorem does_of_step {maxSteps : Int} {s s' : JoinRun} {a : JoinAction} (hstep : s.step maxSteps a = some s') : s.Does maxSteps a s' := by
  cases a with
  | insert target message =>
    obtain rfl := Option.some.inj hstep
    exact .inserts target message
  | claim =>
    simp only [step] at hstep
    split at hstep
    · rename_i hphase
      split at hstep
      · obtain rfl := Option.some.inj hstep
        exact .claims hphase
      · cases hstep
    · cases hstep
  | takeStep =>
    simp only [step] at hstep
    split at hstep
    · rename_i hphase
      split at hstep
      · obtain rfl := Option.some.inj hstep
        exact .takes hphase
      · cases hstep
    · cases hstep
  | decide decision =>
    simp only [step] at hstep
    split at hstep
    · rename_i hphase
      split at hstep
      · obtain rfl := Option.some.inj hstep
        exact .rejects decision
      · rename_i hentering
        obtain rfl := Option.some.inj hstep
        exact .enters hphase hentering
    · cases hstep
  | stepEnds results =>
    simp only [step] at hstep
    split at hstep
    · rename_i hphase
      obtain rfl := Option.some.inj hstep
      exact .returns hphase
    · cases hstep
  | turnEnds =>
    simp only [step] at hstep
    split at hstep
    · cases hstep
    · obtain rfl := Option.some.inj hstep
      exact .rests

end JoinRun

/-! ## The law -/

/-- What is inserted on `next-step` while a turn runs is claimed under that turn before the input of the next step that the turn takes
enters, and enters it. -/
def Joined (history : List JoinEvent) : Prop :=
  ∀ before message between turn step messages after,
    history = before ++ .inserted (some turn) .nextStep message :: (between ++ .entered turn step messages :: after) →
    (∀ k, .took turn k ∈ between ↔ k = step) → .claimed turn message ∈ between ∧ message ∈ messages

/-- Where the input of a step enters, nothing was left on `next-step` when the turn took that step. -/
def JoinRun.NothingLeft (s : JoinRun) : JoinAction → Prop
  | .decide decision => ∀ turn step pending left, s.phase = .deciding turn step pending left →
      (decision.entering pending).isSome = true → left = []
  | _ => True

theorem Joined.front {history es : List JoinEvent} (h : Joined (history ++ es)) : Joined history := by
  intro before message between turn step messages after heq htook
  refine h before message between turn step messages (after ++ es) ?_ htook
  rw [heq, List.append_assoc, List.cons_append, List.append_assoc, List.cons_append]

theorem Joined.other {history : List JoinEvent} (h : Joined history) {e : JoinEvent}
    (he : ∀ turn step messages, e ≠ .entered turn step messages) : Joined (history ++ [e]) := by
  intro before message between turn step messages after heq htook
  have heq' : history ++ [e] = (before ++ .inserted (some turn) .nextStep message :: between) ++ .entered turn step messages :: after := by
    rw [heq, List.append_assoc, List.cons_append]
  rcases Bracket.concat_eq_cases heq' with ⟨-, -, hentered⟩ | ⟨rest, -, hhistory⟩
  · exact absurd hentered.symm (he turn step messages)
  · refine h before message between turn step messages rest ?_ htook
    rw [hhistory, List.append_assoc, List.cons_append]

theorem Joined.others {history : List JoinEvent} (h : Joined history) {es : List JoinEvent}
    (hes : ∀ e ∈ es, ∀ turn step messages, e ≠ .entered turn step messages) : Joined (history ++ es) := by
  induction es generalizing history with
  | nil => rwa [List.append_nil]
  | cons e es ih =>
    rw [List.append_cons]
    exact ih (h.other (hes e List.mem_cons_self)) (fun e' he' => hes e' (List.mem_cons_of_mem e he'))

/-! ## What every run keeps -/

/-- The target and the message were inserted while the turn ran, and the events after that are known. -/
def InsertedIn (history : List JoinEvent) (turn : Nat) (target : Target) (message : Message) (between : List JoinEvent) : Prop :=
  ∃ before, history = before ++ .inserted (some turn) target message :: between

theorem InsertedIn.of_concat {history : List JoinEvent} {e : JoinEvent} {turn : Nat} {target : Target} {message : Message}
    {between : List JoinEvent} (h : InsertedIn (history ++ [e]) turn target message between) :
    (between = [] ∧ e = .inserted (some turn) target message) ∨
      ∃ rest, between = rest ++ [e] ∧ InsertedIn history turn target message rest := by
  obtain ⟨before, heq⟩ := h
  rcases Bracket.concat_eq_cases heq with ⟨hnone, -, he⟩ | ⟨rest, hbetween, hhistory⟩
  · exact Or.inl ⟨hnone, he.symm⟩
  · exact Or.inr ⟨rest, hbetween, before, hhistory⟩

theorem InsertedIn.of_append {history es : List JoinEvent} {turn : Nat} {target : Target} {message : Message}
    {between : List JoinEvent} (h : InsertedIn (history ++ es) turn target message between)
    (hes : ∀ e ∈ es, ∀ turn target message, e ≠ .inserted turn target message) :
    ∃ rest, between = rest ++ es ∧ InsertedIn history turn target message rest := by
  induction es using List.reverseRecOn generalizing between with
  | nil => exact ⟨between, (List.append_nil _).symm, by rwa [List.append_nil] at h⟩
  | append_singleton es e ih =>
    rw [← List.append_assoc] at h
    rcases h.of_concat with ⟨-, he⟩ | ⟨rest, rfl, hrest⟩
    · exact absurd he (hes e (List.mem_append_right _ (List.mem_singleton_self e)) _ _ _)
    · obtain ⟨rest', rfl, hhistory⟩ := ih hrest (fun e' he' => hes e' (List.mem_append_left _ he'))
      exact ⟨rest', List.append_assoc _ _ _, hhistory⟩

/-- Messages enter a step, and nothing was inserted on `next-step` in the turn before it took that step. -/
theorem Joined.entered {history : List JoinEvent} (h : Joined history) {turn step : Nat} {messages : List Message}
    (hnone : ∀ message between, InsertedIn history turn .nextStep message between → .took turn step ∉ between) :
    Joined (history ++ [.entered turn step messages]) := by
  intro before message between turn' step' messages' after heq htook
  have heq' : history ++ [.entered turn step messages] =
      (before ++ .inserted (some turn') .nextStep message :: between) ++ .entered turn' step' messages' :: after := by
    rw [heq, List.append_assoc, List.cons_append]
  rcases Bracket.concat_eq_cases heq' with ⟨-, hhistory, hentered⟩ | ⟨rest, -, hhistory⟩
  · rw [JoinEvent.entered.injEq] at hentered
    obtain ⟨rfl, rfl, -⟩ := hentered
    exact absurd ((htook _).mpr rfl) (hnone message between ⟨before, hhistory.symm⟩)
  · refine h before message between turn' step' messages' rest ?_ htook
    rw [hhistory, List.append_assoc, List.cons_append]

namespace JoinRun

/-- In every run: what was inserted while a turn ran is of a turn up to the last, and is not claimed under that turn; while that turn
runs, what it left on `next-step` waits there; and it was there when a step was taken after it. -/
structure Waits (s : JoinRun) : Prop where
  current : ∀ turn, s.turn? = some turn → turn ≤ s.lastTurn
  upto : ∀ turn target message between, InsertedIn s.history turn target message between → turn ≤ s.lastTurn
  unclaimed : ∀ turn target message between, InsertedIn s.history turn target message between →
    ∀ other, .claimed turn other ∉ between
  waiting : ∀ turn, s.turn? = some turn → ∀ message between, InsertedIn s.history turn .nextStep message between →
    message ∈ s.inbox.nextStep
  left : ∀ turn step pending left, s.phase = .deciding turn step pending left → ∀ message between,
    InsertedIn s.history turn .nextStep message between → .took turn step ∈ between → message ∈ left

variable {maxSteps : Int} {s s' : JoinRun}

theorem Waits.start (lastTurn : Nat) : (JoinRun.start lastTurn).Waits := by
  have hnone : ∀ {turn target message between}, ¬InsertedIn (JoinRun.start lastTurn).history turn target message between := by
    rintro turn target message between ⟨before, heq⟩
    cases before <;> cases heq
  refine ⟨?_, ?_, ?_, ?_, ?_⟩
  · intro turn hturn
    cases hturn
  · exact fun _ _ _ _ hin => absurd hin hnone
  · exact fun _ _ _ _ hin => absurd hin hnone
  · intro turn hturn
    cases hturn
  · intro turn step pending left hphase
    cases hphase

theorem Waits.insert (h : s.Waits) (target : Target) (message : Message) : ({ s with
      inbox := s.inbox.modify target (· ++ [message])
      history := s.history ++ [.inserted s.turn? target message] } : JoinRun).Waits := by
  refine ⟨h.current, ?_, ?_, ?_, ?_⟩
  · intro turn target' message' between hin
    rcases hin.of_concat with ⟨-, he⟩ | ⟨rest, -, hrest⟩
    · rw [JoinEvent.inserted.injEq] at he
      exact h.current turn he.1
    · exact h.upto turn target' message' rest hrest
  · intro turn target' message' between hin other hclaimed
    rcases hin.of_concat with ⟨rfl, -⟩ | ⟨rest, rfl, hrest⟩
    · cases hclaimed
    · rcases List.mem_append.mp hclaimed with hclaimed | hclaimed
      · exact h.unclaimed turn target' message' rest hrest other hclaimed
      · cases List.mem_singleton.mp hclaimed
  · intro turn hturn message' between hin
    have hkept : ∀ m ∈ s.inbox.nextStep, m ∈ (s.inbox.modify target (· ++ [message])).nextStep := by
      intro m hm
      cases target with
      | nextTurn => exact hm
      | nextStep => exact List.mem_append_left _ hm
    rcases hin.of_concat with ⟨-, he⟩ | ⟨rest, -, hrest⟩
    · rw [JoinEvent.inserted.injEq] at he
      obtain ⟨-, rfl, rfl⟩ := he
      exact List.mem_append_right _ (List.mem_singleton_self _)
    · exact hkept _ (h.waiting turn hturn message' rest hrest)
  · intro turn step pending left hphase message' between hin htook
    rcases hin.of_concat with ⟨rfl, -⟩ | ⟨rest, rfl, hrest⟩
    · cases htook
    · rcases List.mem_append.mp htook with htook | htook
      · exact h.left turn step pending left hphase message' rest hrest htook
      · cases List.mem_singleton.mp htook

theorem Waits.claim (h : s.Waits) : ({
      inbox := s.inbox.claim.2
      lastTurn := s.lastTurn + 1
      phase := .between (s.lastTurn + 1) 0 s.inbox.claim.1
      history := s.history ++ s.inbox.claim.1.map (.claimed (s.lastTurn + 1)) } : JoinRun).Waits := by
  have hes : ∀ e ∈ s.inbox.claim.1.map (JoinEvent.claimed (s.lastTurn + 1)), ∀ turn target message,
      e ≠ .inserted turn target message := by
    intro e he turn target message
    obtain ⟨m, -, rfl⟩ := List.mem_map.mp he
    simp
  refine ⟨?_, ?_, ?_, ?_, ?_⟩
  · intro turn hturn
    cases hturn
    exact le_refl _
  · intro turn target message between hin
    obtain ⟨rest, -, hrest⟩ := hin.of_append hes
    exact Nat.le_succ_of_le (h.upto turn target message rest hrest)
  · intro turn target message between hin other hclaimed
    obtain ⟨rest, rfl, hrest⟩ := hin.of_append hes
    rcases List.mem_append.mp hclaimed with hclaimed | hclaimed
    · exact h.unclaimed turn target message rest hrest other hclaimed
    · obtain ⟨m, -, hm⟩ := List.mem_map.mp hclaimed
      have hupto := h.upto turn target message rest hrest
      rw [JoinEvent.claimed.injEq] at hm
      omega
  · intro turn hturn message between hin
    cases hturn
    obtain ⟨rest, -, hrest⟩ := hin.of_append hes
    have hupto := h.upto _ _ _ _ hrest
    omega
  · intro turn step pending left hphase
    cases hphase

/-- What changes only the phase, and says no more than what is neither an insert nor a claim. -/
theorem Waits.goes (h : s.Waits) (phase : JoinPhase) (es : List JoinEvent) (hturn : ∀ turn, phase.turn? = some turn → s.turn? = some turn)
    (hes : ∀ e ∈ es, (∀ turn target message, e ≠ .inserted turn target message) ∧ ∀ turn message, e ≠ .claimed turn message)
    (hleft : ∀ turn step pending left, phase = .deciding turn step pending left → left = s.inbox.nextStep) :
    ({ s with
        phase := phase
        history := s.history ++ es } : JoinRun).Waits := by
  have hinserted : ∀ e ∈ es, ∀ turn target message, e ≠ .inserted turn target message := fun e he => (hes e he).1
  refine ⟨?_, ?_, ?_, ?_, ?_⟩
  · exact fun turn hphase => h.current turn (hturn turn hphase)
  · intro turn target message between hin
    obtain ⟨rest, -, hrest⟩ := hin.of_append hinserted
    exact h.upto turn target message rest hrest
  · intro turn target message between hin other hclaimed
    obtain ⟨rest, rfl, hrest⟩ := hin.of_append hinserted
    rcases List.mem_append.mp hclaimed with hclaimed | hclaimed
    · exact h.unclaimed turn target message rest hrest other hclaimed
    · exact (hes _ hclaimed).2 turn other rfl
  · intro turn hphase message between hin
    obtain ⟨rest, -, hrest⟩ := hin.of_append hinserted
    exact h.waiting turn (hturn turn hphase) message rest hrest
  · intro turn step pending left hphase message between hin htook
    obtain ⟨rest, -, hrest⟩ := hin.of_append hinserted
    obtain rfl : phase = .deciding turn step pending left := hphase
    rw [hleft turn step pending left rfl]
    exact h.waiting turn (hturn turn rfl) message rest hrest

theorem Waits.rests (h : s.Waits) : ({ s with phase := .resting } : JoinRun).Waits := by
  refine ⟨?_, h.upto, h.unclaimed, ?_, ?_⟩
  · intro turn hturn
    cases hturn
  · intro turn hturn
    cases hturn
  · intro turn step pending left hphase
    cases hphase

theorem Waits.step {a : JoinAction} (h : s.Waits) (hstep : s.step maxSteps a = some s') : s'.Waits := by
  cases does_of_step hstep with
  | inserts target message => exact h.insert target message
  | claims hphase => exact h.claim
  | takes hphase =>
    refine h.goes _ _ ?_ ?_ ?_
    · intro turn' hturn
      rw [← hturn, turn?, hphase]
      rfl
    · intro e he
      rw [List.mem_singleton.mp he]
      exact ⟨fun _ _ _ => by simp, fun _ _ => by simp⟩
    · intro turn' step' pending' left' hphase'
      cases hphase'
      rfl
  | enters hphase hentering =>
    refine h.goes _ _ ?_ ?_ ?_
    · intro turn' hturn
      rw [← hturn, turn?, hphase]
      rfl
    · intro e he
      rw [List.mem_singleton.mp he]
      exact ⟨fun _ _ _ => by simp, fun _ _ => by simp⟩
    · intro turn' step' pending' left' hphase'
      cases hphase'
  | rejects decision => exact h.rests
  | @returns results turn step hphase =>
    have hgoes := h.goes (.between turn step results) [] ?_ ?_ ?_
    · rwa [List.append_nil] at hgoes
    · intro turn' hturn
      rw [← hturn, turn?, hphase]
      rfl
    · exact fun _ he => absurd he List.not_mem_nil
    · intro turn' step' pending' left' hphase'
      cases hphase'
  | rests => exact h.rests

/-- Where the input of a step enters, nothing that was inserted in the turn before the step was taken waits for it. -/
theorem Waits.joined {a : JoinAction} (h : s.Waits) (hok : s.NothingLeft a) (hjoined : Joined s.history)
    (hstep : s.step maxSteps a = some s') : Joined s'.history := by
  cases does_of_step hstep with
  | inserts target message => exact hjoined.other (fun _ _ _ => by simp)
  | claims hphase =>
    refine hjoined.others ?_
    intro e he turn step messages
    obtain ⟨m, -, rfl⟩ := List.mem_map.mp he
    simp
  | takes hphase => exact hjoined.other (fun _ _ _ => by simp)
  | enters hphase hentering =>
    refine hjoined.entered ?_
    intro message between hin htook
    have hleft := hok _ _ _ _ hphase (by rw [hentering]; rfl)
    have hmem := h.left _ _ _ _ hphase message between hin htook
    rw [hleft] at hmem
    cases hmem
  | rejects decision => exact hjoined
  | returns hphase => exact hjoined
  | rests => exact hjoined

/-- Whatever happens, nothing is claimed under the turn it was inserted in: the drain claims before a turn only. -/
theorem not_claimed_in_turn {lastTurn : Nat} (h : Machine.Reach (JoinRun.step maxSteps) Machine.anyStep (.start lastTurn) s)
    {turn : Nat} {target : Target} {message : Message} {between : List JoinEvent}
    (hin : InsertedIn s.history turn target message between) (other : Message) : .claimed turn other ∉ between := by
  have hwaits : s.Waits := h.invariant (Waits.start lastTurn) (fun _ _ _ hs _ hstep => hs.step hstep)
  exact hwaits.unclaimed turn target message between hin other

/-! ## Where nothing is left -/

/-- The message was inserted on `next-step` while the turn ran, and the turn took these steps since. -/
def Since (history : List JoinEvent) (turn : Nat) (steps : List Nat) (message : Message) : Prop :=
  ∃ between, InsertedIn history turn .nextStep message between ∧ ∀ k, .took turn k ∈ between ↔ k ∈ steps

theorem Since.grow {history es : List JoinEvent} {turn : Nat} {steps : List Nat} {message : Message} (h : Since history turn steps message)
    (hes : ∀ k, .took turn k ∉ es) : Since (history ++ es) turn steps message := by
  obtain ⟨between, ⟨before, heq⟩, htook⟩ := h
  refine ⟨between ++ es, ⟨before, by rw [heq, List.append_assoc, List.cons_append]⟩, ?_⟩
  intro k
  rw [List.mem_append, htook]
  exact or_iff_left (hes k)

theorem Since.took {history : List JoinEvent} {turn : Nat} {message : Message} (h : Since history turn [] message) (step : Nat) :
    Since (history ++ [.took turn step]) turn [step] message := by
  obtain ⟨between, ⟨before, heq⟩, htook⟩ := h
  refine ⟨between ++ [.took turn step], ⟨before, by rw [heq, List.append_assoc, List.cons_append]⟩, ?_⟩
  intro k
  have hnone : .took turn k ∉ between := fun hk => List.not_mem_nil ((htook k).mp hk)
  simp [hnone]

/-- In the runs that leave nothing behind: what a step found on `next-step` was inserted since the step before it, and what came there
after that since the step itself. -/
structure Fresh (s : JoinRun) : Prop where
  newer : ∀ turn, s.turn? = some turn → ∃ newer, s.inbox.nextStep = s.phase.left ++ newer ∧ ∀ m ∈ newer, Since s.history turn [] m
  left : ∀ turn step pending left, s.phase = .deciding turn step pending left → ∀ m ∈ left, Since s.history turn [step] m

theorem Fresh.start (lastTurn : Nat) : (JoinRun.start lastTurn).Fresh := by
  refine ⟨?_, ?_⟩
  · intro turn hturn
    cases hturn
  · intro turn step pending left hphase
    cases hphase

theorem Fresh.rests (s : JoinRun) : ({ s with phase := .resting } : JoinRun).Fresh := by
  refine ⟨?_, ?_⟩
  · intro turn hturn
    cases hturn
  · intro turn step pending left hphase
    cases hphase

theorem Fresh.insert (h : s.Fresh) (target : Target) (message : Message) : ({ s with
      inbox := s.inbox.modify target (· ++ [message])
      history := s.history ++ [.inserted s.turn? target message] } : JoinRun).Fresh := by
  have hes : ∀ turn k, JoinEvent.took turn k ∉ [JoinEvent.inserted s.turn? target message] := by
    intro turn k hk
    cases List.mem_singleton.mp hk
  refine ⟨?_, ?_⟩
  · intro turn hturn
    obtain ⟨newer, hnext, hnewer⟩ := h.newer turn hturn
    cases target with
    | nextTurn => exact ⟨newer, hnext, fun m hm => (hnewer m hm).grow (hes turn)⟩
    | nextStep =>
      refine ⟨newer ++ [message], ?_, ?_⟩
      · simp only [Queues.modify, hnext, List.append_assoc]
      · intro m hm
        rcases List.mem_append.mp hm with hm | hm
        · exact (hnewer m hm).grow (hes turn)
        · obtain rfl := List.mem_singleton.mp hm
          refine ⟨[], ⟨s.history, ?_⟩, fun k => iff_of_false List.not_mem_nil List.not_mem_nil⟩
          rw [← hturn]
          rfl
  · intro turn step pending left hphase m hm
    exact (h.left turn step pending left hphase m hm).grow (hes turn)

theorem Fresh.enters (h : s.Fresh) {turn step : Nat} {pending : List Message} (hphase : s.phase = .deciding turn step pending [])
    (messages : List Message) : ({ s with
      phase := .stepping turn step
      history := s.history ++ [.entered turn step messages] } : JoinRun).Fresh := by
  refine ⟨?_, ?_⟩
  · intro turn' hturn
    cases hturn
    obtain ⟨newer, hnext, hnewer⟩ := h.newer turn (by rw [turn?, hphase]; rfl)
    rw [hphase] at hnext
    refine ⟨newer, hnext, fun m hm => (hnewer m hm).grow ?_⟩
    intro k hk
    cases List.mem_singleton.mp hk
  · intro turn' step' pending' left' hphase'
    cases hphase'

theorem Fresh.takes (h : s.Fresh) {turn step : Nat} {pending : List Message} (hphase : s.phase = .between turn step pending) :
    ({ s with
      phase := .deciding turn (step + 1) pending s.inbox.nextStep
      history := s.history ++ [.took turn (step + 1)] } : JoinRun).Fresh := by
  refine ⟨?_, ?_⟩
  · intro turn' hturn
    exact ⟨[], (List.append_nil _).symm, fun m hm => absurd hm List.not_mem_nil⟩
  · intro turn' step' pending' left' hphase' m hm
    cases hphase'
    obtain ⟨newer, hnext, hnewer⟩ := h.newer turn (by rw [turn?, hphase]; rfl)
    rw [hphase] at hnext
    rw [hnext] at hm
    exact (hnewer m hm).took (step + 1)

theorem Fresh.step {a : JoinAction} (h : s.Fresh) (hok : s.NothingLeft a) (hstep : s.step maxSteps a = some s') : s'.Fresh := by
  cases does_of_step hstep with
  | inserts target message => exact h.insert target message
  | claims hphase =>
    refine ⟨?_, ?_⟩
    · exact fun turn _ => ⟨[], rfl, fun m hm => absurd hm List.not_mem_nil⟩
    · intro turn step pending left hphase
      cases hphase
  | takes hphase => exact h.takes hphase
  | @enters decision turn step pending left messages hphase hentering =>
    obtain rfl : left = [] := hok turn step pending left hphase (by rw [hentering]; rfl)
    exact h.enters hphase messages
  | rejects decision => exact Fresh.rests s
  | @returns results turn step hphase =>
    refine ⟨?_, ?_⟩
    · intro turn' hturn
      obtain ⟨newer, hnext, hnewer⟩ := h.newer turn' (by rw [turn?, hphase]; exact hturn)
      rw [hphase] at hnext
      exact ⟨newer, hnext, hnewer⟩
    · intro turn' step' pending' left' hphase'
      cases hphase'
  | rests => exact Fresh.rests s

/-- Where a step found something on `next-step` and its input enters all the same, what it found was not claimed. -/
theorem Fresh.loses {a : JoinAction} (h : s.Fresh) (hwaits : s.Waits) (hstep : s.step maxSteps a = some s')
    (hjoined : Joined s'.history) : s.NothingLeft a := by
  cases a with
  | insert target message => trivial
  | claim => trivial
  | takeStep => trivial
  | stepEnds results => trivial
  | turnEnds => trivial
  | decide decision =>
    intro turn step pending left hphase hentering
    obtain ⟨messages, hmessages⟩ := Option.isSome_iff_exists.mp hentering
    simp only [JoinRun.step, hphase, hmessages] at hstep
    obtain rfl := Option.some.inj hstep
    refine List.eq_nil_iff_forall_not_mem.mpr ?_
    intro m hm
    obtain ⟨between, hin, htook⟩ := h.left turn step pending left hphase m hm
    obtain ⟨before, heq⟩ := hin
    have hclaimed := hjoined before m between turn step messages [] (by rw [heq, List.append_assoc, List.cons_append])
      (fun k => (htook k).trans List.mem_singleton)
    exact hwaits.unclaimed turn .nextStep m between ⟨before, heq⟩ m hclaimed.1

theorem step_history {a : JoinAction} (hstep : s.step maxSteps a = some s') : ∃ es, s'.history = s.history ++ es := by
  cases does_of_step hstep with
  | inserts target message => exact ⟨_, rfl⟩
  | claims hphase => exact ⟨_, rfl⟩
  | takes hphase => exact ⟨_, rfl⟩
  | enters hphase hentering => exact ⟨_, rfl⟩
  | rejects decision => exact ⟨[], (List.append_nil _).symm⟩
  | returns hphase => exact ⟨[], (List.append_nil _).symm⟩
  | rests => exact ⟨[], (List.append_nil _).symm⟩

end JoinRun

theorem Joined.start (lastTurn : Nat) : Joined (JoinRun.start lastTurn).history := by
  intro before message between turn step messages after heq
  cases before <;> cases heq

/-- What is inserted on `next-step` while a turn runs is claimed under that turn and enters the next step it takes, exactly in the runs
in which nothing is left there when a turn takes a step whose input enters. -/
theorem next_step_joins {maxSteps : Int} {lastTurn : Nat} {actions : List JoinAction} {s : JoinRun}
    (hrun : Machine.exec (JoinRun.step maxSteps) (.start lastTurn) actions = some s) :
    Joined s.history ↔ Machine.Meets (JoinRun.step maxSteps) JoinRun.NothingLeft (.start lastTurn) actions := by
  refine Machine.exec_iff_meets (P := fun s => Joined s.history) (Joined.start lastTurn) ?_ ?_ hrun
  · intro s a s' hstep hjoined
    obtain ⟨es, hes⟩ := JoinRun.step_history hstep
    rw [hes] at hjoined
    exact hjoined.front
  · intro s a s' hreach hjoined hstep
    have hboth : s.Waits ∧ s.Fresh := by
      refine Machine.Reach.invariant (P := fun s => s.Waits ∧ s.Fresh) hreach ?_ ?_
      · exact ⟨JoinRun.Waits.start lastTurn, JoinRun.Fresh.start lastTurn⟩
      · intro s a s' hs hok hstep
        exact ⟨hs.1.step hstep, hs.2.step hok hstep⟩
    exact ⟨hboth.2.loses hboth.1 hstep, fun hok => hboth.1.joined hok hjoined hstep⟩

namespace JoinRun

/-- A prompt, a tool's result or a steering message. -/
def text (id : String) : Message := createUserMessage id [.text "go"]

/-- A prompt opens a turn, and while its step runs input for the next one comes. -/
def midTurn : List JoinAction :=
  [.insert .nextTurn (text "m1"), .claim, .takeStep, .decide .noOpinion, .insert .nextStep (text "m2")]

/-- Input of the first turn, which is claimed under the second. -/
theorem not_claimed_in_turn_second : JoinEvent.claimed 1 (text "m2") ∉ [JoinEvent.claimed 2 (text "m2")] := by
  have hrun : Machine.exec (JoinRun.step 8) (.start 0) (midTurn ++ [.turnEnds, .claim]) = some _ := rfl
  exact not_claimed_in_turn (.exec .start hrun) ⟨[_, _, _, _], rfl⟩ _

end JoinRun

/-- Input that comes in the last step of a turn opens the next turn. -/
theorem next_step_joins_after : Joined
    [.inserted none .nextTurn (JoinRun.text "m1"), .claimed 1 (JoinRun.text "m1"), .took 1 1, .entered 1 1 [JoinRun.text "m1"],
      .inserted (some 1) .nextStep (JoinRun.text "m2"), .claimed 2 (JoinRun.text "m2")] := by
  have hrun : (Machine.exec (JoinRun.step 8) (.start 0) (JoinRun.midTurn ++ [.turnEnds, .claim])).isSome = true := rfl
  obtain ⟨s, hs⟩ := Option.isSome_iff_exists.mp hrun
  have hmeets : Machine.Meets (JoinRun.step 8) JoinRun.NothingLeft (.start 0) (JoinRun.midTurn ++ [.turnEnds, .claim]) := by
    refine ⟨trivial, trivial, trivial, ?_, trivial, trivial, trivial, trivial⟩
    intro turn step pending left hphase hentering
    cases hphase
    rfl
  have hjoined := (next_step_joins hs).mpr hmeets
  cases hs
  exact hjoined

/-- A step runs a tool, and the next step of the turn carries in its result and not the input that came before it. -/
theorem left_on_next_step : ∃ s,
    Machine.exec (JoinRun.step 8) (.start 0)
      (JoinRun.midTurn ++ [.stepEnds [JoinRun.text "result"], .takeStep, .decide .noOpinion]) = some s ∧ ¬Joined s.history := by
  refine ⟨_, rfl, ?_⟩
  intro hjoined
  have hjoins := hjoined
    [.inserted none .nextTurn (JoinRun.text "m1"), .claimed 1 (JoinRun.text "m1"), .took 1 1, .entered 1 1 [JoinRun.text "m1"]]
    (JoinRun.text "m2") [.took 1 2] 1 2 [JoinRun.text "result"] [] rfl (fun k => by simp)
  cases List.mem_singleton.mp hjoins.1

/-! ## What is claimed -/

namespace JoinRun

/-- The messages that were inserted on a queue, in order. -/
def insertedOn (target : Target) (history : List JoinEvent) : List Message :=
  history.filterMap (fun e =>
    match e with
    | .inserted _ target' message => if target' = target then some message else none
    | _ => none)

/-- The messages that were claimed, in order. -/
def claimedOf (history : List JoinEvent) : List Message :=
  history.filterMap (fun e =>
    match e with
    | .claimed _ message => some message
    | _ => none)

/-- What was inserted on a queue is what was claimed from it and then what waits on it, and what was claimed is that of the two queues. -/
def Conserved (s : JoinRun) : Prop :=
  ∃ turns steps, insertedOn .nextTurn s.history = turns ++ s.inbox.nextTurn ∧ insertedOn .nextStep s.history = steps ++ s.inbox.nextStep ∧
    (claimedOf s.history).Perm (steps ++ turns) ∧ turns.Sublist (claimedOf s.history) ∧ steps.Sublist (claimedOf s.history)

theorem insertedOn_append (target : Target) (history es : List JoinEvent) :
    insertedOn target (history ++ es) = insertedOn target history ++ insertedOn target es := List.filterMap_append ..

theorem claimedOf_append (history es : List JoinEvent) : claimedOf (history ++ es) = claimedOf history ++ claimedOf es :=
  List.filterMap_append ..

theorem read_claims (turn : Nat) (messages : List Message) : claimedOf (messages.map (.claimed turn)) = messages ∧
    ∀ target, insertedOn target (messages.map (.claimed turn)) = [] := by
  simp [claimedOf, insertedOn, List.filterMap_map]

theorem Conserved.step {maxSteps : Int} {s s' : JoinRun} {a : JoinAction} (h : s.Conserved) (hstep : s.step maxSteps a = some s') :
    s'.Conserved := by
  have hsame := h
  obtain ⟨turns, steps, hturns, hsteps, hperm, hsub, hsub'⟩ := h
  have hother : ∀ {e : JoinEvent} {phase : JoinPhase}, (∀ target, insertedOn target [e] = []) → claimedOf [e] = [] →
      Conserved { s with phase, history := s.history ++ [e] } := by
    intro e phase hinserted hclaimed
    refine ⟨turns, steps, ?_⟩
    simp only [insertedOn_append, claimedOf_append, hinserted, hclaimed, List.append_nil]
    exact ⟨hturns, hsteps, hperm, hsub, hsub'⟩
  cases does_of_step hstep with
  | inserts target message =>
    refine ⟨turns, steps, ?_⟩
    cases target <;> simp_all [insertedOn, claimedOf, Queues.modify]
  | claims hphase =>
    refine ⟨turns ++ s.inbox.nextTurn.take 1, steps ++ s.inbox.nextStep, ?_⟩
    obtain ⟨hclaimed, hinserted⟩ := read_claims (s.lastTurn + 1) s.inbox.claim.1
    simp only [insertedOn_append, claimedOf_append, hclaimed, hinserted, hturns, hsteps]
    refine ⟨by simp only [Queues.claim, List.append_nil, List.append_assoc, List.take_append_drop], by simp [Queues.claim], ?_, ?_, ?_⟩
    · refine (hperm.append_right _).trans ?_
      simp only [Queues.claim, List.append_assoc]
      refine List.Perm.append_left _ ?_
      rw [← List.append_assoc, ← List.append_assoc]
      exact List.perm_append_comm.append_right _
    · exact hsub.append (List.sublist_append_right _ _)
    · exact hsub'.append (List.sublist_append_left _ _)
  | takes hphase => exact hother (fun _ => rfl) rfl
  | enters hphase hentering => exact hother (fun _ => rfl) rfl
  | rejects decision => exact hsame
  | returns hphase => exact hsame
  | rests => exact hsame

end JoinRun

/-- In every run no message is lost, claimed twice or claimed before another that was inserted on its queue earlier. -/
theorem claimed_once {maxSteps : Int} {lastTurn : Nat} {s : JoinRun}
    (h : Machine.Reach (JoinRun.step maxSteps) Machine.anyStep (.start lastTurn) s) : s.Conserved :=
  h.invariant ⟨[], [], rfl, rfl, .nil, .slnil, .slnil⟩ (fun _ _ _ hs _ hstep => hs.step hstep)

theorem claimed_once_midTurn : ∃ s, Machine.exec (JoinRun.step 8) (.start 0) JoinRun.midTurn = some s ∧ s.Conserved :=
  ⟨_, rfl, claimed_once (.exec .start (rfl : Machine.exec (JoinRun.step 8) (.start 0) JoinRun.midTurn = some _))⟩

end Pydsh
