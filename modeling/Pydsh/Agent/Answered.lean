import Pydsh.Agent.ToolResults
import Pydsh.Lib.Machine

/-!
# Answered tool calls

Whether a turn leaves a tool call without its result. An agent is a machine: it takes turns, and between them other code appends
what it likes, as long as the surface stays balanced. The loop puts the reply on the surface before it looks at the finish kind
and before it runs the tools, so a reply cut off at its token ceiling with a call in it, and a tool phase that raises, end the
turn with the calls unanswered (`cut_off_unanswered`). In every run where no step is cut off so, each turn answers all its calls
(`turns_answered`).
-/

namespace Pydsh

/-! ## Replies that are cut off -/

/-- A reply with tool calls is appended and cut off: it ends at its token ceiling, or its tool phase raises. -/
structure StepWorld.CutOff (w : StepWorld) (l : Loop) : Prop where
  noError : w.assembler.finishKind ≠ some "error"
  recorded : w.recorded l = .ok ()
  called : w.calls ≠ []
  broken : w.assembler.finishKind = some "max-tokens" ∨ w.gathered ≠ .ok ()

/-- No step that a turn of the session comes to is cut off. -/
def Loop.Unbroken (l : Loop) (s : Session) (world : Nat → StepWorld) : Prop :=
  ∀ step : Nat, 1 ≤ step → (step : Int) ≤ l.options.maxSteps →
    (∀ k, 1 ≤ k → k < step → (world k).GoesOn l (l.ready s)) → (world step).Enters →
    (world step).reply l (l.ready s) = .ok () → ¬(world step).CutOff l

/-! ## Settled conversations -/

/-- The conversation answers its calls: each has its result, and the count of outstanding calls comes back to zero. -/
structure Entry.Settled (entries : List Entry) : Prop where
  walk : Entry.Walk entries 0 0
  answered : ∀ entry ∈ entries, ∀ id ∈ entry.callIds, ∃ result ∈ entries, result.answers id = true

namespace Entry.Settled

variable {xs ys : List Entry}

theorem nil : Entry.Settled [] := ⟨rfl, by simp⟩

theorem append (hx : Entry.Settled xs) (hy : Entry.Settled ys) : Entry.Settled (xs ++ ys) := by
  refine ⟨hx.walk.append hy.walk, fun entry hentry id hid => ?_⟩
  rcases List.mem_append.mp hentry with hentry | hentry
  · obtain ⟨result, hresult, hanswers⟩ := hx.answered entry hentry id hid
    exact ⟨result, List.mem_append_left ys hresult, hanswers⟩
  · obtain ⟨result, hresult, hanswers⟩ := hy.answered entry hentry id hid
    exact ⟨result, List.mem_append_right xs hresult, hanswers⟩

theorem entered (messages : List Message) : Entry.Settled (Pydsh.entered messages) := by
  refine ⟨?_, ?_⟩
  · induction messages with
    | nil => rfl
    | cons m messages ih => exact ⟨Int.le_refl 0, ih⟩
  · intro entry hentry id hid
    obtain ⟨m, -, rfl⟩ := List.mem_map.mp hentry
    simp [Entry.callIds] at hid

end Entry.Settled

/-- The results of some calls take the count of outstanding calls down by as many. -/
theorem Entry.Walk.results (w : StepWorld) (calls : List ToolCallBlock) :
    Entry.Walk (calls.map (fun call => ⟨.toolResult, w.resultOf call⟩)) calls.length 0 := by
  induction calls with
  | nil => rfl
  | cons call calls ih =>
    refine ⟨?_, ?_⟩
    · simp only [Entry.delta, List.length_cons]
      omega
    · have hdown : ((call :: calls).length : Int) + (-1) = calls.length := by
        simp only [List.length_cons]
        omega
      simp only [Entry.delta, hdown]
      exact ih

namespace Loop

variable (l : Loop)

theorem reply_delta (w : StepWorld) :
    (⟨.assistantMessage, l.replyMessage w w.assembler⟩ : Entry).delta = w.calls.length := rfl

theorem settled_reply {w : StepWorld} (h : w.calls = []) :
    Entry.Settled [⟨.assistantMessage, l.replyMessage w w.assembler⟩] := by
  refine ⟨?_, ?_⟩
  · simp [Entry.Walk, reply_delta, h]
  · intro entry hentry id hid
    rw [List.mem_singleton.mp hentry, reply_callIds, h] at hid
    cases hid

theorem settled_answered (w : StepWorld) :
    Entry.Settled (⟨.assistantMessage, l.replyMessage w w.assembler⟩ :: w.answered) := by
  refine ⟨?_, ?_⟩
  · refine ⟨?_, ?_⟩
    · rw [reply_delta]
      omega
    · rw [reply_delta, Int.zero_add]
      exact .results w w.calls
  · intro entry hentry id hid
    have hids : id ∈ w.calls.map (·.id) := by
      rcases List.mem_cons.mp hentry with rfl | hentry
      · rwa [reply_callIds] at hid
      · obtain ⟨call, -, rfl⟩ := List.mem_map.mp hentry
        simp [Entry.callIds] at hid
    obtain ⟨call, hcall, rfl⟩ := List.mem_map.mp hids
    exact ⟨_, List.mem_cons_of_mem _ (List.mem_map_of_mem hcall), w.resultOf_answers call⟩

theorem settled_stepSaid {ready : Except Raised Unit} {w : StepWorld} (h : w.reply l ready = .ok () → ¬w.CutOff l) :
    Entry.Settled (l.stepSaid ready w).1 := by
  obtain ⟨ended, hends⟩ := w.exists_ends l ready
  rw [l.stepSaid_of_ends hends]
  have hsettled : ∀ replies : w.Replies l ready, (w.assembler.finishKind = some "max-tokens" ∨ w.gathered ≠ .ok ()) →
      Entry.Settled [⟨.assistantMessage, l.replyMessage w w.assembler⟩] := by
    intro replies hbroken
    refine l.settled_reply ?_
    by_contra hcalls
    exact h replies.replied ⟨replies.noError, replies.recorded, hcalls, hbroken⟩
  cases hends with
  | unreplied raised => exact .nil
  | errorFinish replied error => exact .nil
  | unrecorded replied noError refused => exact .nil
  | maxTokens replies ceiling => exact hsettled replies (Or.inl ceiling)
  | completed replies noCeiling uncalled => exact l.settled_reply uncalled
  | toolsRaised replies noCeiling called raised => exact hsettled replies (Or.inr (by simp [raised]))
  | ranTools replies noCeiling called gathered => exact l.settled_answered w

theorem settled_turnSaid {ready : Except Raised Unit} {world : Nat → StepWorld} (bound : Nat)
    (hunbroken : ∀ step, 1 ≤ step → step ≤ bound → (∀ k, 1 ≤ k → k < step → (world k).GoesOn l ready) →
      (world step).Enters → (world step).reply l ready = .ok () → ¬(world step).CutOff l)
    (remaining : Nat) {step : Nat} {pending : List Message} (hstep : 1 ≤ step) (hbound : step + remaining ≤ bound + 1)
    (hbefore : ∀ k, 1 ≤ k → k < step → (world k).GoesOn l ready) :
    Entry.Settled (l.turnSaid ready world remaining step pending).1 := by
  induction remaining generalizing step pending with
  | zero =>
    unfold Loop.turnSaid
    cases (world step).abortedBefore <;> exact .nil
  | succ remaining ih =>
    unfold Loop.turnSaid
    cases hlive : (world step).abortedBefore with
    | some reason => exact .nil
    | none =>
      rcases hentering : (world step).entering pending with e | _ | messages
      · exact .nil
      · exact .nil
      · cases happended : (world step).appended with
        | error e => exact Entry.Settled.entered messages
        | ok u =>
          have henters : (world step).Enters := by
            refine ⟨hlive, ?_, happended⟩
            rcases entering_eq_some hentering with ⟨hdecision, -⟩ | hdecision
            · exact Or.inl hdecision
            · exact Or.inr ⟨messages, hdecision⟩
          have hsettled := l.settled_stepSaid (hunbroken step hstep (by omega) hbefore henters)
          rcases hsaid : l.stepSaid ready (world step) with ⟨said, e | ⟨reason, results⟩⟩
          all_goals rw [hsaid] at hsettled
          · exact (Entry.Settled.entered messages).append hsettled
          · have hstepped := (Entry.Settled.entered messages).append hsettled
            cases hafter : (world step).abortedAfter with
            | some cause => simpa [hsaid, hafter] using hstepped
            | none =>
              cases reason with
              | some reason => simpa [hsaid, hafter] using hstepped
              | none =>
                have hruns : (world step).RunsTools l ready := ⟨henters, (l.stepSaid_eq_none hsaid).1⟩
                refine hstepped.append (ih (by omega) (by omega) (fun k hk hlt => ?_))
                rcases Nat.lt_succ_iff_lt_or_eq.mp hlt with hlt | rfl
                · exact hbefore k hk hlt
                · exact ⟨hruns, hafter⟩

/-- What a turn of a session says when no step it comes to is cut off. -/
theorem settled_said {s : Session} (claimed : List Message) {world : Nat → StepWorld} (h : l.Unbroken s world) :
    Entry.Settled (l.said s claimed world) := by
  refine l.settled_turnSaid l.options.maxSteps.toNat (fun step hstep hle hbefore => ?_) _ (Nat.le_refl 1)
    (by omega) (fun k hk hlt => by omega)
  exact h step hstep (by omega) hbefore

end Loop

/-! ## Runs of an agent -/

/-- The turn that began when the session had so many events answers its calls: the surface is balanced, and each tool call in an
`assistant/message` of the turn has a `tool/result` with its id on the surface. -/
structure Session.AnsweredSince (s : Session) (events : Nat) : Prop where
  balanced : s.balanced = true
  answered : ∀ e ∈ s.events.drop events, ∀ id ∈ e.callIds, ∃ n ∈ s.surfaceNodes, ∃ result, s.eventAt n = some result ∧
    result.answers id = true

/-- A session that tells a settled conversation answers its calls. -/
theorem Session.Tells.answeredSince {s s' : Session} {entries : List Entry} (h : s.Tells s' entries) (hs : s.Tidy)
    (hbalanced : s.balanced = true) (hsettled : Entry.Settled entries) : s'.AnsweredSince s.events.length := by
  refine ⟨h.balanced hs hbalanced hsettled.walk, fun e he id hid => ?_⟩
  cases ht : e.type.isSurface with
  | false =>
    rw [SessionEvent.callIds_logOnly ht] at hid
    cases hid
  | true =>
    obtain ⟨entry, hentry, hcarries⟩ := h.entry_of_event he ht
    rw [hcarries.callIds] at hid
    obtain ⟨result, hresult, hanswers⟩ := hsettled.answered entry hentry id hid
    obtain ⟨r, -, hcarries', hnode, hat⟩ := h.event_of_entry hresult
    exact ⟨r.seq, hnode, r, hat, by rw [hcarries'.answers, hanswers]⟩

/-- An agent with no turn in progress: its session, the number of its last turn, and, where that turn has just ended, how many
events the session had when it began. -/
structure AgentState where
  session : Session
  lastTurn : Nat
  turnAt : Option Nat := none

/-- A turn with what it claims and meets, or appends of other code between turns. -/
inductive AgentAction where
  | turn (claimed : List Message) (world : Nat → StepWorld)
  | between (calls : List AppendCall)

namespace AgentState

/-- What an action does. Other code between the turns appends what it likes, a compaction's replacements included, as long as it
leaves the surface balanced. -/
def step (l : Loop) (st : AgentState) : AgentAction → Option AgentState
  | .turn claimed world =>
    some {
      session := (l.runTurn (st.lastTurn + 1) claimed world st.session).2
      lastTurn := st.lastTurn + 1
      turnAt := some st.session.events.length }
  | .between calls =>
    let session := st.session.appends calls
    if session.balanced then some { st with
      session
      turnAt := none }
    else none

/-- No step of the turn is cut off. -/
def Unbroken (l : Loop) (st : AgentState) : AgentAction → Prop
  | .turn _ world => l.Unbroken st.session world
  | .between _ => True

/-- Where a turn has just ended, it answers its calls. -/
def Answered (st : AgentState) : Prop := ∀ events, st.turnAt = some events → st.session.AnsweredSince events

/-- What every unbroken run keeps. -/
structure Inv (st : AgentState) : Prop where
  tidy : st.session.Tidy
  balanced : st.session.balanced = true
  answered : st.Answered

theorem Inv.step {l : Loop} (hl : l.Quiet) {st st' : AgentState} {a : AgentAction} (h : st.Inv) (hok : st.Unbroken l a)
    (hstep : st.step l a = some st') : st'.Inv := by
  cases a with
  | turn claimed world =>
    obtain rfl := Option.some.inj hstep
    have htells := hl.runTurn_tells h.tidy (st.lastTurn + 1) claimed world
    have hsettled := l.settled_said claimed hok
    have hanswered := htells.answeredSince h.tidy h.balanced hsettled
    refine ⟨htells.tidy h.tidy, hanswered.balanced, fun events hevents => ?_⟩
    cases hevents
    exact hanswered
  | between calls =>
    simp only [AgentState.step] at hstep
    split at hstep
    · rename_i hbalanced
      obtain rfl := Option.some.inj hstep
      exact ⟨h.tidy.appends calls, hbalanced, nofun⟩
    · cases hstep

end AgentState

/-- In every run of an agent in which no step is cut off, every turn ends with all its tool calls answered on the surface, and
with the surface balanced. -/
theorem turns_answered {l : Loop} (hothers : l.Quiet) {loadsText : String → Option (List (PyKey × PyValue))} {s : Session} (hs : s.Live loadsText)
    (hbalanced : s.balanced = true) (lastTurn : Nat) {st : AgentState}
    (h : Machine.Reach (AgentState.step l) (AgentState.Unbroken l) { session := s, lastTurn } st) : st.Answered := by
  have hstart : AgentState.Inv { session := s, lastTurn } := ⟨hs.tidy, hbalanced, nofun⟩
  exact (h.invariant hstart (fun _ _ _ hinv hok hstep => hinv.step hothers hok hstep)).answered

namespace OneTool

/-- The reply with the call ends at its token ceiling. -/
def ceilingTurn : Nat → StepWorld := fun _ => asks "max-tokens"

/-- The agent on a new session, after a turn. -/
def afterTurn (world : Nat → StepWorld) : AgentState :=
  { session := (loop.runTurn 1 go world session).2
    lastTurn := 1
    turnAt := some 0 }

end OneTool

open OneTool in
theorem turns_answered_tool :
    (afterTurn toolTurn).session.events.flatMap SessionEvent.callIds = ["c1"] ∧ (afterTurn toolTurn).Answered := by
  have hunbroken : loop.Unbroken session toolTurn := by
    intro step _ _ _ _ _ hcut
    have hstop : (replies "a2" (.text "done") "stop").assembler.finishKind ≠ some "max-tokens" := by decide
    have hask : (asks "tool-calls").assembler.finishKind ≠ some "max-tokens" := by decide
    have hcases : toolTurn step = asks "tool-calls" ∨ toolTurn step = replies "a2" (.text "done") "stop" := by
      unfold toolTurn
      split
      · exact Or.inl rfl
      · exact Or.inr rfl
    rcases hcases with heq | heq
    · rw [heq] at hcut
      rcases hcut.broken with hmax | hgathered
      · exact hask hmax
      · exact hgathered rfl
    · rw [heq] at hcut
      rcases hcut.broken with hmax | hgathered
      · exact hstop hmax
      · exact hgathered rfl
  exact ⟨by decide +kernel, turns_answered loop_quiet session_live (by decide) 0
    (.next (.turn go toolTurn) .start hunbroken rfl)⟩

open OneTool in
/-- A reply that calls a tool and ends at its token ceiling: the call is on the surface at the end of the turn, and nothing
answers it. -/
theorem cut_off_unanswered :
    session.balanced = true ∧
    Machine.Reach (AgentState.step loop) Machine.anyStep { session, lastTurn := 0 } (afterTurn ceilingTurn) ∧
    (afterTurn ceilingTurn).session.events.flatMap SessionEvent.callIds = ["c1"] ∧
    (afterTurn ceilingTurn).session.events.all (fun e => !e.answers "c1") = true ∧
    ¬(afterTurn ceilingTurn).Answered := by
  refine ⟨by decide, .next (.turn go ceilingTurn) .start trivial rfl, by decide +kernel, by decide +kernel, fun h => ?_⟩
  have hbalanced : (afterTurn ceilingTurn).session.balanced = false := by decide +kernel
  rw [(h 0 rfl).balanced] at hbalanced
  cases hbalanced

end Pydsh
