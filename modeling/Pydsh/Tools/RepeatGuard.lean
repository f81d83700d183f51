import Mathlib.Data.List.Sort
import Pydsh.Lib.Dict
import Pydsh.Lib.Machine
import Pydsh.Lib.Result
import Pydsh.Message.Blocks
import Pydsh.Python.Fnmatch
import Pydsh.Python.SortKeys

/-!
# The repeat guard

`RepeatToolGuard` of `tools/guards.py`. For each agent, by the `id` of its object, the guard holds the last call that it watched and how
often it came in a row; a message that the agent claims ends the row. The guard does not look at who the message is from, so its own
reminders end the rows that they are about; it hears nothing of calls that it does not watch; and nothing is forgotten of an agent that
is gone, whose `id` another one may get. Without these the guard counts what it says it counts (`honest_iff`).
-/

namespace Pydsh

/-! ## Thresholds -/

/-- The counts at which the model is reminded. -/
structure Thresholds where
  values : List Nat
  ne_nil : values ≠ []
  two_le : ∀ n ∈ values, 2 ≤ n
  ascending : values.Pairwise (· < ·)

/-- `DEFAULT_THRESHOLDS`. -/
def defaultThresholds : Thresholds := ⟨[3, 5, 8], by decide, by decide, by decide⟩

/-- A threshold that is configured. -/
def readThreshold (repr : PyValue → String) : PyValue → Except String Nat
  | .int i =>
    if i < 2 then .error s!"repeat-tool guard: threshold {i} is below 2 — a single call cannot be a repetition" else .ok i.toNat
  | value => .error ("repeat-tool guard: threshold " ++ repr value ++ " is not an integer")

theorem readThreshold_le {repr : PyValue → String} {value : PyValue} {n : Nat} (h : readThreshold repr value = .ok n) : 2 ≤ n := by
  unfold readThreshold at h
  split at h
  · split at h
    · cases h
    · cases h
      omega
  · cases h

/-- `resolve_thresholds`. -/
def resolveThresholds (repr : PyValue → String) (raw : Option (List PyValue)) : Except String Thresholds :=
  let values := raw.getD (defaultThresholds.values.map (fun n => .int n))
  match hcounts : values.mapM (readThreshold repr) with
  | .error message => .error message
  | .ok counts =>
    if hempty : counts = [] then .error "repeat-tool guard: thresholds must not be empty"
    else if hnodup : counts.Nodup then
      .ok {
        values := counts.mergeSort
        ne_nil := by
          intro hnil
          exact hempty (List.length_eq_zero_iff.mp (by rw [← List.length_mergeSort, hnil, List.length_nil]))
        two_le := by
          intro n hn
          obtain ⟨value, -, hread⟩ := Except.mem_of_mapM_eq_ok hcounts (List.mem_mergeSort.mp hn)
          exact readThreshold_le hread
        ascending := by
          have hsorted : counts.mergeSort.Pairwise (· ≤ ·) := List.pairwise_mergeSort' (· ≤ ·) counts
          have hdistinct : counts.mergeSort.Nodup := (List.mergeSort_perm counts _).nodup_iff.mpr hnodup
          exact (hsorted.and hdistinct).imp (fun h => Nat.lt_of_le_of_ne h.1 h.2) }
    else .error ("repeat-tool guard: thresholds " ++ repr (.tuple values) ++ " contain a duplicate")

/-! ## Reminders -/

/-- `GENTLE_REMINDER`. -/
def gentleReminder : String :=
  "You are repeating the same tool call with identical arguments. Read the previous result carefully before calling again: if the " ++
    "task is not done, try a different approach or different arguments rather than repeating."

/-- `detailed_reminder`. -/
def detailedReminder (tool : String) (count : Nat) (arguments : String) : String :=
  "Repeated tool call detected:\n" ++ s!"- tool: {tool}\n" ++ s!"- consecutive calls: {count}\n" ++ s!"- arguments: {arguments}\n" ++
    "These calls are not making progress. Do not call this tool with these arguments again — inspect the last result and choose a " ++
    "different action, different arguments, or finish."

/-- What a reminder is made of. -/
structure Reminder where
  tool : String
  count : Nat
  arguments : PyValue
  gentle : Bool

/-- The text of a reminder, for the text of a document. -/
def Reminder.text (r : Reminder) (dumps : PyValue → String) : String :=
  if r.gentle then gentleReminder else detailedReminder r.tool r.count (dumps r.arguments)

/-- The message that is delivered. -/
def Reminder.message (r : Reminder) (dumps : PyValue → String) (id : String) : Message :=
  createUserMessage id [.text (r.text dumps)] { kind := "plugin", plugin := "repeat-tool-guard", form := "notice" }

/-! ## The guard -/

/-- A tool call that has finished, whatever came of it. -/
structure WatchedCall where
  name : String
  arguments : Parsed

/-- `canonical_arguments`. The arguments of a call are parsed, and so `json.dumps` takes them. -/
def canonicalArguments (arguments : Parsed) : PyValue := arguments.value.sortKeys

/-- What calls are compared by. -/
structure CallKey where
  name : String
  arguments : PyValue

def WatchedCall.key (call : WatchedCall) : CallKey := ⟨call.name, canonicalArguments call.arguments⟩

/-- `key == key`. -/
def CallKey.same (k l : CallKey) : Bool := k.name == l.name && k.arguments.sameText l.arguments

/-- A value of `_streaks`. -/
structure Streak where
  key : CallKey
  count : Nat
  pos : 0 < count

/-- An agent: the object, and its `id`, which no other object has at the same time. -/
structure AgentRef where
  serial : Nat
  address : Nat
  deriving DecidableEq

/-- The guard's configuration. -/
structure RepeatToolGuard where
  thresholds : Thresholds
  included : Option (List String)
  excluded : Option (List String)

/-- `_matches`. -/
def matchesAny (name : String) (patterns : Option (List String)) : Bool := (patterns.getD []).any (fnmatch name)

namespace RepeatToolGuard

/-- `_watched`. -/
def watched (g : RepeatToolGuard) (name : String) : Bool :=
  if g.included.isSome && !matchesAny name g.included then false else !matchesAny name g.excluded

/-- `_reset`. Neither the message nor its turn is looked at. -/
def reset (streaks : Dict Nat Streak) (agent : AgentRef) (_message : Message) : Dict Nat Streak := streaks.pop agent.address

/-- `_remind`. -/
def remind (g : RepeatToolGuard) (tool : String) (count : Nat) (arguments : PyValue) : Reminder :=
  ⟨tool, count, arguments, count = g.thresholds.values.head g.thresholds.ne_nil⟩

/-- The streak that a call continues or begins. -/
def advance (streaks : Dict Nat Streak) (agent : AgentRef) (key : CallKey) : Streak :=
  match streaks.get? agent.address with
  | none => ⟨key, 1, Nat.one_pos⟩
  | some streak => if streak.key.same key then ⟨streak.key, streak.count + 1, Nat.succ_pos _⟩ else ⟨key, 1, Nat.one_pos⟩

/-- `_observe`, with the reminder that the agent is sent. -/
def observe (g : RepeatToolGuard) (streaks : Dict Nat Streak) (caller : Option AgentRef) (call : WatchedCall) :
    Dict Nat Streak × Option (AgentRef × Reminder) :=
  if !g.watched call.name then (streaks, none)
  else
    match caller with
    | none => (streaks, none)
    | some agent =>
      let streak := advance streaks agent call.key
      (streaks.set agent.address streak,
        if streak.count ∈ g.thresholds.values then some (agent, g.remind call.name streak.count call.key.arguments) else none)

end RepeatToolGuard

/-! ## Runs -/

/-- What happens: an agent is created; it claims a message; a call of an agent's or of no agent's finishes; a call is answered without
reaching the tools, because its arguments are no JSON object or there are no tools; an agent that was disposed of is gone. -/
inductive AgentEvent where
  | created (agent : AgentRef)
  | claimed (agent : AgentRef) (message : Message)
  | completed (caller : Option AgentRef) (call : WatchedCall)
  | turnedAway (agent : AgentRef)
  | freed (agent : AgentRef)

/-- The guard and the agents, with all that has happened and all reminders that were sent, the latest first. -/
structure GuardRun where
  streaks : Dict Nat Streak
  live : List AgentRef
  serial : Nat
  past : List AgentEvent
  sent : List (AgentRef × Reminder)

def GuardRun.start : GuardRun := ⟨.empty, [], 0, [], []⟩

/-- The streak that the guard holds for an agent. -/
def GuardRun.held (s : GuardRun) (agent : AgentRef) : Nat := ((s.streaks.get? agent.address).map Streak.count).getD 0

namespace RepeatToolGuard

/-- A call finishes. -/
def complete (g : RepeatToolGuard) (s : GuardRun) (caller : Option AgentRef) (call : WatchedCall) : GuardRun :=
  let (streaks, reminder) := g.observe s.streaks caller call
  { s with streaks, past := .completed caller call :: s.past, sent := reminder.toList ++ s.sent }

/-- One event. A new agent has an `id` that no other agent has. -/
def step (g : RepeatToolGuard) (s : GuardRun) (event : AgentEvent) : Option GuardRun :=
  match event with
  | .created agent =>
    if agent.serial = s.serial ∧ ∀ other ∈ s.live, other.address ≠ agent.address then
      some { s with live := agent :: s.live, serial := s.serial + 1, past := event :: s.past }
    else none
  | .claimed agent message =>
    if agent ∈ s.live then some { s with streaks := reset s.streaks agent message, past := event :: s.past } else none
  | .completed caller call => if ∀ agent ∈ caller, agent ∈ s.live then some (g.complete s caller call) else none
  | .turnedAway agent => if agent ∈ s.live then some { s with past := event :: s.past } else none
  | .freed agent => if agent ∈ s.live then some { s with live := s.live.erase agent, past := event :: s.past } else none

end RepeatToolGuard

/-! ## What is to be counted -/

/-- The same tool, with arguments that differ in the order of keys at most. -/
def WatchedCall.Identical (c d : WatchedCall) : Prop := c.name = d.name ∧ Reordered c.arguments.value d.arguments.value

theorem WatchedCall.same_key_iff {c d : WatchedCall} : c.key.same d.key = true ↔ c.Identical d := by
  rw [CallKey.same, Bool.and_eq_true, beq_iff_eq]
  exact and_congr_right (fun _ => sameText_sortKeys_iff c.arguments d.arguments)

instance (c d : WatchedCall) : Decidable (c.Identical d) := decidable_of_iff _ WatchedCall.same_key_iff

/-- How many of the calls, the latest first, are identical to the latest up to the first that is not; a call that the guard is not to
watch stands as `none`, and is identical to no other. -/
def consecutive : List (Option WatchedCall) → Nat
  | some call :: earlier => (earlier.takeWhile (fun other => other.any (fun other => other.Identical call))).length + 1
  | _ => 0

namespace AgentEvent

/-- Whether an agent's calls are counted from here on: it is created, or claims a message of the user's. -/
def opens (agent : AgentRef) : AgentEvent → Bool
  | .created other => other = agent
  | .claimed other message => other = agent && message.source.kind == "user"
  | _ => false

end AgentEvent

namespace RepeatToolGuard

/-- The call of an agent's that an event is. -/
def callOf (g : RepeatToolGuard) (agent : AgentRef) : AgentEvent → Option (Option WatchedCall)
  | .completed (some caller) call => if caller = agent then some (if g.watched call.name then some call else none) else none
  | .turnedAway caller => if caller = agent then some none else none
  | _ => none

/-- The calls of an agent since the last message of the user's that it claimed. -/
def callsSince (g : RepeatToolGuard) (agent : AgentRef) (past : List AgentEvent) : List (Option WatchedCall) :=
  (past.takeWhile (fun event => !event.opens agent)).filterMap (g.callOf agent)

/-- The streak of an agent, by all that has happened. -/
def streakOf (g : RepeatToolGuard) (agent : AgentRef) (past : List AgentEvent) : Nat := consecutive (g.callsSince agent past)

/-- The reminder that is due at an event. -/
def dueAt (g : RepeatToolGuard) (past : List AgentEvent) : AgentEvent → Option (AgentRef × Reminder)
  | .completed (some caller) call =>
    let count := g.streakOf caller (.completed (some caller) call :: past)
    if count ∈ g.thresholds.values then some (caller, g.remind call.name count call.key.arguments) else none
  | _ => none

/-- The reminders that are due, the latest first. -/
def due (g : RepeatToolGuard) : List AgentEvent → List (AgentRef × Reminder)
  | [] => []
  | event :: past => (g.dueAt past event).toList ++ g.due past

/-- The guard holds for each agent the streak that it has, and has sent the reminders that were due. -/
structure Honest (g : RepeatToolGuard) (s : GuardRun) : Prop where
  held : ∀ agent ∈ s.live, s.held agent = g.streakOf agent s.past
  sent : s.sent = g.due s.past

/-- A step at which the guard can tell what happens: a new agent's `id` holds no streak; a message that is not the user's, a call that is
not watched and one that does not reach the tools come where no streak is held. -/
def Fit (g : RepeatToolGuard) (s : GuardRun) : AgentEvent → Prop
  | .created agent => s.streaks.get? agent.address = none
  | .claimed agent message => message.source.kind = "user" ∨ s.streaks.get? agent.address = none
  | .completed (some agent) call => g.watched call.name = true ∨ s.streaks.get? agent.address = none
  | .turnedAway agent => s.streaks.get? agent.address = none
  | _ => True

end RepeatToolGuard

/-! ## Counting -/

theorem WatchedCall.identical_iff {c d : WatchedCall} : c.Identical d ↔ c.key = d.key := by
  rw [← WatchedCall.same_key_iff, CallKey.same, Bool.and_eq_true, beq_iff_eq, CallKey.mk.injEq]
  exact and_congr_right (fun _ => c.arguments.plain.sortKeys.sameText_iff _)

/-- What the guard is to hold for an agent with such calls. -/
def mark : List (Option WatchedCall) → Option Streak
  | some call :: earlier => some ⟨call.key, consecutive (some call :: earlier), Nat.succ_pos _⟩
  | _ => none

theorem count_mark (calls : List (Option WatchedCall)) : ((mark calls).map Streak.count).getD 0 = consecutive calls := by
  unfold mark
  split
  · rfl
  · rename_i hnone
    unfold consecutive
    split
    · rename_i call earlier
      exact absurd rfl (hnone call earlier)
    · rfl

/-- A call identical to the last one makes the row longer by one. -/
theorem consecutive_identical {c d : WatchedCall} (h : d.Identical c) (earlier : List (Option WatchedCall)) :
    consecutive (some c :: some d :: earlier) = consecutive (some d :: earlier) + 1 := by
  have hsame : (fun other : Option WatchedCall => other.any (fun other => other.Identical c)) =
      fun other => other.any (fun other => other.Identical d) := by
    funext other
    cases other with
    | none => rfl
    | some other =>
      rw [Option.any_some, Option.any_some, decide_eq_decide, WatchedCall.identical_iff, WatchedCall.identical_iff,
        WatchedCall.identical_iff.mp h]
  rw [consecutive, consecutive, List.takeWhile_cons_of_pos (by simpa using h), List.length_cons, hsame]

theorem consecutive_other {c : WatchedCall} {calls : List (Option WatchedCall)}
    (h : ∀ d earlier, calls = some d :: earlier → ¬d.Identical c) : consecutive (some c :: calls) = 1 := by
  rw [consecutive]
  cases calls with
  | nil => rfl
  | cons call earlier =>
    cases call with
    | none => rfl
    | some d => rw [List.takeWhile_cons_of_neg (by simpa using h d earlier rfl), List.length_nil]

namespace RepeatToolGuard

theorem advance_eq {streaks : Dict Nat Streak} {agent : AgentRef} {calls : List (Option WatchedCall)}
    (h : streaks.get? agent.address = mark calls) (call : WatchedCall) :
    some (advance streaks agent call.key) = mark (some call :: calls) := by
  unfold advance
  rw [h]
  cases calls with
  | nil => rfl
  | cons last earlier =>
    cases last with
    | none => rfl
    | some last =>
      dsimp only [mark]
      split
      · rename_i hsame
        have hidentical := WatchedCall.same_key_iff.mp hsame
        simp only [WatchedCall.identical_iff.mp hidentical, consecutive_identical hidentical]
      · rename_i hother
        rw [WatchedCall.same_key_iff] at hother
        have hone : consecutive (some call :: some last :: earlier) = 1 := by
          refine consecutive_other ?_
          intro d rest heq
          cases heq
          exact hother
        simp only [hone]

theorem callsSince_cons (g : RepeatToolGuard) (agent : AgentRef) (event : AgentEvent) (past : List AgentEvent) :
    g.callsSince agent (event :: past) =
      if event.opens agent then [] else (g.callOf agent event).toList ++ g.callsSince agent past := by
  unfold callsSince
  cases hopens : event.opens agent with
  | true => simp [hopens]
  | false =>
    rw [List.takeWhile_cons_of_pos (by simp [hopens]), List.filterMap_cons]
    cases g.callOf agent event <;> rfl

theorem callsSince_other {g : RepeatToolGuard} {agent : AgentRef} {event : AgentEvent} (hopens : event.opens agent = false)
    (hcall : g.callOf agent event = none) (past : List AgentEvent) : g.callsSince agent (event :: past) = g.callsSince agent past := by
  rw [callsSince_cons, hopens, hcall]
  rfl

/-- A step leaves the calls of the agents that it is not about. -/
theorem callsSince_ne {g : RepeatToolGuard} {agent other : AgentRef} (h : other ≠ agent) (past : List AgentEvent) :
    g.callsSince agent (.created other :: past) = g.callsSince agent past ∧
      (∀ message, g.callsSince agent (.claimed other message :: past) = g.callsSince agent past) ∧
      (∀ call, g.callsSince agent (.completed (some other) call :: past) = g.callsSince agent past) ∧
      g.callsSince agent (.turnedAway other :: past) = g.callsSince agent past := by
  refine ⟨?_, ?_, ?_, ?_⟩
  · exact callsSince_other (by simp [AgentEvent.opens, h]) rfl past
  · exact fun message => callsSince_other (by simp [AgentEvent.opens, h]) rfl past
  · exact fun call => callsSince_other rfl (by simp [callOf, h]) past
  · exact callsSince_other rfl (by simp [callOf, h]) past

/-- What the guard and the agents are like where every step was fit. -/
structure Tracked (g : RepeatToolGuard) (s : GuardRun) : Prop where
  marked : ∀ agent ∈ s.live, s.streaks.get? agent.address = mark (g.callsSince agent s.past)
  apart : ∀ agent ∈ s.live, ∀ other ∈ s.live, agent.address = other.address → agent = other
  sent : s.sent = g.due s.past

theorem Tracked.honest {g : RepeatToolGuard} {s : GuardRun} (h : g.Tracked s) : g.Honest s := by
  refine ⟨?_, h.sent⟩
  intro agent hagent
  rw [GuardRun.held, h.marked agent hagent, count_mark, streakOf]

theorem tracked_start (g : RepeatToolGuard) : g.Tracked .start :=
  ⟨fun _ hagent => (by cases hagent), fun _ hagent => (by cases hagent), rfl⟩

/-- An `id` at which nothing is counted holds no streak. -/
theorem get?_eq_none_of_held {s : GuardRun} {agent : AgentRef} (h : s.held agent = 0) : s.streaks.get? agent.address = none := by
  unfold GuardRun.held at h
  cases hget : s.streaks.get? agent.address with
  | none => rfl
  | some streak =>
    rw [hget] at h
    exact absurd h streak.pos.ne'

theorem held_of_reset {s : GuardRun} {streaks : Dict Nat Streak} {agent : AgentRef} {message : Message}
    (h : s.streaks = reset streaks agent message) : s.held agent = 0 := by
  have hnone : (reset streaks agent message).get? agent.address = none := Dict.get?_pop_self _ _
  rw [GuardRun.held, h, hnone]
  rfl

theorem callsSince_created (g : RepeatToolGuard) (agent : AgentRef) (past : List AgentEvent) :
    g.callsSince agent (.created agent :: past) = [] := by
  rw [callsSince_cons, if_pos (by simp [AgentEvent.opens])]

theorem callsSince_claimed (g : RepeatToolGuard) (agent : AgentRef) (message : Message) (past : List AgentEvent) :
    g.callsSince agent (.claimed agent message :: past) = if message.source.kind = "user" then [] else g.callsSince agent past := by
  rw [callsSince_cons]
  by_cases huser : message.source.kind = "user" <;> simp [AgentEvent.opens, callOf, huser]

theorem callsSince_completed (g : RepeatToolGuard) (agent : AgentRef) (call : WatchedCall) (past : List AgentEvent) :
    g.callsSince agent (.completed (some agent) call :: past) =
      (if g.watched call.name then some call else none) :: g.callsSince agent past := by
  rw [callsSince_cons, if_neg (by simp [AgentEvent.opens])]
  simp [callOf]

theorem callsSince_turnedAway (g : RepeatToolGuard) (agent : AgentRef) (past : List AgentEvent) :
    g.callsSince agent (.turnedAway agent :: past) = none :: g.callsSince agent past := by
  rw [callsSince_cons, if_neg (by simp [AgentEvent.opens])]
  simp [callOf]

/-- A call that the guard hears nothing of, or that no agent made. -/
theorem complete_unheard {g : RepeatToolGuard} {caller : Option AgentRef} {call : WatchedCall}
    (h : g.watched call.name = false ∨ caller = none) (s : GuardRun) :
    g.complete s caller call = { s with past := .completed caller call :: s.past } := by
  rcases h with hwatched | rfl
  · simp [complete, observe, hwatched]
  · simp [complete, observe]

theorem complete_heard {g : RepeatToolGuard} {agent : AgentRef} {call : WatchedCall} (h : g.watched call.name = true) (s : GuardRun) :
    g.complete s (some agent) call =
      { s with
        streaks := s.streaks.set agent.address (advance s.streaks agent call.key)
        past := .completed (some agent) call :: s.past
        sent := (if (advance s.streaks agent call.key).count ∈ g.thresholds.values then
          some (agent, g.remind call.name (advance s.streaks agent call.key).count call.key.arguments) else none).toList ++ s.sent } := by
  simp [complete, observe, h]

theorem Tracked.unheard {g : RepeatToolGuard} {s : GuardRun} (h : g.Tracked s) {event : AgentEvent}
    (hmark : ∀ agent ∈ s.live, mark (g.callsSince agent (event :: s.past)) = mark (g.callsSince agent s.past))
    (hdue : g.dueAt s.past event = none) : g.Tracked { s with past := event :: s.past } := by
  refine ⟨?_, h.apart, ?_⟩
  · intro agent hagent
    rw [hmark agent hagent]
    exact h.marked agent hagent
  · rw [due, hdue]
    exact h.sent

theorem Tracked.broken {g : RepeatToolGuard} {s : GuardRun} (h : g.Tracked s) {agent : AgentRef} {event : AgentEvent}
    (hnone : s.streaks.get? agent.address = none) (hself : g.callsSince agent (event :: s.past) = none :: g.callsSince agent s.past)
    (hother : ∀ other, agent ≠ other → g.callsSince other (event :: s.past) = g.callsSince other s.past)
    (hdue : g.dueAt s.past event = none) : g.Tracked { s with past := event :: s.past } := by
  refine h.unheard ?_ hdue
  intro other hlive
  by_cases heq : agent = other
  · subst heq
    rw [hself, ← h.marked agent hlive, hnone]
    rfl
  · rw [hother other heq]

theorem dueAt_unwatched {g : RepeatToolGuard} {call : WatchedCall} (h : g.watched call.name = false) (agent : AgentRef)
    (past : List AgentEvent) : g.dueAt past (.completed (some agent) call) = none := by
  have hzero : g.streakOf agent (.completed (some agent) call :: past) = 0 := by
    rw [streakOf, callsSince_completed, h]
    rfl
  rw [dueAt, hzero]
  exact if_neg (fun hmem => absurd (g.thresholds.two_le 0 hmem) (by decide))

theorem Tracked.heard {g : RepeatToolGuard} {s : GuardRun} (h : g.Tracked s) {agent : AgentRef} (hlive : agent ∈ s.live)
    {call : WatchedCall} (hwatched : g.watched call.name = true) : g.Tracked (g.complete s (some agent) call) := by
  have hself : g.callsSince agent (.completed (some agent) call :: s.past) = some call :: g.callsSince agent s.past := by
    rw [callsSince_completed, hwatched]
    rfl
  have hadvance : some (advance s.streaks agent call.key) = mark (some call :: g.callsSince agent s.past) :=
    advance_eq (h.marked agent hlive) call
  rw [complete_heard hwatched]
  refine ⟨?_, h.apart, ?_⟩
  · intro other hother
    by_cases heq : agent = other
    · subst heq
      rw [hself, ← hadvance]
      exact Dict.get?_set_self _ _ _
    · rw [(callsSince_ne heq s.past).2.2.1 call, ← h.marked other hother]
      exact Dict.get?_set_of_ne _ _ (fun haddress => heq (h.apart other hother agent hlive haddress).symm)
  · have hcount : (advance s.streaks agent call.key).count = g.streakOf agent (.completed (some agent) call :: s.past) := by
      rw [streakOf, hself, ← count_mark, ← hadvance]
      rfl
    rw [due, dueAt, hcount, h.sent]

theorem Tracked.claimed {g : RepeatToolGuard} {s : GuardRun} (h : g.Tracked s) {agent : AgentRef} (hlive : agent ∈ s.live)
    {message : Message} (hfit : message.source.kind = "user" ∨ s.streaks.get? agent.address = none) :
    g.Tracked { s with streaks := reset s.streaks agent message, past := .claimed agent message :: s.past } := by
  refine ⟨?_, h.apart, h.sent⟩
  intro other hother
  by_cases heq : agent = other
  · subst heq
    have hreset : (reset s.streaks agent message).get? agent.address = none := Dict.get?_pop_self _ _
    refine hreset.trans ?_
    rw [callsSince_claimed]
    split
    · rfl
    · rename_i huser
      rw [← h.marked agent hlive, hfit.resolve_left huser]
  · rw [(callsSince_ne heq s.past).2.1 message, ← h.marked other hother]
    exact Dict.get?_pop_of_ne _ (fun haddress => heq (h.apart other hother agent hlive haddress).symm)

theorem Tracked.created {g : RepeatToolGuard} {s : GuardRun} (h : g.Tracked s) {agent : AgentRef}
    (hfresh : ∀ other ∈ s.live, other.address ≠ agent.address) (hnone : s.streaks.get? agent.address = none) :
    g.Tracked { s with live := agent :: s.live, serial := s.serial + 1, past := .created agent :: s.past } := by
  refine ⟨?_, ?_, h.sent⟩
  · intro other hother
    rcases List.mem_cons.mp hother with rfl | hother
    · rw [callsSince_created]
      exact hnone
    · have heq : agent ≠ other := fun heq => hfresh other hother (congrArg AgentRef.address heq.symm)
      rw [(callsSince_ne heq s.past).1]
      exact h.marked other hother
  · intro one hone other hother haddress
    rcases List.mem_cons.mp hone with rfl | hone'
    · rcases List.mem_cons.mp hother with rfl | hother'
      · rfl
      · exact absurd haddress.symm (hfresh other hother')
    · rcases List.mem_cons.mp hother with rfl | hother'
      · exact absurd haddress (hfresh one hone')
      · exact h.apart one hone' other hother' haddress

theorem Tracked.step {g : RepeatToolGuard} {s s' : GuardRun} {event : AgentEvent} (h : g.Tracked s)
    (hstep : g.step s event = some s') (hfit : g.Fit s event) : g.Tracked s' := by
  cases event with
  | created agent =>
    obtain ⟨⟨-, hfresh⟩, heq⟩ := Option.ite_none_right_eq_some.mp hstep
    cases heq
    exact h.created hfresh hfit
  | claimed agent message =>
    obtain ⟨hlive, heq⟩ := Option.ite_none_right_eq_some.mp hstep
    cases heq
    exact h.claimed hlive hfit
  | completed caller call =>
    obtain ⟨hlive, heq⟩ := Option.ite_none_right_eq_some.mp hstep
    cases heq
    cases caller with
    | none =>
      rw [complete_unheard (Or.inr rfl)]
      exact h.unheard (fun agent _ => by rw [callsSince_other rfl rfl]) rfl
    | some agent =>
      cases hwatched : g.watched call.name with
      | true => exact h.heard (hlive agent rfl) hwatched
      | false =>
        have hnone : s.streaks.get? agent.address = none := hfit.resolve_left (by simp [hwatched])
        rw [complete_unheard (Or.inl hwatched)]
        refine h.broken hnone ?_ (fun other hne => (callsSince_ne hne s.past).2.2.1 call) (dueAt_unwatched hwatched agent s.past)
        rw [callsSince_completed, hwatched]
        rfl
  | turnedAway agent =>
    obtain ⟨hlive, heq⟩ := Option.ite_none_right_eq_some.mp hstep
    cases heq
    exact h.broken hfit (callsSince_turnedAway g agent s.past) (fun other hne => (callsSince_ne hne s.past).2.2.2) rfl
  | freed agent =>
    obtain ⟨hlive, heq⟩ := Option.ite_none_right_eq_some.mp hstep
    cases heq
    refine ⟨?_, ?_, h.sent⟩
    · intro other hother
      rw [callsSince_other rfl rfl]
      exact h.marked other (List.mem_of_mem_erase hother)
    · exact fun one hone other hother => h.apart one (List.mem_of_mem_erase hone) other (List.mem_of_mem_erase hother)

/-- A step after which the guard holds what it is to hold was fit. -/
theorem Tracked.fit {g : RepeatToolGuard} {s s' : GuardRun} {event : AgentEvent} (h : g.Tracked s)
    (hstep : g.step s event = some s') (hhonest : g.Honest s') : g.Fit s event := by
  cases event with
  | created agent =>
    obtain ⟨-, heq⟩ := Option.ite_none_right_eq_some.mp hstep
    cases heq
    have hheld := hhonest.held agent List.mem_cons_self
    rw [streakOf, callsSince_created] at hheld
    exact @get?_eq_none_of_held s agent hheld
  | claimed agent message =>
    obtain ⟨hlive, heq⟩ := Option.ite_none_right_eq_some.mp hstep
    cases heq
    by_cases huser : message.source.kind = "user"
    · exact Or.inl huser
    · refine Or.inr (get?_eq_none_of_held ?_)
      have hafter := hhonest.held agent hlive
      rw [streakOf, callsSince_claimed, if_neg huser, @held_of_reset _ _ _ message rfl] at hafter
      rw [h.honest.held agent hlive, streakOf, ← hafter]
  | completed caller call =>
    obtain ⟨hlive, heq⟩ := Option.ite_none_right_eq_some.mp hstep
    cases heq
    cases caller with
    | none => trivial
    | some agent =>
      cases hwatched : g.watched call.name with
      | true => exact Or.inl hwatched
      | false =>
        rw [complete_unheard (Or.inl hwatched)] at hhonest
        have hheld := hhonest.held agent (hlive agent rfl)
        rw [streakOf, callsSince_completed, hwatched] at hheld
        exact Or.inr (@get?_eq_none_of_held s agent hheld)
  | turnedAway agent =>
    obtain ⟨hlive, heq⟩ := Option.ite_none_right_eq_some.mp hstep
    cases heq
    have hheld := hhonest.held agent hlive
    rw [streakOf, callsSince_turnedAway] at hheld
    exact @get?_eq_none_of_held s agent hheld
  | freed agent => trivial

/-- In every run the guard holds and sends what it is to in all states exactly if every step is fit. -/
theorem honest_iff (g : RepeatToolGuard) {events : List AgentEvent} {s : GuardRun}
    (hrun : Machine.exec g.step .start events = some s) :
    Machine.Always g.step g.Honest .start events ↔ Machine.Meets g.step g.Fit .start events :=
  Machine.always_iff_meets (fun _ h => h.honest) (fun _ _ _ h hstep hfit => h.step hstep hfit)
    (fun _ _ _ h hstep hhonest => h.fit hstep hhonest) g.tracked_start hrun

/-- A guard with no configuration. -/
def unconfigured : RepeatToolGuard := ⟨defaultThresholds, none, none⟩

/-- `bash` with no arguments. -/
def bashCall : WatchedCall := ⟨"bash", ⟨.dict [], rfl⟩⟩

def firstAgent : AgentRef := ⟨0, 7⟩

/-- The third of three calls in a row is done. -/
def threeCalls : List AgentEvent := .created firstAgent :: List.replicate 3 (.completed (some firstAgent) bashCall)

theorem honest_iff_three : Machine.Always unconfigured.step unconfigured.Honest .start threeCalls :=
  (honest_iff unconfigured rfl).mpr ⟨rfl, Or.inl rfl, Or.inl rfl, Or.inl rfl, trivial⟩

/-- The reminder that is sent at the third call. -/
def firstReminder : Message :=
  (unconfigured.remind bashCall.name 3 bashCall.key.arguments).message (fun _ => "\x7b\x7d") "m1"

/-- The agent claims the reminder, and the guard forgets the calls that it is about. -/
theorem not_honest_reminded :
    ∃ s, Machine.exec unconfigured.step .start (threeCalls ++ [.claimed firstAgent firstReminder]) = some s ∧ s.held firstAgent = 0 ∧
      unconfigured.streakOf firstAgent s.past = 3 ∧
      ¬Machine.Always unconfigured.step unconfigured.Honest .start (threeCalls ++ [.claimed firstAgent firstReminder]) := by
  have hstreak : unconfigured.streakOf firstAgent (.claimed firstAgent firstReminder :: threeCalls.reverse) = 3 := by
    have hself : bashCall.Identical bashCall := WatchedCall.identical_iff.mpr rfl
    change consecutive [some bashCall, some bashCall, some bashCall] = 3
    rw [consecutive_identical hself, consecutive_identical hself]
    rfl
  have hheld : ∀ s, Machine.exec unconfigured.step .start (threeCalls ++ [.claimed firstAgent firstReminder]) = some s →
      s.held firstAgent = 0 := by
    intro s hrun
    cases hrun
    exact @held_of_reset _ _ _ firstReminder rfl
  refine ⟨_, rfl, hheld _ rfl, hstreak, ?_⟩
  intro halways
  have hsame := (halways.final rfl).held firstAgent List.mem_cons_self
  have hzero : (0 : Nat) = 3 := (hheld _ rfl).symm.trans (hsame.trans hstreak)
  exact absurd hzero (by decide)

end RepeatToolGuard

end Pydsh
