import Pydsh.Agent.TurnLog
import Pydsh.Lib.Machine

/-!
# Turn and step brackets

An agent over a session, whatever the log it starts from: it reads the number of the last turn from the log once and counts on from
there. The turns it takes are whole, one after another, each with its steps numbered from 1 up to its ceiling at most, in every
run where the gate takes the reasons its turns end with (`brackets_kept`). A turn that ends with a reason the gate refuses is
left open, and the next one starts inside it (`turn_left_open`).
-/

namespace Pydsh

/-! ## Brackets of a log -/

/-- The bracket events of a session's log. -/
def Session.brackets (s : Session) : List LogEntry := owned EventType.isBracket (s.events.map SessionEvent.entry)

/-- The bracket events of a turn. -/
def TurnRecord.brackets (t : TurnRecord) : List LogEntry := owned EventType.isBracket t.entries

/-- The turns are numbered one after another, from the number after `n` on. -/
def Consecutive : Nat → List TurnRecord → Prop
  | _, [] => True
  | n, t :: turns => t.turn = n + 1 ∧ Consecutive (n + 1) turns

/-- The bracket events are those of whole turns, numbered one after another. -/
def WellBracketed (entries : List LogEntry) : Prop :=
  ∃ n turns, Consecutive n turns ∧ entries = turns.flatMap TurnRecord.brackets

/-- The session grew by whole turns, numbered from the number after `n` on, none with more steps than its ceiling. -/
def Loop.AddsTurns (l : Loop) (s : Session) (n : Nat) (s' : Session) : Prop :=
  ∃ turns, Consecutive n turns ∧ s'.brackets = s.brackets ++ turns.flatMap TurnRecord.brackets ∧
    ∀ t ∈ turns, (t.replies.length : Int) ≤ max l.options.maxSteps 0

theorem Consecutive.append {n : Nat} {xs ys : List TurnRecord} (hx : Consecutive n xs) (hy : Consecutive (n + xs.length) ys) :
    Consecutive n (xs ++ ys) := by
  induction xs generalizing n with
  | nil => exact hy
  | cons t xs ih =>
    refine ⟨hx.1, ih hx.2 ?_⟩
    rwa [List.length_cons, Nat.add_comm xs.length 1, ← Nat.add_assoc] at hy

/-! ## The number of the last turn -/

/-- `max(last, data.get("turn", 0))`; `none` where it raises or is no int. -/
def maxTurn (last : Int) : Json → Option Int
  | .obj kvs =>
    match field? kvs "turn" with
    | none => some (max last 0)
    | some (.int turn) => some (max last turn)
    | some (.bool turn) => some (max last turn.toInt)
    | some (.float turn) => if (last : Rat) < turn then none else some last
    | some _ => none
  | _ => none

/-- The loop of `_last_turn_number`. -/
def lastTurnFrom : Int → List LogEntry → Option Int
  | last, [] => some last
  | last, (type, data) :: entries =>
    if type = .turnStart then (maxTurn last data).bind (fun last => lastTurnFrom last entries) else lastTurnFrom last entries

/-- `_last_turn_number`. -/
def Session.lastTurnNumber (s : Session) : Option Int := lastTurnFrom 0 (s.events.map SessionEvent.entry)

theorem lastTurnFrom_owned (last : Int) (entries : List LogEntry) :
    lastTurnFrom last (owned EventType.isBracket entries) = lastTurnFrom last entries := by
  induction entries generalizing last with
  | nil => rfl
  | cons entry entries ih =>
    obtain ⟨type, data⟩ := entry
    cases hbracket : type.isBracket with
    | true =>
      have howned : owned EventType.isBracket ((type, data) :: entries) = (type, data) :: owned EventType.isBracket entries := by
        simp [owned, hbracket]
      rw [howned]
      simp only [lastTurnFrom, ih]
    | false =>
      have howned : owned EventType.isBracket ((type, data) :: entries) = owned EventType.isBracket entries := by
        simp [owned, hbracket]
      have hother : type ≠ .turnStart := by
        rintro rfl
        cases hbracket
      rw [howned, ih]
      simp only [lastTurnFrom, if_neg hother]

/-- `n` is the number of the last turn the entries start; 0 where they start none. -/
structure LastTurn (entries : List LogEntry) (n : Nat) : Prop where
  started : n = 0 ∨ (.turnStart, turnData n) ∈ entries
  most : ∀ t, (.turnStart, turnData t) ∈ entries → t ≤ n

theorem turnData_injective {t t' : Nat} (h : turnData t = turnData t') : t = t' := by
  simp only [turnData, Json.obj.injEq, List.cons.injEq, Prod.mk.injEq, Json.int.injEq, Int.natCast_inj, true_and, and_true] at h
  exact h

theorem lastTurnFrom_eq (last : Nat) {entries : List LogEntry}
    (h : ∀ entry ∈ entries, entry.1 = .turnStart → ∃ t : Nat, entry.2 = turnData t) :
    ∃ n : Nat, lastTurnFrom last entries = some (n : Int) ∧ last ≤ n ∧ (n = last ∨ (.turnStart, turnData n) ∈ entries) ∧
      ∀ t, (.turnStart, turnData t) ∈ entries → t ≤ n := by
  induction entries generalizing last with
  | nil => exact ⟨last, rfl, Nat.le_refl last, Or.inl rfl, by simp⟩
  | cons entry entries ih =>
    obtain ⟨type, data⟩ := entry
    have hrest := fun entry' hentry' => h entry' (List.mem_cons_of_mem _ hentry')
    by_cases hstart : type = .turnStart
    · obtain ⟨turn, hturn⟩ := h _ List.mem_cons_self hstart
      obtain rfl : data = turnData turn := hturn
      subst hstart
      obtain ⟨n, hfound, hle, hmost, hall⟩ := ih (max last turn) hrest
      have hmax : maxTurn (last : Int) (turnData turn) = some ((max last turn : Nat) : Int) := by
        have hcast : max (last : Int) turn = (max last turn : Nat) := by omega
        exact congrArg some hcast
      refine ⟨n, by simp only [lastTurnFrom, if_true, hmax, Option.bind_some, hfound], by omega, ?_, ?_⟩
      · rcases hmost with rfl | hmem
        · rcases Nat.le_total last turn with hlt | hlt
          · exact Or.inr (by rw [Nat.max_eq_right hlt]; exact List.mem_cons_self)
          · exact Or.inl (Nat.max_eq_left hlt)
        · exact Or.inr (List.mem_cons_of_mem _ hmem)
      · intro t ht
        rcases List.mem_cons.mp ht with heq | ht
        · have hsame : t = turn := turnData_injective (congrArg Prod.snd heq)
          omega
        · exact hall t ht
    · obtain ⟨n, hfound, hle, hmost, hall⟩ := ih last hrest
      refine ⟨n, by simp only [lastTurnFrom, if_neg hstart, hfound], hle, ?_, ?_⟩
      · rcases hmost with rfl | hmem
        · exact Or.inl rfl
        · exact Or.inr (List.mem_cons_of_mem _ hmem)
      · intro t ht
        rcases List.mem_cons.mp ht with heq | ht
        · exact absurd (congrArg Prod.fst heq).symm hstart
        · exact hall t ht

/-! ## Brackets of turns -/

theorem not_turnStart_mem_steps (turn step : Nat) (replies : List (Option Json)) :
    ∀ entry ∈ stepsEntries turn step replies, entry.1 ≠ .turnStart := by
  induction replies generalizing step with
  | nil => simp [stepsEntries]
  | cons reply replies ih =>
    intro entry hentry
    rcases List.mem_append.mp hentry with hentry | hentry
    · cases reply <;> simp only [stepEntries, Option.toList, List.map_nil, List.map_cons, List.nil_append, List.cons_append,
          List.mem_cons, List.not_mem_nil, or_false] at hentry <;> rcases hentry with rfl | rfl | rfl <;> simp
    · exact ih (step + 1) entry hentry

theorem TurnRecord.turnStart_mem (t : TurnRecord) {entry : LogEntry} (h : entry ∈ t.brackets) (hstart : entry.1 = .turnStart) :
    entry.2 = turnData t.turn := by
  have hmem := List.mem_of_mem_filter h
  rcases List.mem_append.mp hmem with hmem | hmem
  · rcases List.mem_cons.mp hmem with rfl | hmem
    · rfl
    · exact absurd hstart (not_turnStart_mem_steps _ _ _ entry hmem)
  · rw [List.mem_singleton.mp hmem] at hstart
    cases hstart

/-- The last number of some turns that are numbered one after another. -/
theorem Consecutive.turn_le {n : Nat} {turns : List TurnRecord} (h : Consecutive n turns) :
    ∀ t ∈ turns, n + 1 ≤ t.turn ∧ t.turn ≤ n + turns.length := by
  induction turns generalizing n with
  | nil => simp
  | cons t turns ih =>
    intro t' ht'
    rcases List.mem_cons.mp ht' with rfl | ht'
    · have := h.1
      simp only [List.length_cons]
      omega
    · have := ih h.2 t' ht'
      simp only [List.length_cons]
      omega

/-! ## An agent -/

/-- An agent between its turns: its session and the number of its last turn. -/
structure AgentRun where
  session : Session
  lastTurn : Nat

/-- What happens: a turn, with what it claims and meets, or appends of other code between turns. -/
inductive AgentRun.Action where
  | turn (claimed : List Message) (world : Nat → StepWorld)
  | other (calls : List AppendCall)

namespace AgentRun

/-- A new agent over a session: `_last_turn_number` is read once. -/
def create (s : Session) : Option AgentRun :=
  match s.lastTurnNumber with
  | some (.ofNat n) => some ⟨s, n⟩
  | _ => none

/-- What an action does. The bracket events are the agent's own. -/
def step (l : Loop) (st : AgentRun) : Action → Option AgentRun
  | .turn claimed world => some ⟨(l.runTurn (st.lastTurn + 1) claimed world st.session).2, st.lastTurn + 1⟩
  | .other calls =>
    if calls.all (fun c => !c.eventType.isBracket) then some ⟨st.session.appends calls, st.lastTurn⟩ else none

/-- The gate takes the reason a turn ends with. -/
def Closes (l : Loop) (st : AgentRun) : Action → Prop
  | .turn claimed world => ∀ exit, l.Exits (st.lastTurn + 1) claimed world st.session exit → exit.Recordable
  | .other _ => True

end AgentRun

theorem Session.Logs.brackets {s s' : Session} {told : List LogEntry} (h : s.Logs EventType.isBracket s' told) :
    s'.brackets = s.brackets ++ owned EventType.isBracket told := by
  obtain ⟨events, hgrown, -, hown⟩ := h
  unfold Session.brackets
  rw [hgrown, List.map_append, owned_append, hown]

/-- A turn that ends with a reason the gate takes is a whole turn of the log. -/
theorem Loop.OwnsBrackets.runTurn_adds {l : Loop} (hl : l.OwnsBrackets) {turn : Nat} {claimed : List Message}
    {world : Nat → StepWorld} {s : Session}
    (h : ∀ exit, l.Exits turn claimed world s exit → exit.Recordable) : ∃ t : TurnRecord, t.turn = turn ∧
      (l.runTurn turn claimed world s).2.brackets = s.brackets ++ t.brackets ∧
      (t.replies.length : Int) ≤ max l.options.maxSteps 0 := by
  obtain ⟨exit, hexit⟩ := l.exists_turnEnds turn world
    (l.write .turnStart (Json.obj [("turn", .int turn)]).loads s).2 1 claimed
  obtain ⟨replies, hlength, hends, -, -⟩ := hl.runTurn_puts hexit
  obtain ⟨j, hj⟩ := exit.recordable_iff.mp (h exit hexit)
  exact ⟨⟨turn, replies, j⟩, rfl, (hends j hj).told.brackets, hlength⟩

/-- What every run keeps: the session grew by as many whole turns as the agent counts. -/
def AgentRun.Counts (l : Loop) (s : Session) (n : Nat) (st : AgentRun) : Prop :=
  ∃ turns, Consecutive n turns ∧ st.session.brackets = s.brackets ++ turns.flatMap TurnRecord.brackets ∧
    (∀ t ∈ turns, (t.replies.length : Int) ≤ max l.options.maxSteps 0) ∧ st.lastTurn = n + turns.length

theorem AgentRun.Counts.step {l : Loop} (hl : l.OwnsBrackets) {s : Session} {n : Nat} {st st' : AgentRun} {a : AgentRun.Action}
    (h : st.Counts l s n) (hok : st.Closes l a) (hstep : st.step l a = some st') : st'.Counts l s n := by
  obtain ⟨turns, hconsecutive, hbrackets, hlengths, hlast⟩ := h
  cases a with
  | turn claimed world =>
    obtain rfl := Option.some.inj hstep
    obtain ⟨t, hturn, hadds, hlength⟩ := hl.runTurn_adds hok
    refine ⟨turns ++ [t], hconsecutive.append ⟨by rw [hturn, hlast], trivial⟩, ?_, ?_, ?_⟩
    · simp only [hadds, hbrackets, List.flatMap_append, List.flatMap_cons, List.flatMap_nil, List.append_nil, List.append_assoc]
    · intro t' ht'
      rcases List.mem_append.mp ht' with ht' | ht'
      · exact hlengths t' ht'
      · rw [List.mem_singleton.mp ht']
        exact hlength
    · simp only [hlast, List.length_append, List.length_singleton, Nat.add_assoc]
  | other calls =>
    simp only [AgentRun.step] at hstep
    split at hstep
    · rename_i hcalls
      obtain rfl := Option.some.inj hstep
      have hothers : ∀ c ∈ calls, c.eventType.isBracket = false := by simpa using hcalls
      have hgrown := (Session.Logs.appends_other st.session hothers).brackets
      exact ⟨turns, hconsecutive, by simpa [owned, hgrown] using hbrackets, hlengths, hlast⟩
    · cases hstep

/-! ## The log an agent starts from -/

/-- The last of some turns that are numbered one after another. -/
theorem Consecutive.exists_last {n : Nat} {turns : List TurnRecord} (h : Consecutive n turns) (hne : turns ≠ []) :
    ∃ t ∈ turns, t.turn = n + turns.length := by
  induction turns generalizing n with
  | nil => exact absurd rfl hne
  | cons t turns ih =>
    cases turns with
    | nil => exact ⟨t, List.mem_cons_self, h.1⟩
    | cons t' turns =>
      obtain ⟨last, hmem, hlast⟩ := ih h.2 (List.cons_ne_nil t' turns)
      refine ⟨last, List.mem_cons_of_mem t hmem, ?_⟩
      simp only [List.length_cons] at hlast ⊢
      omega

theorem TurnRecord.start_mem (t : TurnRecord) : (.turnStart, turnData t.turn) ∈ t.brackets :=
  List.mem_filter.mpr ⟨List.mem_append_left _ List.mem_cons_self, rfl⟩

/-- In a log of whole turns, cut off or not, every start of a turn has its number. -/
theorem WellBracketed.started {whole entries : List LogEntry} (h : WellBracketed whole) (hentries : entries <+: whole) :
    ∀ entry ∈ entries, entry.1 = .turnStart → ∃ t : Nat, entry.2 = turnData t := by
  obtain ⟨n, turns, -, rfl⟩ := h
  intro entry hentry hstart
  obtain ⟨t, -, hmem⟩ := List.mem_flatMap.mp (hentries.subset hentry)
  exact ⟨t.turn, t.turnStart_mem hmem hstart⟩

/-- Turns numbered on from the last one of a well-bracketed log. -/
theorem WellBracketed.append {entries : List LogEntry} (h : WellBracketed entries) {n : Nat} (hn : LastTurn entries n)
    {turns : List TurnRecord} (hturns : Consecutive n turns) :
    WellBracketed (entries ++ turns.flatMap TurnRecord.brackets) := by
  obtain ⟨n₀, turns₀, hconsecutive, rfl⟩ := h
  by_cases hempty : turns₀ = []
  · subst hempty
    exact ⟨n, turns, hturns, rfl⟩
  · obtain ⟨last, hmem, hlast⟩ := hconsecutive.exists_last hempty
    have hle : n₀ + turns₀.length ≤ n := by
      rw [← hlast]
      exact hn.most _ (List.mem_flatMap.mpr ⟨last, hmem, last.start_mem⟩)
    have hge : n ≤ n₀ + turns₀.length := by
      rcases hn.started with rfl | hstarted
      · exact Nat.zero_le _
      · obtain ⟨t, ht, hstart⟩ := List.mem_flatMap.mp hstarted
        have hnumber : n = t.turn := turnData_injective (t.turnStart_mem hstart rfl)
        have := (hconsecutive.turn_le t ht).2
        omega
    obtain rfl : n = n₀ + turns₀.length := by omega
    exact ⟨n₀, turns₀ ++ turns, hconsecutive.append hturns, by rw [List.flatMap_append]⟩

/-- A new agent over a log of whole turns, cut off or not, counts on from the number of its last turn. -/
theorem AgentRun.create_eq {s : Session} {whole : List LogEntry} (hwhole : WellBracketed whole) (hs : s.brackets <+: whole) :
    ∃ n, AgentRun.create s = some ⟨s, n⟩ ∧ LastTurn s.brackets n := by
  obtain ⟨n, hfound, -, hstarted, hmost⟩ := lastTurnFrom_eq 0 (hwhole.started hs)
  refine ⟨n, ?_, hstarted, hmost⟩
  have hnumber : s.lastTurnNumber = some (n : Int) := (lastTurnFrom_owned 0 _).symm.trans hfound
  simp only [AgentRun.create, hnumber]

/-! ## Brackets kept -/

/-- What an agent keeps that started on a session whose last turn had the number `n`: it adds whole turns, numbered on from there, and
a well-bracketed log stays so. -/
structure Loop.KeepsBrackets (l : Loop) (s : Session) (n : Nat) (st : AgentRun) : Prop where
  adds : l.AddsTurns s n st.session
  whole : WellBracketed s.brackets → WellBracketed st.session.brackets

/-- An agent over a session whose log is of whole turns, or is cut off inside one, keeps the brackets in every run in which the
gate takes the reason of each turn's end. -/
theorem brackets_kept {l : Loop} (hl : l.OwnsBrackets) {s : Session} {whole : List LogEntry} (hwhole : WellBracketed whole)
    (hs : s.brackets <+: whole) : ∃ n, AgentRun.create s = some ⟨s, n⟩ ∧ LastTurn s.brackets n ∧
      ∀ st, Machine.Reach (AgentRun.step l) (AgentRun.Closes l) ⟨s, n⟩ st → l.KeepsBrackets s n st := by
  obtain ⟨n, hcreate, hlast⟩ := AgentRun.create_eq hwhole hs
  refine ⟨n, hcreate, hlast, fun st hreach => ?_⟩
  have hstart : AgentRun.Counts l s n ⟨s, n⟩ := ⟨[], trivial, (List.append_nil _).symm, by simp, rfl⟩
  obtain ⟨turns, hconsecutive, hbrackets, hlengths, -⟩ :=
    hreach.invariant hstart (fun _ _ _ hcounts hok hstep => hcounts.step hl hok hstep)
  refine ⟨⟨turns, hconsecutive, hbrackets, hlengths⟩, fun hbefore => ?_⟩
  rw [hbrackets]
  exact hbefore.append hlast hconsecutive

/-- What stands after the start of a turn is not the start of another one. -/
theorem TurnRecord.brackets_eq (t : TurnRecord) : ∃ entry more, entry.1 ≠ .turnStart ∧
    t.brackets = (.turnStart, turnData t.turn) :: entry :: more := by
  have hbrackets : t.brackets = (.turnStart, turnData t.turn) ::
      (owned EventType.isBracket (stepsEntries t.turn 1 t.replies) ++ [(.turnEnd, turnEndData t.turn t.reason)]) := by
    unfold TurnRecord.brackets TurnRecord.entries
    rw [owned_append]
    rfl
  rw [hbrackets]
  cases hsteps : owned EventType.isBracket (stepsEntries t.turn 1 t.replies) with
  | nil => exact ⟨_, [], by simp, rfl⟩
  | cons entry steps =>
    have hmem : entry ∈ owned EventType.isBracket (stepsEntries t.turn 1 t.replies) := by
      rw [hsteps]
      exact List.mem_cons_self
    exact ⟨entry, _, not_turnStart_mem_steps _ _ _ entry (List.mem_of_mem_filter hmem), rfl⟩

namespace Stopped

/-- A loop with the default options, and no other code. -/
def loop : Loop :=
  { options := {}
    sessionText := fun _ => "InvalidEventData"
    payloadText := fun _ => "PayloadDecodeError"
    clock := fun _ => 0
    others := fun _ => [] }

/-- A turn that is stopped before its first step. -/
def world (reason : PyValue) : Nat → StepWorld := fun _ =>
  { abortedBefore := some reason
    chunks := []
    messageId := "a1"
    outcome := fun _ => ⟨"", false⟩
    resultId := fun call => call.id }

/-- A new session. -/
def session : Session := Session.new "chat-1" { id := "chat-1" }

/-- A turn that is stopped before its first step ends with the reason it was stopped for. -/
theorem exits_stopped {turn : Nat} {reason : PyValue} {s : Session} {exit : TurnExit} (h : loop.Exits turn [] (world reason) s exit) :
    exit = .cancelled reason := by
  cases h with
  | aborted aborted =>
    cases aborted
    rfl
  | maxSteps live => cases live
  | undecided live => cases live
  | blocked live => cases live
  | unentered decided => cases decided.live
  | raised taken => cases taken.live
  | abortedAfter taken => cases taken.live
  | ended taken => cases taken.live
  | next taken => cases taken.live

/-- The agent after a turn. -/
def afterTurn (reason : PyValue) (st : AgentRun) : AgentRun :=
  ⟨(loop.runTurn (st.lastTurn + 1) [] (world reason) st.session).2, st.lastTurn + 1⟩

end Stopped

open Stopped in
/-- A new session, and a turn that is stopped with a text for its reason. -/
theorem brackets_kept_stopped : ∃ n, AgentRun.create session = some ⟨session, n⟩ ∧ LastTurn session.brackets n ∧
    (afterTurn (.str "user") ⟨session, n⟩).session.events.map SessionEvent.type = [.turnStart, .turnEnd] ∧
    loop.KeepsBrackets session n (afterTurn (.str "user") ⟨session, n⟩) := by
  have hempty : WellBracketed [] := ⟨0, [], trivial, rfl⟩
  obtain ⟨n, hcreate, hlast, hkept⟩ := brackets_kept (l := loop) ⟨by simp [loop], by simp [loop]⟩ (s := session) hempty
    (List.prefix_refl [])
  have hzero : n = 0 := by
    rcases hlast.started with hzero | hmem
    · exact hzero
    · cases hmem
  subst hzero
  refine ⟨0, hcreate, hlast, by decide +kernel, hkept _ (.next (.turn [] (world (.str "user"))) .start ?_ rfl)⟩
  intro exit hexit
  rw [exits_stopped hexit]
  exact ⟨.str "user", rfl⟩

open Stopped in
/-- A turn that is stopped with an object that is no JSON for its reason is left open: the next turn starts inside it. -/
theorem turn_left_open :
    AgentRun.create session = some ⟨session, 0⟩ ∧ WellBracketed session.brackets ∧
    Machine.Reach (AgentRun.step loop) Machine.anyStep ⟨session, 0⟩
      (afterTurn (.str "user") (afterTurn .object ⟨session, 0⟩)) ∧
    (afterTurn (.str "user") (afterTurn .object ⟨session, 0⟩)).session.events.map SessionEvent.type =
      [.turnStart, .turnStart, .turnEnd] ∧
    ¬loop.KeepsBrackets session 0 (afterTurn (.str "user") (afterTurn .object ⟨session, 0⟩)) := by
  have htypes : (afterTurn (.str "user") (afterTurn .object ⟨session, 0⟩)).session.brackets.map (·.1) =
      [.turnStart, .turnStart, .turnEnd] := by decide +kernel
  refine ⟨rfl, ⟨0, [], trivial, rfl⟩, ?_, by decide +kernel, fun hkept => ?_⟩
  · exact .next (.turn [] (world (.str "user"))) (.next (.turn [] (world .object)) .start trivial rfl) trivial rfl
  · obtain ⟨turns, -, hbrackets, -⟩ := hkept.adds
    rw [hbrackets] at htypes
    cases turns with
    | nil => cases htypes
    | cons t turns =>
      obtain ⟨entry, more, hne, ht⟩ := t.brackets_eq
      rw [List.flatMap_cons, ht] at htypes
      have hempty : session.brackets = [] := rfl
      simp only [hempty, List.nil_append, List.cons_append, List.map_cons, List.cons.injEq] at htypes
      exact hne htypes.2.1

end Pydsh
