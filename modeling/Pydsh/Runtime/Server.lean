import Mathlib.Data.List.Induction
import Pydsh.Agent.Drain
import Pydsh.Lib.Dict
import Pydsh.Lib.Serial

/-!
# Connections that share sessions

`runtime/server.py` over one host: each connection keeps its own agents by session id, and all of them find their sessions in one
store. An agent serialises its turns by its one drain, and numbers them by the highest number in the log when it was made and its
own count since. So two connections that name one session have two agents on it, whose turns overlap and share their numbers
(`shared_session_overlap`). The turns of a session are serial exactly as long as an agent starts one only while no other agent's is in
progress and none has run since its own last (`turns_serial`).
-/

namespace Pydsh

/-- What a session's log says of its turns: a `turn/start`, and the end of a turn's code. -/
inductive TurnMark where
  | started (turn : Nat)
  | ended (turn : Nat)
  deriving DecidableEq

/-- The turn a mark starts. -/
def TurnMark.starts? : TurnMark → Option Nat
  | .started turn => some turn
  | .ended _ => none

/-- The turn a mark ends. -/
def TurnMark.ends? : TurnMark → Option Nat
  | .started _ => none
  | .ended turn => some turn

/-- The marks of a session's log. -/
abbrev TurnLog : Type := List TurnMark

/-- The turns a log starts. -/
abbrev TurnLog.turns (log : TurnLog) : List Nat := Serial.opened TurnMark.starts? log

/-- The turn in progress at the end of a log; `none` where two turns overlap. -/
abbrev TurnLog.scan (log : TurnLog) : Option (Option Nat) := Serial.scan TurnMark.starts? TurnMark.ends? log

/-- The log of some turns that are over. -/
def overTurns (turns : List Nat) : TurnLog := turns.flatMap (fun turn => [.started turn, .ended turn])

/-- `_last_turn_number`. -/
def lastTurnNumber (log : TurnLog) : Nat := log.turns.foldl max 0

/-- An agent: its drain, and `_last_turn`. -/
structure ServedAgent where
  drain : DrainState := {}
  lastTurn : Nat

/-- What an agent's drain does, and what it logs: where it goes into a turn it has counted the turn and logs its start, and where it
leaves the turn, the turn's code is over. -/
def ServedAgent.step (agent : ServedAgent) (a : DrainAction) : Option (ServedAgent × TurnLog) :=
  (agent.drain.step a).map (fun drain =>
    if drain.phase = .inTurn then
      if agent.drain.phase = .inTurn then ({ agent with drain }, [])
      else ({ drain, lastTurn := agent.lastTurn + 1 }, [.started (agent.lastTurn + 1)])
    else
      if agent.drain.phase = .inTurn then ({ agent with drain }, [.ended agent.lastTurn])
      else ({ agent with drain }, []))

/-- The step of its drain starts a turn. -/
def ServedAgent.Starts (agent : ServedAgent) (a : DrainAction) : Prop :=
  agent.drain.phase ≠ .inTurn ∧ ∃ drain, agent.drain.step a = some drain ∧ drain.phase = .inTurn

theorem ServedAgent.step_cases {agent agent' : ServedAgent} {a : DrainAction} {marks : TurnLog}
    (h : agent.step a = some (agent', marks)) :
    (agent.Starts a ∧ agent'.drain.phase = .inTurn ∧ agent'.lastTurn = agent.lastTurn + 1 ∧
      marks = [.started (agent.lastTurn + 1)]) ∨
    (¬agent.Starts a ∧ agent.drain.phase = .inTurn ∧ agent'.drain.phase ≠ .inTurn ∧ agent'.lastTurn = agent.lastTurn ∧
      marks = [.ended agent.lastTurn]) ∨
    (¬agent.Starts a ∧ (agent'.drain.phase = .inTurn ↔ agent.drain.phase = .inTurn) ∧ agent'.lastTurn = agent.lastTurn ∧
      marks = []) := by
  obtain ⟨drain, hdrain, heq⟩ := Option.map_eq_some_iff.mp h
  by_cases hnew : drain.phase = .inTurn <;> by_cases hold : agent.drain.phase = .inTurn
  · rw [if_pos hnew, if_pos hold] at heq
    cases heq
    exact Or.inr (Or.inr ⟨fun hstarts => hstarts.1 hold, iff_of_true hnew hold, rfl, rfl⟩)
  · rw [if_pos hnew, if_neg hold] at heq
    cases heq
    exact Or.inl ⟨⟨hold, drain, hdrain, hnew⟩, hnew, rfl, rfl⟩
  · rw [if_neg hnew, if_pos hold] at heq
    cases heq
    exact Or.inr (Or.inl ⟨fun hstarts => hstarts.1 hold, hold, hnew, rfl, rfl⟩)
  · rw [if_neg hnew, if_neg hold] at heq
    cases heq
    have hquiet : ¬agent.Starts a := by
      rintro ⟨-, drain', hdrain', hphase⟩
      cases hdrain.symm.trans hdrain'
      exact hnew hphase
    exact Or.inr (Or.inr ⟨hquiet, iff_of_false hnew hold, rfl, rfl⟩)

/-- A host: the sessions of its store, by their logs, and the agents, by connection and session id. -/
structure HostState where
  sessions : Dict String TurnLog := .empty
  agents : Dict (Nat × String) ServedAgent := .empty

/-- What happens on a host: a session comes into the store with turns that are over; a connection delivers a `session/run` or a
`session/prompt`; or an agent's drain takes a step, or is cancelled. -/
inductive HostAction where
  | resume (id : String) (turns : { turns : List Nat // turns.Nodup })
  | request (connection : Nat) (id : String) (message : Message)
  | drain (connection : Nat) (id : String) (a : DrainAction)

namespace HostState

/-- The log of the session with an id; a session that is not there would be made with an empty one. -/
def log (st : HostState) (id : String) : TurnLog := (st.sessions.get? id).getD []

/-- `_agent_for`: the connection's agent on the session, made where it has none. -/
def agentFor (st : HostState) (connection : Nat) (id : String) : ServedAgent :=
  match st.agents.get? (connection, id) with
  | some agent => agent
  | none => { lastTurn := lastTurnNumber (st.log id) }

/-- An agent, and its session's log, as they stand after a step. -/
def put (st : HostState) (connection : Nat) (id : String) (agent : ServedAgent) (marks : TurnLog) : HostState :=
  { sessions := st.sessions.set id (st.log id ++ marks)
    agents := st.agents.set (connection, id) agent }

/-- What an action does; `none` where it cannot happen. A request without a session id is refused. -/
def step (st : HostState) : HostAction → Option HostState
  | .resume id turns =>
    match st.sessions.get? id with
    | some _ => none
    | none => some { st with sessions := st.sessions.set id (overTurns turns.val) }
  | .request connection id message =>
    if id.isEmpty then some st
    else
      let agent := st.agentFor connection id
      some (st.put connection id { agent with drain := agent.drain.insert .nextTurn message } [])
  | .drain connection id a =>
    match st.agents.get? (connection, id) with
    | none => none
    | some agent => (agent.step a).map (fun result => st.put connection id result.1 result.2)

/-! ## The law -/

/-- The turns of every session come one after another, and have different numbers. -/
def Law (st : HostState) : Prop :=
  ∀ id, (st.log id).scan.isSome = true ∧ (st.log id).turns.Nodup

/-- An agent that starts a turn is alone in doing so: no other agent's turn on the session is in progress, and its own last turn is
the last one in the log. -/
def Alone (st : HostState) : HostAction → Prop
  | .drain c id a => ∀ agent, st.agents.get? (c, id) = some agent → agent.Starts a →
      (∀ c' agent', st.agents.get? (c', id) = some agent' → agent'.drain.phase ≠ .inTurn) ∧
        agent.lastTurn = lastTurnNumber (st.log id)
  | _ => True

end HostState

/-! ## Turn numbers -/

theorem le_foldl_max (xs : List Nat) (a : Nat) : a ≤ xs.foldl max a := by
  induction xs generalizing a with
  | nil => exact Nat.le_refl a
  | cons x xs ih => exact Nat.le_trans (Nat.le_max_left a x) (ih (max a x))

theorem mem_le_foldl_max {xs : List Nat} {k : Nat} (hk : k ∈ xs) (a : Nat) : k ≤ xs.foldl max a := by
  induction xs generalizing a with
  | nil => cases hk
  | cons x xs ih =>
    rcases List.mem_cons.mp hk with rfl | hk
    · exact Nat.le_trans (Nat.le_max_right a k) (le_foldl_max xs _)
    · exact ih hk _

@[simp] theorem turns_started (log : TurnLog) (turn : Nat) : TurnLog.turns (log ++ [.started turn]) = log.turns ++ [turn] :=
  Serial.opened_concat_open rfl

@[simp] theorem turns_ended (log : TurnLog) (turn : Nat) : TurnLog.turns (log ++ [.ended turn]) = log.turns :=
  Serial.opened_concat_other rfl

theorem le_lastTurnNumber {log : TurnLog} {turn : Nat} (h : turn ∈ log.turns) : turn ≤ lastTurnNumber log :=
  mem_le_foldl_max h 0

theorem lastTurnNumber_started (log : TurnLog) (turn : Nat) :
    lastTurnNumber (log ++ [.started turn]) = max (lastTurnNumber log) turn := by
  simp [lastTurnNumber, List.foldl_append]

theorem lastTurnNumber_ended (log : TurnLog) (turn : Nat) : lastTurnNumber (log ++ [.ended turn]) = lastTurnNumber log := by
  simp [lastTurnNumber]

theorem scan_overTurns (turns : List Nat) : (overTurns turns).scan = some none ∧ (overTurns turns).turns = turns := by
  induction turns using List.reverseRecOn with
  | nil => exact ⟨rfl, rfl⟩
  | append_singleton turns turn ih =>
    have hsplit : overTurns (turns ++ [turn]) = overTurns turns ++ [.started turn] ++ [.ended turn] := by simp [overTurns]
    rw [hsplit]
    constructor
    · refine Serial.scan_close ?_ rfl rfl
      rw [Serial.scan_open ih.1 rfl, if_pos rfl]
    · rw [turns_ended, turns_started, ih.2]

namespace HostState

/-- A log goes on without a gap from a turn. -/
structure Recent (log : TurnLog) (turn : Nat) : Prop where
  le : turn ≤ lastTurnNumber log
  mem : ∀ k, turn < k → k ≤ lastTurnNumber log → k ∈ log.turns

/-- What every run keeps in which agents are alone in starting turns. -/
structure Inv (st : HostState) : Prop where
  distinct : ∀ id, (st.log id).turns.Nodup
  /-- Where no agent's turn is in progress, the log's last turn is over. -/
  idle : ∀ id, (∀ c agent, st.agents.get? (c, id) = some agent → agent.drain.phase ≠ .inTurn) → (st.log id).scan = some none
  /-- An agent's turn in progress is the log's, and no other agent's is. -/
  inTurn : ∀ id c agent, st.agents.get? (c, id) = some agent → agent.drain.phase = .inTurn →
    (st.log id).scan = some (some agent.lastTurn) ∧
      ∀ c' agent', st.agents.get? (c', id) = some agent' → agent'.drain.phase = .inTurn → c' = c
  /-- The turns after an agent's last one are in the log. -/
  recent : ∀ id c agent, st.agents.get? (c, id) = some agent → Recent (st.log id) agent.lastTurn
  /-- An agent's session is in the store. -/
  stored : ∀ id c agent, st.agents.get? (c, id) = some agent → st.sessions.get? id ≠ none

variable {st st' : HostState}

theorem Inv.law (h : st.Inv) : st.Law := by
  intro id
  refine ⟨?_, h.distinct id⟩
  by_cases hidle : ∀ c agent, st.agents.get? (c, id) = some agent → agent.drain.phase ≠ .inTurn
  · rw [h.idle id hidle]
    rfl
  · push Not at hidle
    obtain ⟨c, agent, hagent, hturn⟩ := hidle
    rw [(h.inTurn id c agent hagent hturn).1]
    rfl

theorem log_put (st : HostState) (c : Nat) (id : String) (agent : ServedAgent) (marks : TurnLog) (id' : String) :
    (st.put c id agent marks).log id' = if id' = id then st.log id ++ marks else st.log id' := by
  simp only [log, put, Dict.get?_set]
  split <;> rfl

theorem agents_put (st : HostState) (c : Nat) (id : String) (agent : ServedAgent) (marks : TurnLog) (c' : Nat) (id' : String) :
    (st.put c id agent marks).agents.get? (c', id') =
      if c' = c ∧ id' = id then some agent else st.agents.get? (c', id') := by
  simp only [put, Dict.get?_set, Prod.mk.injEq]

theorem stored_put (st : HostState) (c : Nat) (id : String) (agent : ServedAgent) (marks : TurnLog) (id' : String)
    (h : id' = id ∨ st.sessions.get? id' ≠ none) : (st.put c id agent marks).sessions.get? id' ≠ none := by
  simp only [put, Dict.get?_set]
  split
  · exact Option.some_ne_none _
  · exact h.resolve_left ‹_›

/-- A step of one agent keeps the invariant when the log that it leaves is right for that agent and for the others. -/
theorem Inv.put (h : st.Inv) {c : Nat} {id : String} {agent : ServedAgent} {marks : TurnLog}
    (hdistinct : TurnLog.turns (st.log id ++ marks) |>.Nodup)
    (hidle : agent.drain.phase ≠ .inTurn →
      (∀ c' agent', c' ≠ c → st.agents.get? (c', id) = some agent' → agent'.drain.phase ≠ .inTurn) →
      TurnLog.scan (st.log id ++ marks) = some none)
    (hturn : agent.drain.phase = .inTurn → TurnLog.scan (st.log id ++ marks) = some (some agent.lastTurn) ∧
      ∀ c' agent', c' ≠ c → st.agents.get? (c', id) = some agent' → agent'.drain.phase ≠ .inTurn)
    (hothers : ∀ c' agent', c' ≠ c → st.agents.get? (c', id) = some agent' → agent'.drain.phase = .inTurn → marks = [])
    (hrecent : Recent (st.log id ++ marks) agent.lastTurn)
    (hkept : ∀ turn, Recent (st.log id) turn → Recent (st.log id ++ marks) turn) : (st.put c id agent marks).Inv := by
  constructor
  · intro id'
    rw [log_put]
    split
    · exact hdistinct
    · exact h.distinct id'
  · intro id' hnone
    rw [log_put]
    split
    · rename_i hid
      subst hid
      refine hidle (hnone c agent (by rw [agents_put, if_pos ⟨rfl, rfl⟩])) (fun c' agent' hc hagent' => ?_)
      exact hnone c' agent' (by rw [agents_put, if_neg (fun hboth => hc hboth.1), hagent'])
    · rename_i hid
      refine h.idle id' (fun c' agent' hagent' => hnone c' agent' ?_)
      rw [agents_put, if_neg (fun hboth => hid hboth.2), hagent']
  · intro id' c' agent' hagent' hphase
    rw [agents_put] at hagent'
    rw [log_put]
    by_cases hid : id' = id
    · subst hid
      rw [if_pos rfl]
      by_cases hc : c' = c
      · subst hc
        rw [if_pos ⟨rfl, rfl⟩] at hagent'
        cases hagent'
        obtain ⟨hscan, hnone⟩ := hturn hphase
        refine ⟨hscan, fun c'' agent'' hagent'' hphase'' => ?_⟩
        by_contra hne
        rw [agents_put, if_neg (fun hboth => hne hboth.1)] at hagent''
        exact hnone c'' agent'' hne hagent'' hphase''
      · rw [if_neg (fun hboth => hc hboth.1)] at hagent'
        obtain ⟨hscan, hsole⟩ := h.inTurn id' c' agent' hagent' hphase
        obtain rfl := hothers c' agent' hc hagent' hphase
        refine ⟨by rwa [List.append_nil], fun c'' agent'' hagent'' hphase'' => ?_⟩
        rw [agents_put] at hagent''
        split at hagent''
        · cases hagent''
          exact absurd hphase ((hturn hphase'').2 c' agent' hc hagent')
        · exact hsole c'' agent'' hagent'' hphase''
    · rw [if_neg hid]
      rw [if_neg (fun hboth => hid hboth.2)] at hagent'
      obtain ⟨hscan, hsole⟩ := h.inTurn id' c' agent' hagent' hphase
      refine ⟨hscan, fun c'' agent'' hagent'' hphase'' => ?_⟩
      rw [agents_put, if_neg (fun hboth => hid hboth.2)] at hagent''
      exact hsole c'' agent'' hagent'' hphase''
  · intro id' c' agent' hagent'
    rw [agents_put] at hagent'
    rw [log_put]
    by_cases hid : id' = id
    · subst hid
      rw [if_pos rfl]
      split at hagent'
      · cases hagent'
        exact hrecent
      · exact hkept _ (h.recent id' c' agent' hagent')
    · rw [if_neg hid]
      rw [if_neg (fun hboth => hid hboth.2)] at hagent'
      exact h.recent id' c' agent' hagent'
  · intro id' c' agent' hagent'
    rw [agents_put] at hagent'
    by_cases hid : id' = id
    · exact stored_put st c id agent marks id' (Or.inl hid)
    · rw [if_neg (fun hboth => hid hboth.2)] at hagent'
      exact stored_put st c id agent marks id' (Or.inr (h.stored id' c' agent' hagent'))

theorem Inv.agentFor (h : st.Inv) (c : Nat) (id : String) : Recent (st.log id) (st.agentFor c id).lastTurn ∧
    ((st.agentFor c id).drain.phase = .inTurn → st.agents.get? (c, id) = some (st.agentFor c id)) := by
  unfold HostState.agentFor
  split
  · rename_i agent hagent
    exact ⟨h.recent id c agent hagent, fun _ => hagent⟩
  · refine ⟨⟨Nat.le_refl _, fun k hlt hle => absurd hlt (Nat.not_lt_of_le hle)⟩, fun hturn => ?_⟩
    cases hturn

theorem agentFor_eq {c : Nat} {id : String} {agent : ServedAgent} (h : st.agents.get? (c, id) = some agent) :
    st.agentFor c id = agent := by
  unfold HostState.agentFor
  rw [h]

theorem Inv.quiet (h : st.Inv) {c : Nat} {id : String} {agent : ServedAgent} (hlast : agent.lastTurn = (st.agentFor c id).lastTurn)
    (hphase : agent.drain.phase = .inTurn ↔ (st.agentFor c id).drain.phase = .inTurn) : (st.put c id agent []).Inv := by
  obtain ⟨hrecent, hthere⟩ := h.agentFor c id
  have hsame : st.log id ++ [] = st.log id := List.append_nil _
  refine h.put ?_ ?_ ?_ (fun _ _ _ _ _ => rfl) ?_ ?_
  · rw [hsame]
    exact h.distinct id
  · intro hnone hothers
    rw [hsame]
    refine h.idle id (fun c' agent' hagent' => ?_)
    by_cases hc : c' = c
    · subst hc
      rw [agentFor_eq hagent'] at hphase
      exact fun hturn => hnone (hphase.mpr hturn)
    · exact hothers c' agent' hc hagent'
  · intro hturn
    rw [hsame, hlast]
    rw [hphase] at hturn
    obtain ⟨hscan, hsole⟩ := h.inTurn id c _ (hthere hturn) hturn
    exact ⟨hscan, fun c' agent' hc hagent' hturn' => hc (hsole c' agent' hagent' hturn')⟩
  · rw [hsame, hlast]
    exact hrecent
  · intro turn hturn
    rwa [hsame]

theorem Inv.started (h : st.Inv) {c : Nat} {id : String} {agent : ServedAgent} {last : Nat} (hphase : agent.drain.phase = .inTurn)
    (hlast : agent.lastTurn = last + 1)
    (hidle : ∀ c' agent', st.agents.get? (c', id) = some agent' → agent'.drain.phase ≠ .inTurn)
    (hnumber : last = lastTurnNumber (st.log id)) : (st.put c id agent [.started (last + 1)]).Inv := by
  have hmax : lastTurnNumber (st.log id ++ [.started (last + 1)]) = last + 1 := by
    rw [lastTurnNumber_started, ← hnumber]
    omega
  refine h.put ?_ (fun hnone => absurd hphase hnone) ?_ (fun c' agent' _ hagent' hturn => ?_) ?_ ?_
  · refine (Serial.nodup_opened_concat (h.distinct id) rfl).mpr (fun hmem => ?_)
    have := le_lastTurnNumber hmem
    omega
  · intro _
    rw [hlast, TurnLog.scan, Serial.scan_open (h.idle id hidle) rfl, if_pos rfl]
    exact ⟨rfl, fun c' agent' _ hagent' => hidle c' agent' hagent'⟩
  · exact absurd hturn (hidle c' agent' hagent')
  · rw [hlast]
    refine ⟨by omega, fun k hlt hle => ?_⟩
    omega
  · intro turn hturn
    have hle := hturn.le
    refine ⟨by omega, fun k hlt hk => ?_⟩
    rw [turns_started]
    by_cases hnew : k = last + 1
    · exact List.mem_append_right _ (by simp [hnew])
    · exact List.mem_append_left _ (hturn.mem k hlt (by omega))

theorem Inv.turnEnds (h : st.Inv) {c : Nat} {id : String} {old agent : ServedAgent} (hold : st.agents.get? (c, id) = some old)
    (hturn : old.drain.phase = .inTurn) (hphase : agent.drain.phase ≠ .inTurn) (hlast : agent.lastTurn = old.lastTurn) :
    (st.put c id agent [.ended old.lastTurn]).Inv := by
  obtain ⟨hscan, hsole⟩ := h.inTurn id c old hold hturn
  have hkept : ∀ turn, Recent (st.log id) turn → Recent (st.log id ++ [.ended old.lastTurn]) turn := by
    intro turn hrecent
    refine ⟨by rw [lastTurnNumber_ended]; exact hrecent.le, fun k hlt hle => ?_⟩
    rw [lastTurnNumber_ended] at hle
    rw [turns_ended]
    exact hrecent.mem k hlt hle
  refine h.put ?_ ?_ (fun hin => absurd hin hphase) (fun c' agent' hc hagent' hin => ?_) ?_ hkept
  · rw [turns_ended]
    exact h.distinct id
  · intro _ _
    exact Serial.scan_close hscan rfl rfl
  · exact absurd (hsole c' agent' hagent' hin) hc
  · rw [hlast]
    exact hkept _ (h.recent id c old hold)

/-- What one step is about: a step in which no agent starts a turn but alone keeps the invariant, and the step keeps the law exactly
when it is such a step. -/
structure Settles (st : HostState) (a : HostAction) (st' : HostState) : Prop where
  inv : st.Alone a → st'.Inv
  exact : st'.Law ↔ st.Alone a

theorem Settles.of_inv {a : HostAction} (hinv : st'.Inv) (halone : st.Alone a) : st.Settles a st' :=
  ⟨fun _ => hinv, iff_of_true hinv.law halone⟩

/-- An agent that starts a turn, and not alone, overlaps another turn or takes its number. -/
theorem Inv.broken (h : st.Inv) {c : Nat} {id : String} {agent agent' : ServedAgent} (hagent : st.agents.get? (c, id) = some agent)
    (hlaw : (st.put c id agent' [.started (agent.lastTurn + 1)]).Law) :
    (∀ c' other, st.agents.get? (c', id) = some other → other.drain.phase ≠ .inTurn) ∧
      agent.lastTurn = lastTurnNumber (st.log id) := by
  obtain ⟨hscan, hdistinct⟩ := hlaw id
  rw [log_put, if_pos rfl] at hscan hdistinct
  constructor
  · intro c' other hother hturn
    rw [TurnLog.scan, Serial.scan_open (h.inTurn id c' other hother hturn).1 rfl] at hscan
    cases hscan
  · have hnew := (Serial.nodup_opened_concat (h.distinct id) rfl).mp hdistinct
    have hrecent := h.recent id c agent hagent
    by_contra hne
    have hlt := Nat.lt_of_le_of_ne hrecent.le hne
    exact hnew (hrecent.mem _ (Nat.lt_succ_self _) hlt)

theorem Inv.resume (h : st.Inv) {id : String} (hnew : st.sessions.get? id = none) (turns : { turns : List Nat // turns.Nodup }) :
    HostState.Inv { st with sessions := st.sessions.set id (overTurns turns.val) } := by
  have hlog : ∀ id', HostState.log { st with sessions := st.sessions.set id (overTurns turns.val) } id' =
      if id' = id then overTurns turns.val else st.log id' := by
    intro id'
    simp only [log, Dict.get?_set]
    split <;> rfl
  have hnobody : ∀ c agent, st.agents.get? (c, id) ≠ some agent := fun c agent hagent => h.stored id c agent hagent hnew
  obtain ⟨hscan, hturns⟩ := scan_overTurns turns.val
  constructor
  · intro id'
    rw [hlog]
    split
    · rw [hturns]
      exact turns.property
    · exact h.distinct id'
  · intro id' hidle
    rw [hlog]
    split
    · exact hscan
    · exact h.idle id' hidle
  · intro id' c agent hagent
    rw [hlog]
    split
    · rename_i hid
      subst hid
      exact absurd hagent (hnobody c agent)
    · exact h.inTurn id' c agent hagent
  · intro id' c agent hagent
    rw [hlog]
    split
    · rename_i hid
      subst hid
      exact absurd hagent (hnobody c agent)
    · exact h.recent id' c agent hagent
  · intro id' c agent hagent
    rw [Dict.get?_set]
    split
    · exact Option.some_ne_none _
    · exact h.stored id' c agent hagent

theorem Inv.step (h : st.Inv) {a : HostAction} (hstep : st.step a = some st') : st.Settles a st' := by
  cases a with
  | resume id turns =>
    simp only [HostState.step] at hstep
    split at hstep
    · cases hstep
    · rename_i hnew
      obtain rfl := Option.some.inj hstep
      exact .of_inv (h.resume hnew turns) trivial
  | request c id message =>
    simp only [HostState.step] at hstep
    split at hstep
    · obtain rfl := Option.some.inj hstep
      exact .of_inv h trivial
    · obtain rfl := Option.some.inj hstep
      refine .of_inv (h.quiet rfl ?_) trivial
      rcases (st.agentFor c id).drain.insert_drain .nextTurn message with ⟨hidle, hphase, -⟩ | ⟨-, hphase, -⟩
      · rw [hphase, hidle]
        exact iff_of_false (by decide) (by decide)
      · rw [hphase]
  | drain c id a =>
    simp only [HostState.step] at hstep
    split at hstep
    · cases hstep
    · rename_i agent hagent
      obtain ⟨⟨agent', marks⟩, hagent', rfl⟩ := Option.map_eq_some_iff.mp hstep
      have hquiet : ¬agent.Starts a → st.Alone (.drain c id a) := by
        intro hnot other hother hstarts
        cases hagent.symm.trans hother
        exact absurd hstarts hnot
      rcases ServedAgent.step_cases hagent' with ⟨hstarts, hphase, hlast, rfl⟩ | ⟨hnot, hturn, hphase, hlast, rfl⟩ |
        ⟨hnot, hphase, hlast, rfl⟩
      · refine ⟨fun halone => ?_, fun hlaw => ?_, fun halone => ?_⟩
        · obtain ⟨hidle, hnumber⟩ := halone agent hagent hstarts
          exact h.started hphase hlast hidle hnumber
        · intro other hother _
          cases hagent.symm.trans hother
          exact h.broken hagent hlaw
        · obtain ⟨hidle, hnumber⟩ := halone agent hagent hstarts
          exact (h.started hphase hlast hidle hnumber).law
      · exact .of_inv (h.turnEnds hagent hturn hphase hlast) (hquiet hnot)
      · refine .of_inv (h.quiet ?_ ?_) (hquiet hnot)
        · rw [agentFor_eq hagent, hlast]
        · rw [agentFor_eq hagent, hphase]

end HostState

/-- In every run of a host in which no agent starts a turn but alone, the turns of every session come one after another and have
different numbers; and the next step keeps that exactly when it is such a step, too. -/
theorem turns_serial {st : HostState} (h : Machine.Reach HostState.step HostState.Alone {} st) :
    st.Law ∧ ∀ a st', st.step a = some st' → (st'.Law ↔ st.Alone a) := by
  have hstart : HostState.Inv {} := by
    refine ⟨fun _ => List.nodup_nil, fun _ _ => rfl, ?_, ?_, ?_⟩ <;> intro id c agent hagent <;> cases hagent
  have hinv := h.invariant hstart (fun _ _ _ hinv hok hstep => (hinv.step hstep).inv hok)
  exact ⟨hinv.law, fun a st' hstep => (hinv.step hstep).exact⟩

namespace HostRuns

/-- A user message. -/
def say (id : String) : Message := createUserMessage id [.text "go"]

/-- Two connections that run a prompt each on one session, at once. -/
def atOnce : List HostAction :=
  [.request 0 "chat-1" (say "m1"), .request 1 "chat-1" (say "m2"), .drain 0 "chat-1" .start, .drain 1 "chat-1" .start,
    .drain 0 "chat-1" .loop, .drain 1 "chat-1" .loop]

/-- The same, the second after the first one's turn is over. -/
def oneByOne : List HostAction :=
  [.request 0 "chat-1" (say "m1"), .request 1 "chat-1" (say "m2"), .drain 0 "chat-1" .start, .drain 0 "chat-1" .loop,
    .drain 0 "chat-1" .turnOver, .drain 1 "chat-1" .start, .drain 1 "chat-1" .loop]

/-- One connection that has delivered a prompt, and its drain at its loop. -/
def looping : HostState :=
  HostState.put {} 0 "chat-1" { drain := { DrainState.insert {} .nextTurn (say "m1") with phase := .looping }, lastTurn := 0 } []

theorem looping_reach : Machine.Reach HostState.step HostState.Alone {} looping := by
  refine .next (.drain 0 "chat-1" .start) (.next (.request 0 "chat-1" (say "m1")) .start trivial rfl) ?_ rfl
  rintro agent hagent ⟨-, drain, hdrain, hphase⟩
  cases hagent
  cases hdrain
  cases hphase

end HostRuns

open HostRuns in
/-- The one connection starts its turn. -/
theorem turns_serial_one_connection :
    ∃ st, looping.step (.drain 0 "chat-1" .loop) = some st ∧ st.log "chat-1" = [.started 1] ∧ st.Law := by
  refine ⟨_, rfl, rfl, ((turns_serial looping_reach).2 (.drain 0 "chat-1" .loop) _ rfl).mpr ?_⟩
  intro agent hagent _
  cases hagent
  refine ⟨fun c' agent' hagent' => ?_, rfl⟩
  unfold looping at hagent'
  rw [HostState.agents_put] at hagent'
  split at hagent'
  · cases hagent'
    decide
  · cases hagent'

open HostRuns in
/-- Two connections that share a session: their turns overlap, and one after the other they have the same number. -/
theorem shared_session_overlap :
    (∃ st, Machine.Reach HostState.step Machine.anyStep {} st ∧ st.log "chat-1" = [.started 1, .started 1] ∧ ¬st.Law) ∧
    ∃ st, Machine.Reach HostState.step Machine.anyStep {} st ∧ st.log "chat-1" = [.started 1, .ended 1, .started 1] ∧
      ¬st.Law := by
  constructor
  · have hrun : (Machine.exec HostState.step {} atOnce).map (fun st => st.log "chat-1") = some [.started 1, .started 1] := by
      decide +kernel
    obtain ⟨st, hst, hlog⟩ := Option.map_eq_some_iff.mp hrun
    refine ⟨st, Machine.Reach.start.exec hst, hlog, fun hlaw => ?_⟩
    have hscan := (hlaw "chat-1").1
    rw [hlog] at hscan
    cases hscan
  · have hrun : (Machine.exec HostState.step {} oneByOne).map (fun st => st.log "chat-1") =
        some [.started 1, .ended 1, .started 1] := by decide +kernel
    obtain ⟨st, hst, hlog⟩ := Option.map_eq_some_iff.mp hrun
    refine ⟨st, Machine.Reach.start.exec hst, hlog, fun hlaw => ?_⟩
    have hdistinct := (hlaw "chat-1").2
    rw [hlog] at hdistinct
    exact absurd hdistinct (by decide)

end Pydsh
