import Pydsh.Agent.Brackets
import Pydsh.Agent.Keeping
import Pydsh.Agent.ToolResults
import Pydsh.Session.Stats

/-!
# What `session_stats` counts as the time of tools

The unit counts, for a call, the time from its `tool/call` to its `tool/result` (`Timed.run`). The agent writes both when all the tools of
the step have run, one right after the other, and the times of events are in seconds; so what is counted is not the milliseconds that
the tools took, but for a log where the two happen to be as much (`tool_time_iff`).
-/

namespace Pydsh

/-! ## Calls of a log -/

/-- The events that the unit reads. -/
def EventType.isTimed : EventType → Bool
  | .stepStart | .assistantChunk | .assistantMessage | .toolCall | .toolResult | .stepEnd | .turnEnd => true
  | _ => false

/-- `tool/call` and `tool/result`. -/
def EventType.isTool : EventType → Bool
  | .toolCall | .toolResult => true
  | _ => false

theorem EventType.isTimed_of_tool {type : EventType} (h : type.isTool = true) : type.isTimed = true := by
  unfold isTool at h
  split at h
  · rfl
  · rfl
  · contradiction

theorem EventType.isTool_of_untimed {type : EventType} (h : type.isTimed = false) : type.isTool = false := by
  cases htool : type.isTool with
  | false => rfl
  | true =>
    rw [isTimed_of_tool htool] at h
    contradiction

/-- A call of a log: its id, and when its two entries were written. -/
structure ToolSpan where
  id : String
  called : Rat
  answered : Rat
  deriving DecidableEq

/-- What is counted for a call: nothing where it has no id. -/
def ToolSpan.counted (span : ToolSpan) : Rat := if span.id = "" then 0 else max 0 (span.answered - span.called)

/-- The id in the data of a `tool/call`. -/
def callIdOf : Json → String
  | .obj kvs =>
    match field? kvs "callId" with
    | some (.str id) => id
    | _ => ""
  | _ => ""

/-- The entries of calls, in pairs. -/
def pairUp : List SessionEvent → List ToolSpan
  | call :: result :: rest => ⟨callIdOf call.data, call.time, result.time⟩ :: pairUp rest
  | _ => []

/-- The calls of a log. -/
def toolSpans (events : List SessionEvent) : List ToolSpan := pairUp (events.filter (fun e => e.type.isTool))

/-! ## What the unit makes of an event -/

/-- The unit takes the event in any state, and it does not change the time of tools. -/
def Untold (e : SessionEvent) : Prop :=
  ∀ state, ∃ state', sessionStatsDefinition.next state e = .ok state' ∧ state'.toolMs = state.toolMs

theorem stats_next_none {state : Stats} {e : SessionEvent} (h : applyStats state e = .ok none) :
    sessionStatsDefinition.next state e = .ok state := by
  show (applyStats state e).map _ = _
  rw [h]
  rfl

theorem stats_next_some {state state' : Stats} {e : SessionEvent} (h : applyStats state e = .ok (some state')) :
    sessionStatsDefinition.next state e = .ok state' := by
  show (applyStats state e).map _ = _
  rw [h]
  rfl

theorem stats_next_untimed {e : SessionEvent} (h : e.type.isTimed = false) (state : Stats) :
    sessionStatsDefinition.next state e = .ok state := by
  refine stats_next_none ?_
  unfold applyStats
  split <;> first
    | rfl
    | (rename_i htype
       rw [htype] at h
       cases h)

theorem untold_stepStart {e : SessionEvent} (htype : e.type = .stepStart) {turn step : Json}
    (hturn : e.data.subscript "turn" = .ok turn) (hstep : e.data.subscript "step" = .ok step) : Untold e := by
  intro state
  refine ⟨{ state with openStep := some ⟨turn, step, e.time, none⟩ }, stats_next_some ?_, rfl⟩
  simp only [applyStats, htype, hturn, hstep, bind, Except.bind, pure, Except.pure]

theorem untold_stepEnd {e : SessionEvent} (htype : e.type = .stepEnd) {turn : Json}
    (hturn : e.data.subscript "turn" = .ok turn) : Untold e := by
  intro state
  let turns := if state.lastTurn.pyEq turn then state.turns else state.turns + 1
  refine ⟨{ state with turns := turns, steps := state.steps + 1, lastTurn := turn, openStep := none }, stats_next_some ?_, rfl⟩
  simp only [applyStats, htype, hturn, bind, Except.bind, pure, Except.pure, turns]

theorem untold_turnEnd {e : SessionEvent} (htype : e.type = .turnEnd) : Untold e := by
  intro state
  by_cases hpending : state.pendingCalls.size = 0
  · refine ⟨state, stats_next_none ?_, rfl⟩
    simp only [applyStats, htype, if_pos hpending]
    rfl
  · refine ⟨{ state with pendingCalls := .empty }, stats_next_some ?_, rfl⟩
    simp only [applyStats, htype, if_neg hpending]
    rfl

theorem isThisStep_obj (openStep : Option OpenStep) (kvs : List (String × Json)) : ∃ o, isThisStep openStep (.obj kvs) = .ok o := by
  cases openStep with
  | none => exact ⟨none, rfl⟩
  | some o =>
    simp only [isThisStep, Json.get, bind, Except.bind, pure, Except.pure]
    split
    · exact ⟨_, rfl⟩
    · exact ⟨none, rfl⟩

theorem untold_assistantMessage {e : SessionEvent} (htype : e.type = .assistantMessage) {kvs : List (String × Json)}
    (hdata : e.data = .obj kvs) : Untold e := by
  intro state
  obtain ⟨o, ho⟩ := isThisStep_obj state.openStep kvs
  cases o with
  | none =>
    refine ⟨state, stats_next_none ?_, rfl⟩
    simp only [applyStats, htype, hdata, ho, bind, Except.bind, pure, Except.pure]
  | some o =>
    let totals := state.toStatsTotals.message o e.time ((field? kvs "usage").getD .null)
    refine ⟨{ state with toStatsTotals := totals, openStep := none }, stats_next_some ?_, ?_⟩
    · simp only [applyStats, htype, hdata, ho, Json.get, bind, Except.bind, pure, Except.pure, totals]
    · simp only [totals, StatsTotals.message]
      split
      · rfl
      · split <;> rfl

theorem untold_assistantChunk {e : SessionEvent} (htype : e.type = .assistantChunk) {kvs : List (String × Json)}
    (hdata : e.data = .obj kvs) (visible : Bool) (hchunk : isTokenDelta ((field? kvs "chunk").getD .null) = .ok visible) :
    Untold e := by
  intro state
  obtain ⟨o, ho⟩ := isThisStep_obj state.openStep kvs
  cases o with
  | none =>
    refine ⟨state, stats_next_none ?_, rfl⟩
    simp only [applyStats, htype, hdata, ho, bind, Except.bind, pure, Except.pure]
  | some o =>
    cases hfirst : o.firstTokenAt.isSome with
    | true =>
      refine ⟨state, stats_next_none ?_, rfl⟩
      simp only [applyStats, htype, hdata, ho, hfirst, bind, Except.bind, pure, Except.pure, if_true]
    | false =>
      cases visible with
      | false =>
        refine ⟨state, stats_next_none ?_, rfl⟩
        simp only [applyStats, htype, hdata, ho, hfirst, Json.get, hchunk, bind, Except.bind, pure, Except.pure]
        rfl
      | true =>
        refine ⟨{ state with openStep := some { o with firstTokenAt := some e.time } }, stats_next_some ?_, rfl⟩
        simp only [applyStats, htype, hdata, ho, hfirst, Json.get, hchunk, bind, Except.bind, pure, Except.pure]
        rfl

/-! ## What the unit makes of a log -/

/-- A log whose calls are each answered before the unit reads anything else, and what else it takes. -/
inductive Timed : List SessionEvent → List ToolSpan → Prop where
  | nil : Timed [] []
  | other {events : List SessionEvent} {spans : List ToolSpan} {e : SessionEvent} :
      Timed events spans → e.type.isTool = false → Untold e → Timed (events ++ [e]) spans
  | call {events between : List SessionEvent} {spans : List ToolSpan} {call result : SessionEvent} {kvs : List (String × Json)}
      {id : String} :
      Timed events spans → call.type = .toolCall → call.data = .obj kvs → field? kvs "callId" = some (.str id) →
      (∀ e ∈ between, e.type.isTimed = false) → result.type = .toolResult →
      (result.data.get "message" >>= resultCallId) = .ok (.str id) →
      Timed (events ++ [call] ++ between ++ [result]) (spans ++ [⟨id, call.time, result.time⟩])

theorem stats_run_append {state : Stats} {xs ys : List SessionEvent} {state' : Stats}
    (h : sessionStatsDefinition.run state xs = .ok state') :
    sessionStatsDefinition.run state (xs ++ ys) = sessionStatsDefinition.run state' ys := by
  rw [ProjectionDefinition.run, List.foldlM_append, ← ProjectionDefinition.run, h]
  rfl

theorem stats_run_untimed (state : Stats) {events : List SessionEvent} (h : ∀ e ∈ events, e.type.isTimed = false) :
    sessionStatsDefinition.run state events = .ok state := by
  induction events with
  | nil => rfl
  | cons e events ih =>
    rw [ProjectionDefinition.run, List.foldlM_cons, stats_next_untimed (h e List.mem_cons_self)]
    exact ih (fun e' he' => h e' (List.mem_cons_of_mem _ he'))

theorem stats_run_singleton (state : Stats) (e : SessionEvent) :
    sessionStatsDefinition.run state [e] = sessionStatsDefinition.next state e := by
  rw [ProjectionDefinition.run, List.foldlM_cons]
  cases sessionStatsDefinition.next state e <;> rfl

/-- The time of a call, from its entry to that of its result, is counted. -/
theorem stats_run_call (state : Stats) {between : List SessionEvent} {call result : SessionEvent} {kvs : List (String × Json)}
    {id : String} (hcall : call.type = .toolCall) (hdata : call.data = .obj kvs) (hid : field? kvs "callId" = some (.str id))
    (hbetween : ∀ e ∈ between, e.type.isTimed = false) (hresult : result.type = .toolResult)
    (hanswer : (result.data.get "message" >>= resultCallId) = .ok (.str id)) :
    ∃ state', sessionStatsDefinition.run state ([call] ++ between ++ [result]) = .ok state' ∧
      state'.toolMs = state.toolMs + (⟨id, call.time, result.time⟩ : ToolSpan).counted := by
  let dispatched := { state with pendingCalls := state.pendingCalls.set (.str id) call.time }
  have hdispatched : sessionStatsDefinition.run state [call] = .ok dispatched := by
    rw [stats_run_singleton]
    refine stats_next_some ?_
    simp only [applyStats, hcall, hdata, Json.subscript, hid, Json.loads, PyValue.hashKey, bind, Except.bind, pure, Except.pure,
      dispatched]
  have hwaiting : sessionStatsDefinition.run state ([call] ++ between) = .ok dispatched := by
    rw [stats_run_append hdispatched, stats_run_untimed _ hbetween]
  have hget : dispatched.pendingCalls.get? (.str id) = some call.time := by
    rw [Dict.get?_set, if_pos rfl]
  obtain ⟨message, hmessage, hread⟩ := Except.bind_eq_ok_iff.mp hanswer
  rw [stats_run_append hwaiting, stats_run_singleton]
  by_cases hempty : id = ""
  · refine ⟨dispatched, stats_next_none ?_, ?_⟩
    · simp only [applyStats, hresult, hmessage, hread, hempty, Json.loads, PyValue.truthy, bind, Except.bind, pure, Except.pure]
      rfl
    · rw [ToolSpan.counted, if_pos hempty, add_zero]
  · let counted := state.toolMs + max 0 (result.time - call.time)
    refine ⟨{ dispatched with toolMs := counted, pendingCalls := dispatched.pendingCalls.pop (.str id) }, stats_next_some ?_, ?_⟩
    · have htruthy : (id != "") = true := bne_iff_ne.mpr hempty
      simp only [applyStats, hresult, hmessage, hread, Json.loads, PyValue.truthy, htruthy, PyValue.hashKey, hget, bind, Except.bind,
        pure, Except.pure, if_true]
      rfl
    · rw [ToolSpan.counted, if_neg hempty]

/-- The time of tools that the unit has for a log is what it counts for each call. -/
theorem Timed.run {events : List SessionEvent} {spans : List ToolSpan} (h : Timed events spans) :
    ∃ state, sessionStatsDefinition.run sessionStatsDefinition.init events = .ok state ∧
      state.toolMs = (spans.map ToolSpan.counted).sum := by
  induction h with
  | nil => exact ⟨_, rfl, rfl⟩
  | other _ _ huntold ih =>
    obtain ⟨state, hrun, hsum⟩ := ih
    obtain ⟨state', hnext, hsame⟩ := huntold state
    exact ⟨state', by rw [stats_run_append hrun, stats_run_singleton, hnext], hsame.trans hsum⟩
  | call _ hcall hdata hid hbetween hresult hanswer ih =>
    obtain ⟨state, hrun, hsum⟩ := ih
    obtain ⟨state', hrun', hcounted⟩ := stats_run_call state hcall hdata hid hbetween hresult hanswer
    refine ⟨state', ?_, ?_⟩
    · rw [List.append_assoc, List.append_assoc, stats_run_append hrun, ← List.append_assoc, hrun']
    · rw [hcounted, hsum, List.map_append, List.sum_append, List.map_singleton, List.sum_singleton]

theorem pairUp_append {events : List SessionEvent} (h : events.length % 2 = 0) (call result : SessionEvent) :
    pairUp (events ++ [call, result]) = pairUp events ++ [⟨callIdOf call.data, call.time, result.time⟩] := by
  match events with
  | [] => rfl
  | [e] => simp at h
  | e :: e' :: events =>
    simp only [List.length_cons] at h
    rw [List.cons_append, List.cons_append, pairUp, pairUp, pairUp_append (by omega), List.cons_append]

theorem Timed.toolSpans_eq {events : List SessionEvent} {spans : List ToolSpan} (h : Timed events spans) :
    toolSpans events = spans := by
  have hpairs : (events.filter (fun e => e.type.isTool)).length % 2 = 0 ∧ toolSpans events = spans := by
    induction h with
    | nil => exact ⟨rfl, rfl⟩
    | @other events spans e _ htool _ ih =>
      have hfilter : (events ++ [e]).filter (fun e => e.type.isTool) = events.filter (fun e => e.type.isTool) := by
        rw [List.filter_append, List.filter_cons_of_neg (by simp [htool]), List.filter_nil, List.append_nil]
      rw [toolSpans, hfilter]
      exact ih
    | @call events between spans call result kvs id _ hcall hdata hid hbetween hresult _ ih =>
      have hnone : between.filter (fun e => e.type.isTool) = [] := by
        rw [List.filter_eq_nil_iff]
        intro e he htool
        rw [EventType.isTool_of_untimed (hbetween e he)] at htool
        contradiction
      have hfilter : (events ++ [call] ++ between ++ [result]).filter (fun e => e.type.isTool) =
          events.filter (fun e => e.type.isTool) ++ [call, result] := by
        have hfirst : [call].filter (fun e => e.type.isTool) = [call] := List.filter_cons_of_pos (by rw [hcall]; rfl)
        have hlast : [result].filter (fun e => e.type.isTool) = [result] := List.filter_cons_of_pos (by rw [hresult]; rfl)
        rw [List.filter_append, List.filter_append, List.filter_append, hnone, hfirst, hlast, List.append_nil, List.append_assoc]
        rfl
      have hcallId : callIdOf call.data = id := by
        rw [hdata]
        simp only [callIdOf, hid]
      rw [toolSpans, hfilter, pairUp_append ih.1, hcallId]
      refine ⟨?_, by rw [← toolSpans, ih.2]⟩
      rw [List.length_append]
      have := ih.1
      simp only [List.length_cons, List.length_nil]
      omega
  exact hpairs.2

/-! ## What an agent writes -/

/-- The log is timed. -/
def Session.IsTimed (s : Session) : Prop := ∃ spans, Timed s.events spans

/-- No other code appends what the unit reads. -/
structure Loop.OwnsTimed (l : Loop) : Prop where
  listeners : ∀ seq, ∀ c ∈ l.listeners seq, c.eventType.isTimed = false
  others : ∀ seq, ∀ c ∈ l.others seq, c.eventType.isTimed = false

theorem untold_of_untimed {e : SessionEvent} (h : e.type.isTimed = false) : Untold e :=
  fun state => ⟨state, stats_next_untimed h state, rfl⟩

/-- Appends of events that the unit does not read add such events. -/
theorem appends_untimed (s : Session) {calls : List AppendCall} (h : ∀ c ∈ calls, c.eventType.isTimed = false) :
    ∃ events, (s.appends calls).events = s.events ++ events ∧ ∀ e ∈ events, e.type.isTimed = false := by
  induction calls generalizing s with
  | nil => exact ⟨[], (List.append_nil _).symm, fun e he => absurd he List.not_mem_nil⟩
  | cons c calls ih =>
    obtain ⟨rest, hrest, huntimed⟩ := ih (s.append c).2 (fun c' hc' => h c' (List.mem_cons_of_mem _ hc'))
    have happends : s.appends (c :: calls) = (s.append c).2.appends calls := rfl
    rw [happends, hrest]
    obtain hsame | ⟨j, hmore⟩ := append_events s c
    · exact ⟨rest, by rw [hsame], huntimed⟩
    · refine ⟨c.event s j :: rest, by rw [hmore, List.append_assoc, List.singleton_append], ?_⟩
      exact List.forall_mem_cons.mpr ⟨h c List.mem_cons_self, huntimed⟩

/-- A timed log goes on with events that the unit does not read. -/
theorem Timed.append_untimed {events more : List SessionEvent} {spans : List ToolSpan} (h : Timed events spans)
    (hmore : ∀ e ∈ more, e.type.isTimed = false) : Timed (events ++ more) spans := by
  induction more using List.reverseRecOn with
  | nil => rwa [List.append_nil]
  | append_singleton more e ih =>
    have he := hmore e (List.mem_append_right _ (List.mem_singleton_self e))
    rw [← List.append_assoc]
    exact .other (ih (fun e' he' => hmore e' (List.mem_append_left _ he'))) (EventType.isTool_of_untimed he) (untold_of_untimed he)

theorem Session.IsTimed.appends {s : Session} (h : s.IsTimed) {calls : List AppendCall}
    (hcalls : ∀ c ∈ calls, c.eventType.isTimed = false) : (s.appends calls).IsTimed := by
  obtain ⟨spans, hspans⟩ := h
  obtain ⟨events, hevents, huntimed⟩ := appends_untimed s hcalls
  exact ⟨spans, hevents ▸ hspans.append_untimed huntimed⟩

/-- A document that is a dict of known values is one with their documents. -/
theorem field?_of_loads {j : Json} {kvs : List (String × PyValue)} (h : j.loads = .record kvs) :
    ∃ fields, j = .obj fields ∧ ∀ key, (field? fields key).map Json.loads = field? kvs key := by
  cases j with
  | obj fields =>
    refine ⟨fields, rfl, fun key => ?_⟩
    rw [Json.loads, PyValue.record, PyValue.dict.injEq] at h
    induction fields generalizing kvs with
    | nil =>
      cases kvs with
      | nil => rfl
      | cons kv kvs => cases h
    | cons field fields ih =>
      cases kvs with
      | nil => cases h
      | cons kv kvs =>
        obtain ⟨k, v⟩ := field
        obtain ⟨k', v'⟩ := kv
        rw [Json.loadsFields, List.map_cons] at h
        obtain ⟨hfirst, hrest⟩ := List.cons.inj h
        obtain ⟨hkey, rfl⟩ := Prod.mk.inj hfirst
        cases hkey
        rw [field?_cons, field?_cons]
        split
        · rfl
        · exact ih hrest
  | _ => cases h

theorem encodeAttrs_eq (fields : List (String × PyValue)) :
    PyValue.dict (encodeAttrs fields) = .record (fields.map (fun kv => (kv.1, encodePayload kv.2))) := by
  rw [PyValue.record, PyValue.dict.injEq]
  induction fields with
  | nil => rfl
  | cons kv fields ih =>
    obtain ⟨k, v⟩ := kv
    rw [encodeAttrs, ih]
    rfl

namespace Loop

variable {l : Loop}

/-- An event that the loop writes is timed if it is not a tool's and the unit takes it whatever its document. -/
theorem OwnsTimed.write_keeps (hl : l.OwnsTimed) {type : EventType} (htool : type.isTool = false) {data : PyValue}
    (h : ∀ e : SessionEvent, e.type = type → e.data.loads = data → Untold e) : Effect.Keeps Session.IsTimed (l.write type data) := by
  intro s hs
  rw [l.write_snd]
  obtain ⟨spans, hspans⟩ := hs.appends (hl.others s.seq)
  rcases append_cases (l.interleave s) { eventType := type, data, time := l.clock (l.interleave s).seq } with
    ⟨-, e, happ⟩ | ⟨j, hj, -, happ⟩ | ⟨j, first, last, hj, hr, -, -⟩ | ⟨j, e, hj, hr, -⟩
  · rw [happ]
    exact ⟨spans, hspans⟩
  · rw [happ]
    have hdata := (validateLosslessJson_eq_ok_iff _ j).mp hj.lossless
    refine ⟨spans, ?_⟩
    rw [Session.addEvent_events]
    exact .other hspans htool (h _ rfl hdata.symm)
  · cases hr
  · cases hr.1

/-- An event with a document is in the log, behind what other code appended. -/
theorem OwnsTimed.write_loads (hl : l.OwnsTimed) (type : EventType) (hknown : type.isKnown = true) (j : Json) (s : Session) :
    (l.write type j.loads s).1 = .ok () ∧ ∃ between e, (l.write type j.loads s).2.events = s.events ++ between ++ [e] ∧
      (∀ e' ∈ between, e'.type.isTimed = false) ∧ e.type = type ∧ e.data = j := by
  obtain ⟨between, hbetween, huntimed⟩ := appends_untimed s (hl.others s.seq)
  refine ⟨(l.write_fst s hknown _).trans (l.gate_loads j), between, ?_⟩
  rw [l.write_snd, Loop.interleave, ← hbetween]
  rcases append_cases (s.appends (l.others s.seq))
    { eventType := type, data := j.loads, time := l.clock (s.appends (l.others s.seq)).seq } with
    ⟨hno, -⟩ | ⟨k, hk, -, happ⟩ | ⟨k, first, last, hk, hr, -, -⟩ | ⟨k, e, hk, hr, -⟩
  · exact absurd ⟨fun hr => absurd hr Bool.false_ne_true, hknown, validateLosslessJson_loads j⟩ (hno j)
  · have hdata : k = j := (Json.loads_injective ((validateLosslessJson_eq_ok_iff _ k).mp hk.lossless)).symm
    exact ⟨_, by rw [happ, Session.addEvent_events], huntimed, rfl, hdata⟩
  · cases hr
  · cases hr.1

theorem resultCallId_resultMessage (id : String) (call : ToolCallBlock) (outcome : ToolOutcome) :
    resultCallId (resultMessage id call outcome).toJson = .ok (.str call.id) := by
  simp [resultCallId, resultMessage, createUserMessage, Message.toJson, ContentBlock.toJson, ContentBlock.toJsonList, blockCallId]

/-- Each call that ran is in the log with its result right behind it. -/
theorem OwnsTimed.writeResults_timed (hl : l.OwnsTimed) (turn step : Nat) (w : StepWorld) (calls : List ToolCallBlock) {s : Session}
    {spans : List ToolSpan} (h : Timed s.events spans) :
    ∃ more, Timed (l.writeResults turn step w calls s).2.events (spans ++ more) ∧ more.map (·.id) = calls.map (·.id) := by
  induction calls generalizing s spans with
  | nil => exact ⟨[], by rw [List.append_nil]; exact h, rfl⟩
  | cons call calls ih =>
    let callData := Json.obj [("turn", .int turn), ("step", .int step), ("callId", .str call.id), ("name", .str call.name),
      ("arguments", .str call.arguments)]
    let resultData := Json.obj [("turn", .int turn), ("step", .int step),
      ("message", (resultMessage (w.resultId call) call (w.outcome call)).toJson), ("error", .bool (w.outcome call).isError),
      ("meta", .null)]
    obtain ⟨hok, before, called, hcalled, hbefore, htype, hdata⟩ := hl.write_loads .toolCall rfl callData s
    obtain ⟨hok', between, answered, hanswered, hbetween, htype', hdata'⟩ :=
      hl.write_loads .toolResult rfl resultData (l.write .toolCall callData.loads s).2
    have hspan : Timed (l.write .toolResult resultData.loads (l.write .toolCall callData.loads s).2).2.events
        (spans ++ [⟨call.id, called.time, answered.time⟩]) := by
      rw [hanswered, hcalled]
      refine .call (h.append_untimed hbefore) htype hdata (by simp) hbetween htype' ?_
      have hmessage : resultData.get "message" = .ok (resultMessage (w.resultId call) call (w.outcome call)).toJson := by
        simp [resultData, Json.get]
      rw [hdata', hmessage]
      exact resultCallId_resultMessage (w.resultId call) call (w.outcome call)
    obtain ⟨more, hmore, hids⟩ := ih hspan
    refine ⟨⟨call.id, called.time, answered.time⟩ :: more, ?_, by rw [List.map_cons, List.map_cons, hids]⟩
    have hstate : (l.writeResults turn step w (call :: calls) s).2 =
        (l.writeResults turn step w calls (l.write .toolResult resultData.loads (l.write .toolCall callData.loads s).2).2).2 := by
      rw [← Effect.state_return_after (l.writeResults turn step w calls)
        (fun results => resultMessage (w.resultId call) call (w.outcome call) :: results)]
      have hrun : l.write .toolCall callData.loads s = (.ok (), (l.write .toolCall callData.loads s).2) := Prod.ext hok rfl
      have hrun' : l.write .toolResult resultData.loads (l.write .toolCall callData.loads s).2 =
          (.ok (), (l.write .toolResult resultData.loads (l.write .toolCall callData.loads s).2).2) := Prod.ext hok' rfl
      generalize (l.write .toolCall callData.loads s).2 = s₁ at hrun hrun'
      generalize (l.write .toolResult resultData.loads s₁).2 = s₂ at hrun'
      simp only [Loop.writeResults, Bind.bind]
      rw [hrun]
      simp only
      rw [hrun']
    rw [hstate]
    rwa [List.append_assoc, List.singleton_append] at hmore

section Turn

variable (hl : l.OwnsTimed)

include hl

theorem OwnsTimed.untimed_keeps {type : EventType} (huntimed : type.isTimed = false) (data : PyValue) :
    Effect.Keeps Session.IsTimed (l.write type data) :=
  hl.write_keeps (EventType.isTool_of_untimed huntimed) (fun _ htype _ => untold_of_untimed (htype ▸ huntimed))

theorem OwnsTimed.chunk_keeps (turn step : Nat) (chunk : StreamChunk) : Effect.Keeps Session.IsTimed
    (l.write .assistantChunk (.record [("turn", .int turn), ("step", .int step), ("chunk", encodePayload chunk.toPy)])) := by
  refine hl.write_keeps rfl (fun e htype hdata => ?_)
  obtain ⟨fields, hobj, hfields⟩ := field?_of_loads hdata
  obtain ⟨c, hc, hloads⟩ := Option.map_eq_some_iff.mp (hfields "chunk")
  have hencoded : encodePayload chunk.toPy = .record _ := encodeAttrs_eq _
  obtain ⟨attrs, rfl, hattrs⟩ := field?_of_loads (hloads.trans hencoded)
  obtain ⟨tag, htag, hloads'⟩ := Option.map_eq_some_iff.mp (hattrs "type")
  have hkey : (((field? attrs "type").getD .null).loads).hashKey = .ok (.str chunk.type.value) := by
    rw [htag, Option.getD_some, hloads']
    rfl
  refine untold_assistantChunk htype hobj (decide (HashKey.str chunk.type.value ∈ tokenDeltaTags.map HashKey.str)) ?_
  rw [hc, Option.getD_some, isTokenDelta, hkey]
  rfl

theorem OwnsTimed.reply_keeps (turn step : Nat) (w : StepWorld) (a : BlockAssembler) :
    Effect.Keeps Session.IsTimed (l.write .assistantMessage (l.replyData turn step w a)) := by
  refine hl.write_keeps rfl (fun e htype hdata => ?_)
  obtain ⟨fields, hobj, -⟩ := field?_of_loads hdata
  exact untold_assistantMessage htype hobj

theorem OwnsTimed.writeResults_keeps (turn step : Nat) (w : StepWorld) (calls : List ToolCallBlock) :
    Effect.Keeps Session.IsTimed (l.writeResults turn step w calls) := by
  rintro s ⟨spans, hspans⟩
  obtain ⟨more, hmore, -⟩ := hl.writeResults_timed turn step w calls hspans
  exact ⟨spans ++ more, hmore⟩

theorem OwnsTimed.stepStart_keeps (turn step : Nat) :
    Effect.Keeps Session.IsTimed (l.write .stepStart (Json.obj [("turn", .int turn), ("step", .int step)]).loads) := by
  refine hl.write_keeps rfl (fun e htype hdata => ?_)
  exact untold_stepStart htype (by rw [Json.loads_injective hdata]; rfl) (by rw [Json.loads_injective hdata]; rfl)

theorem OwnsTimed.stepEnd_keeps (turn step : Nat) :
    Effect.Keeps Session.IsTimed (l.write .stepEnd (Json.obj [("turn", .int turn), ("step", .int step)]).loads) := by
  refine hl.write_keeps rfl (fun e htype hdata => ?_)
  exact untold_stepEnd htype (by rw [Json.loads_injective hdata]; rfl)

theorem OwnsTimed.endTurn_keeps (turn : Nat) (reason : PyValue) : Effect.Keeps Session.IsTimed (l.endTurn turn reason) :=
  hl.write_keeps rfl (fun _ htype _ => untold_turnEnd htype)

theorem OwnsTimed.keeping : l.Keeping Session.IsTimed where
  listens s hs := hs.appends (hl.listeners s.seq)
  routes _ hs := hs
  turnStart _ := hl.untimed_keeps rfl _
  message _ := hl.untimed_keeps rfl _
  stepStart := hl.stepStart_keeps
  chunk := hl.chunk_keeps
  reply := hl.reply_keeps
  tools := hl.writeResults_keeps
  stepEnd := hl.stepEnd_keeps
  turnEnd := hl.endTurn_keeps

theorem OwnsTimed.runTurn_keeps (turn : Nat) (claimed : List Message) (world : Nat → StepWorld) :
    Effect.Keeps Session.IsTimed (l.runTurn turn claimed world) :=
  hl.keeping.runTurn turn claimed world

end Turn

end Loop

/-! ## Runs of an agent -/

/-- Between turns, too, no other code appends what the unit reads. -/
def AgentRun.Untimed (_ : AgentRun) : AgentRun.Action → Prop
  | .turn _ _ => True
  | .other calls => ∀ c ∈ calls, c.eventType.isTimed = false

theorem AgentRun.timed {l : Loop} (hl : l.OwnsTimed) {id : String} {header : SessionHeader} {st : AgentRun}
    (h : Machine.Reach (AgentRun.step l) AgentRun.Untimed ⟨Session.new id header, 0⟩ st) : st.session.IsTimed := by
  refine h.invariant (P := fun st => st.session.IsTimed) ⟨[], .nil⟩ ?_
  intro st action st' htimed huntimed hstep
  cases action with
  | turn claimed world =>
    obtain rfl := Option.some.inj hstep
    exact hl.runTurn_keeps _ claimed world st.session htimed
  | other calls =>
    simp only [AgentRun.step] at hstep
    split at hstep
    · obtain rfl := Option.some.inj hstep
      exact htimed.appends huntimed
    · cases hstep

/-- The seconds between the two entries of each call of a log. -/
def secondsBetween (events : List SessionEvent) : Rat := ((toolSpans events).map ToolSpan.counted).sum

/-- The unit takes a timed log, and its `tool_ms` are the seconds between the entries. -/
theorem Session.IsTimed.toolMs {s : Session} (h : s.IsTimed) :
    ∃ state, sessionStatsDefinition.run sessionStatsDefinition.init s.events = .ok state ∧ state.toolMs = secondsBetween s.events := by
  obtain ⟨spans, hspans⟩ := h
  rw [secondsBetween, hspans.toolSpans_eq]
  exact hspans.run

namespace OneTool

/-- A clock that goes on by some seconds from one event to the next. -/
def ticking (seconds : Rat) : Loop := { loop with clock := fun seq => seconds * seq }

/-- An agent with one turn, which runs a tool. -/
def ran (seconds : Rat) : AgentRun := ⟨((ticking seconds).runTurn 1 go toolTurn session).2, 1⟩

end OneTool

end Pydsh
