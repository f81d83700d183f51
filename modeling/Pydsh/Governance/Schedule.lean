import Pydsh.Governance.ScheduleDomain
import Pydsh.Lib.History
import Pydsh.Lib.Machine
import Pydsh.Message.Payload
import Pydsh.Session.Logged
import Pydsh.Session.Replay

/-!
# Reminders are delivered when they are due

`governance/schedule.py` over one session: reminders are created and deleted, and a tick delivers what is due by the clock reading it
is given, whatever the readings before it were. A reminder is delivered only if it stands: it was created, not deleted since, and a
one-shot not delivered since; a repeating one is due so many seconds after the tick that delivered it last (`reminders_on_time`).
A timer only decides when `tick` is called.
-/

namespace Pydsh

/-- What Python does with a target that is a float: the difference of an int and the float, and the text of the float divided by
1000 and rounded down. -/
structure FloatClock where
  minus : Int → Rat → Rat
  thousands : Rat → String

/-- `[e.data for e in session.events if e.type == SCHEDULE_CHANGE_EVENT]`. -/
def scheduleChanges (s : Session) : List Json :=
  (s.events.filter (fun e => decide (e.type = .scheduleChange))).map (·.data)

/-- `ScheduleRuntime.state`. -/
def scheduleState (s : Session) (now : Int) : Except ScheduleError Schedules := foldSchedules (scheduleChanges s) now

/-- The call that puts a change into the log. -/
def scheduleCall (change : Json) (time : Rat) : AppendCall :=
  { eventType := .scheduleChange
    data := change.loads
    time }

/-- `spec.get(key)`, unless it is `None`. -/
def specified (spec : PyDict) (key : String) : Option PyValue :=
  (PyDict.get? spec key).filter (fun value => !value.isNone)

/-- The record that `create` makes of a specification. -/
def specRecord (spec : PyDict) (now : Int) (id : ScheduleId) : Except ScheduleError ScheduleRecord :=
  let prompt := (PyDict.get? spec "prompt").getD (.str "")
  match specified spec "every_seconds", specified spec "after_seconds", specified spec "at_ms" with
  | some seconds, _, _ => createEveryRecord prompt seconds now id
  | none, some seconds, _ => createAfterRecord prompt seconds now id
  | none, none, some instant => createAtRecord prompt instant now id
  | none, none, none => .error .noRule

/-- `ScheduleRuntime.create`. -/
def createSchedule (s : Session) (spec : PyDict) (now : Int) (id : ScheduleId) (time : Rat) :
    Except ScheduleError ScheduleRecord × Session :=
  match specRecord spec now id with
  | .error e => (.error e, s)
  | .ok record =>
    match s.append (scheduleCall (createChange record) time) with
    | (.error e, s) => (.error (.append e), s)
    | (.ok _, s) => (.ok record, s)

/-- `ScheduleRuntime.delete`: whether there was such a reminder. -/
def deleteSchedule (s : Session) (id : String) (now : Int) (time : Rat) : Except ScheduleError Bool × Session :=
  match scheduleState s now with
  | .error e => (.error e, s)
  | .ok folded =>
    if (folded.active ++ folded.overdue).any (fun r => decide (r.id = id)) then
      match s.append (scheduleCall (deleteChange id) time) with
      | (.error e, s) => (.error (.append e), s)
      | (.ok _, s) => (.ok true, s)
    else (.ok false, s)

/-- `late`: the milliseconds since the target. -/
def lateness (clock : FloatClock) (stamp : Int) : Json → Json
  | .bool b => .int (stamp - b.toInt)
  | .int i => .int (stamp - i)
  | .float q => .float (clock.minus stamp q)
  | target => target

/-- The seconds a delivery tells it is late; `none` within the first one. -/
def lateSeconds (clock : FloatClock) : Json → Option String
  | .int late => if 1000 < late then some (toString (late / 1000)) else none
  | .float late => if 1000 < late then some (clock.thousands late) else none
  | _ => none

/-- What a delivery says. -/
def reminderText (clock : FloatClock) (prompt : String) (late : Json) : String :=
  match lateSeconds clock late with
  | some seconds => prompt ++ "\n\n[this reminder was due " ++ seconds ++ "s ago]"
  | none => prompt

/-- The message of a delivery. -/
def reminderMessage (clock : FloatClock) (record : ScheduleRecord) (late : Json) (messageId : String) : Message :=
  createUserMessage messageId [.text (reminderText clock record.prompt late)]
    { kind := "plugin"
      plugin := "schedule"
      form := "reminder" }

/-- The call that puts a message of the user into the log. -/
def userCall (message : Message) (time : Rat) : AppendCall :=
  { eventType := .userMessage
    data := encodePayload message.toPy
    time }

/-- `next_at`: when a repeating reminder that is delivered comes again. -/
def nextAt (rule : ScheduleRule) (stamp : Int) : Option Int :=
  match rule with
  | .every seconds _ => some (stamp + seconds * 1000)
  | .at | .after => none

/-- A delivery: the record as it was, the milliseconds it was late, and the message. -/
structure Delivery where
  record : ScheduleRecord
  late : Json
  message : Message

/-- The delivery of a record at a clock reading. -/
def deliveryOf (clock : FloatClock) (stamp : Int) (messageId : String) (record : ScheduleRecord) : Delivery :=
  { record
    late := lateness clock stamp record.scheduledAt
    message := reminderMessage clock record (lateness clock stamp record.scheduledAt) messageId }

/-- The loop of `tick`: the message of each due record, then its `fired` change. -/
def deliverAll (clock : FloatClock) (stamp : Int) (messageId : String → String) (time : Rat) :
    List ScheduleRecord → Session → Except ScheduleError (List Delivery) × Session
  | [], s => (.ok [], s)
  | record :: rest, s =>
    if (record.scheduledAt.instant?.map (fun at_ => decide ((stamp : Rat) < at_))).getD false then
      deliverAll clock stamp messageId time rest s
    else
      match s.append (userCall (deliveryOf clock stamp (messageId record.id) record).message time) with
      | (.error e, s) => (.error (.append e), s)
      | (.ok _, s) =>
        match s.append (scheduleCall (firedChange record.id stamp (nextAt record.rule stamp)) time) with
        | (.error e, s) => (.error (.append e), s)
        | (.ok _, s) =>
          match deliverAll clock stamp messageId time rest s with
          | (.error e, s) => (.error e, s)
          | (.ok delivered, s) => (.ok (deliveryOf clock stamp (messageId record.id) record :: delivered), s)

/-- `tick`; the messages of the deliveries have fresh ids. -/
def tick (clock : FloatClock) (s : Session) (stamp : Int) (messageId : String → String) (time : Rat) :
    Except ScheduleError (List Delivery) × Session :=
  match scheduleState s stamp with
  | .error e => (.error e, s)
  | .ok folded => deliverAll clock stamp messageId time folded.overdue s

/-! ## Runs -/

/-- What the service has done: the change it wrote, and the message of a delivery. -/
inductive Done where
  | created (record : ScheduleRecord)
  | deleted (id : String)
  | delivered (delivery : Delivery) (stamp : Int)

/-- A session, what the service has done to it, and whether its last call raised. -/
structure ScheduleRun where
  session : Session
  history : List Done := []
  raised : Option ScheduleError := none

/-- What happens: the service is called; other code appends; a new process goes on from the stored session. `now` and `stamp` are what
the clock reads, `time` what it reads where the events are made. -/
inductive ScheduleAction where
  | create (spec : PyDict) (now : Int) (id : ScheduleId) (time : Rat)
  | delete (id : String) (now : Int) (time : Rat)
  | tick (stamp : Int) (messageId : String → String) (time : Rat)
  | append (call : AppendCall)
  | resume

namespace ScheduleRun

/-- A new session. -/
def start (id : String) (header : SessionHeader) : ScheduleRun := { session := .new id header }

/-- A call of the service ends. -/
def ends {α : Type} (s : ScheduleRun) (did : α → List Done) : Except ScheduleError α × Session → ScheduleRun
  | (.error e, session) => { s with session, raised := some e }
  | (.ok result, session) => { session, history := s.history ++ did result }

/-- What an action does; `none` where it cannot happen. -/
def step (clock : FloatClock) (s : ScheduleRun) : ScheduleAction → Option ScheduleRun
  | .create spec now id time => some (s.ends (fun record => [.created record]) (createSchedule s.session spec now id time))
  | .delete id now time =>
    some (s.ends (fun deleted => if deleted then [.deleted id] else []) (deleteSchedule s.session id now time))
  | .tick stamp messageId time =>
    some (s.ends (fun delivered => delivered.map (fun d => .delivered d stamp)) (Pydsh.tick clock s.session stamp messageId time))
  | .append call =>
    if call.eventType = .scheduleChange then none else some { s with session := (s.session.append call).2, raised := none }
  | .resume =>
    match Session.fromJson s.session.toJson with
    | .ok session => some { s with session, raised := none }
    | .error _ => none

end ScheduleRun

/-! ## Reminders that stand -/

/-- The id that something done is about. -/
def Done.id : Done → String
  | .created record => record.id
  | .deleted id => id
  | .delivered delivery _ => delivery.record.id

/-- The change that something done put into the log. -/
def Done.change : Done → Json
  | .created record => createChange record
  | .deleted id => deleteChange id
  | .delivered delivery stamp => firedChange delivery.record.id stamp (nextAt delivery.record.rule stamp)

/-- The entries that something done put into the log. -/
def Done.entries : Done → List LogEntry
  | .delivered delivery stamp =>
    [(.userMessage, delivery.message.toJson), (.scheduleChange, Done.change (.delivered delivery stamp))]
  | done => [(.scheduleChange, done.change)]

/-- A reminder that was created stands after what was done since, with a record that is due at an instant. -/
structure Stands (created : ScheduleRecord) (since : List Done) (record : ScheduleRecord) (due : Int) : Prop where
  same : created.id = record.id ∧ created.rule = record.rule ∧ created.prompt = record.prompt
  first : ∃ first, created.scheduledAt = .int first ∧ first ≤ due
  instant : record.scheduledAt = .int due
  notDeleted : .deleted record.id ∉ since
  notReplaced : ∀ other, .created other ∈ since → other.id ≠ record.id
  repeats : ∀ delivery stamp, .delivered delivery stamp ∈ since → delivery.record.id = record.id →
    ∃ seconds floor, record.rule = .every seconds floor ∧ stamp + seconds * 1000 ≤ due

/-- A reminder stands after a history. -/
def Standing (history : List Done) (record : ScheduleRecord) (due : Int) : Prop :=
  ∃ earlier created since, history = earlier ++ .created created :: since ∧ Stands created since record due

theorem Standing.created {history : List Done} {record : ScheduleRecord} {due : Int} (h : record.scheduledAt = .int due) :
    Standing (history ++ [.created record]) record due := by
  refine ⟨history, record, [], rfl, ⟨rfl, rfl, rfl⟩, ⟨due, h, Int.le_refl due⟩, h, ?_, ?_, ?_⟩
  · simp
  · simp
  · simp

theorem Standing.other {history : List Done} {record : ScheduleRecord} {due : Int} (h : Standing history record due) {done : Done}
    (hdone : done.id ≠ record.id) : Standing (history ++ [done]) record due := by
  obtain ⟨earlier, created, since, rfl, hstands⟩ := h
  refine ⟨earlier, created, since ++ [done], by simp, hstands.same, hstands.first, hstands.instant, ?_, ?_, ?_⟩
  · intro hmem
    rcases List.mem_append.mp hmem with hmem | hmem
    · exact hstands.notDeleted hmem
    · obtain rfl := List.mem_singleton.mp hmem
      exact hdone rfl
  · intro other hmem
    rcases List.mem_append.mp hmem with hmem | hmem
    · exact hstands.notReplaced other hmem
    · obtain rfl := List.mem_singleton.mp hmem
      exact hdone
  · intro delivery stamp hmem hid
    rcases List.mem_append.mp hmem with hmem | hmem
    · exact hstands.repeats delivery stamp hmem hid
    · obtain rfl := List.mem_singleton.mp hmem
      exact absurd hid hdone

/-- A repeating reminder that is delivered is due again, its interval after the tick. -/
theorem Standing.fired {history : List Done} {record : ScheduleRecord} {due stamp seconds : Int} (h : Standing history record due)
    (hdue : due ≤ stamp) {floor : minEveryIntervalSeconds ≤ seconds} (hrule : record.rule = .every seconds floor)
    {delivery : Delivery} :
    Standing (history ++ [.delivered delivery stamp]) { record with scheduledAt := .int (stamp + seconds * 1000) }
      (stamp + seconds * 1000) := by
  have hpositive : 300 ≤ seconds := floor
  obtain ⟨earlier, created, since, rfl, hstands⟩ := h
  obtain ⟨first, hfirst, hle⟩ := hstands.first
  refine ⟨earlier, created, since ++ [.delivered delivery stamp], by simp, hstands.same, ⟨first, hfirst, by omega⟩, rfl, ?_, ?_, ?_⟩
  · simpa using hstands.notDeleted
  · intro other hmem
    exact hstands.notReplaced other (by simpa using hmem)
  · intro before stamp' hmem hid
    rcases List.mem_append.mp hmem with hmem | hmem
    · obtain ⟨seconds', floor', hrule', hle'⟩ := hstands.repeats before stamp' hmem hid
      exact ⟨seconds', floor', hrule', by omega⟩
    · cases List.mem_singleton.mp hmem
      exact ⟨seconds, floor, hrule, Int.le_refl _⟩

/-- A delivery at a clock reading of a record, of the reminder that was created before what was done since: the reading is at or after
its instant, and after the first one; the reminder was not deleted, nor another created under its id; and if it was delivered
already, it repeats, and the reading is its interval after that of the delivery. -/
structure OnTime (created : ScheduleRecord) (since : List Done) (record : ScheduleRecord) (stamp : Int) : Prop where
  same : created.id = record.id ∧ created.rule = record.rule ∧ created.prompt = record.prompt
  notEarly : ∃ first due, created.scheduledAt = .int first ∧ record.scheduledAt = .int due ∧ first ≤ stamp ∧ due ≤ stamp
  notDeleted : .deleted record.id ∉ since
  notReplaced : ∀ other, .created other ∈ since → other.id ≠ record.id
  apart : ∀ delivery before, .delivered delivery before ∈ since → delivery.record.id = record.id →
    ∃ seconds floor, record.rule = .every seconds floor ∧ before + seconds * 1000 ≤ stamp

/-- Every delivery is on time. -/
def DeliveredOnTime (before : List Done) (done : Done) : Prop :=
  ∀ delivery stamp, done = .delivered delivery stamp →
    ∃ earlier created since, before = earlier ++ .created created :: since ∧ OnTime created since delivery.record stamp

theorem Standing.onTime {history : List Done} {delivery : Delivery} {due stamp : Int} (h : Standing history delivery.record due)
    (hdue : due ≤ stamp) : DeliveredOnTime history (.delivered delivery stamp) := by
  intro delivery' stamp' heq
  cases heq
  obtain ⟨earlier, created, since, rfl, hstands⟩ := h
  obtain ⟨first, hfirst, hle⟩ := hstands.first
  refine ⟨earlier, created, since, rfl, hstands.same, ⟨first, due, hfirst, hstands.instant, by omega, hdue⟩, hstands.notDeleted,
    hstands.notReplaced, ?_⟩
  intro before stamp' hmem hid
  obtain ⟨seconds, floor, hrule, hle'⟩ := hstands.repeats before stamp' hmem hid
  exact ⟨seconds, floor, hrule, by omega⟩

/-! ## What the service keeps -/

theorem scheduleChanges_concat {s session : Session} {event : SessionEvent} (h : session.events = s.events ++ [event]) :
    scheduleChanges session = scheduleChanges s ++ if event.type = .scheduleChange then [event.data] else [] := by
  by_cases htype : event.type = .scheduleChange <;> simp [scheduleChanges, h, htype]

theorem append_scheduleCall (s : Session) (change : Json) (time : Rat) :
    ∃ event session, s.append (scheduleCall change time) = (.ok event, session) ∧
      scheduleChanges session = scheduleChanges s ++ [change] ∧
      session.events.map SessionEvent.entry = s.events.map SessionEvent.entry ++ [(.scheduleChange, change)] := by
  obtain ⟨event, session, happend, hevents, hentry, -⟩ := append_document s (c := scheduleCall change time) rfl rfl rfl
  have htype : event.type = .scheduleChange := congrArg Prod.fst hentry
  have hdata : event.data = change := congrArg Prod.snd hentry
  refine ⟨event, session, happend, ?_, ?_⟩
  · rw [scheduleChanges_concat hevents, if_pos htype, hdata]
  · rw [hevents, List.map_append, List.map_singleton, hentry]
    rfl

/-- A message of the user is the next of the log, and no change of the service. -/
theorem append_userCall (s : Session) (message : Message) (time : Rat) :
    ∃ event session, s.append (userCall message time) = (.ok event, session) ∧ scheduleChanges session = scheduleChanges s ∧
      session.events.map SessionEvent.entry = s.events.map SessionEvent.entry ++ [(.userMessage, message.toJson)] := by
  obtain ⟨event, session, happend, hevents, hentry, -⟩ :=
    append_document s (c := userCall message time) (encodePayload_message message) rfl rfl
  have htype : event.type = .userMessage := congrArg Prod.fst hentry
  have hother : event.type ≠ .scheduleChange := by
    rw [htype]
    decide
  refine ⟨event, session, happend, ?_, ?_⟩
  · rw [scheduleChanges_concat hevents, if_neg hother, List.append_nil]
  · rw [hevents, List.map_append, List.map_singleton, hentry]
    rfl

/-- What a session satisfies after a history of the service, with the records that are active. -/
structure Kept (session : Session) (history : List Done) (active : Dict String ScheduleRecord) : Prop where
  folds : foldActive (scheduleChanges session) = .ok active
  stands : ∀ id record, active.get? id = some record → record.id = id ∧ ∃ due, Standing history record due
  onTime : History.Lawful DeliveredOnTime history
  written : scheduleChanges session = history.map Done.change
  told : (history.flatMap Done.entries).Sublist (session.events.map SessionEvent.entry)

namespace Kept

variable {s : Session} {history : List Done} {active : Dict String ScheduleRecord}

theorem start (id : String) (header : SessionHeader) : Kept (.new id header) [] .empty := by
  refine ⟨rfl, ?_, History.lawful_nil, rfl, List.nil_sublist _⟩
  intro id record hget
  cases hget

theorem keyed (h : Kept s history active) : Keyed active := by
  intro id record hget
  obtain ⟨hid, due, earlier, created, since, -, hstands⟩ := h.stands id record hget
  exact ⟨hid, due, hstands.instant⟩

theorem state (h : Kept s history active) (now : Int) : ∃ folded, scheduleState s now = .ok folded ∧ folded.Of active now :=
  foldSchedules_ok h.folds h.keyed now

/-- Something is done: its change is the next of the log, and the records that are active then stand. -/
theorem done (h : Kept s history active) {session : Session} {done : Done} {active' : Dict String ScheduleRecord}
    (hchanges : scheduleChanges session = scheduleChanges s ++ [done.change])
    (hentries : session.events.map SessionEvent.entry = s.events.map SessionEvent.entry ++ done.entries)
    (happly : applyScheduleChange active done.change = .ok active') (honTime : DeliveredOnTime history done)
    (hstands : ∀ id record, active'.get? id = some record → record.id = id ∧ ∃ due, Standing (history ++ [done]) record due) :
    Kept session (history ++ [done]) active' := by
  refine ⟨?_, hstands, History.lawful_concat.mpr ⟨h.onTime, honTime⟩, ?_, ?_⟩
  · rw [hchanges, foldActive_concat, h.folds]
    exact happly
  · rw [hchanges, h.written, List.map_append, List.map_singleton]
  · rw [hentries, List.flatMap_append, List.flatMap_singleton]
    exact h.told.append (List.Sublist.refl _)

/-- A record stays active, and stands, when something is done about another. -/
theorem other (h : Kept s history active) {done : Done} {id : String} {record : ScheduleRecord} (hget : active.get? id = some record)
    (hne : done.id ≠ id) : record.id = id ∧ ∃ due, Standing (history ++ [done]) record due := by
  obtain ⟨rfl, due, hstanding⟩ := h.stands id record hget
  exact ⟨rfl, due, hstanding.other hne⟩

theorem same (h : Kept s history active) {session : Session} (hchanges : scheduleChanges session = scheduleChanges s)
    (hentries : (s.events.map SessionEvent.entry).Sublist (session.events.map SessionEvent.entry)) : Kept session history active := by
  refine ⟨?_, h.stands, h.onTime, ?_, h.told.trans hentries⟩
  · rw [hchanges]
    exact h.folds
  · rw [hchanges]
    exact h.written

/-- What the specification of a new reminder leaves in its record. -/
theorem specRecord_ok {spec : PyDict} {now : Int} {id : ScheduleId} {record : ScheduleRecord}
    (h : specRecord spec now id = .ok record) :
    ∃ i, record.scheduledAt = .int i ∧ now < i ∧ minInstantMs ≤ i ∧ i ≤ maxInstantMs := by
  unfold specRecord at h
  split at h
  · unfold createEveryRecord at h
    split at h
    · split at h
      · exact (newRecord_ok h).2.2
      · cases h
    · cases h
  · unfold createAfterRecord at h
    split at h
    · split at h
      · cases h
      · exact (newRecord_ok h).2.2
    · cases h
  · exact (newRecord_ok h).2.2
  · cases h

/-- `create` raises and changes nothing, or its reminder stands. -/
theorem create (h : Kept s history active) (spec : PyDict) (now : Int) (id : ScheduleId) (time : Rat) :
    (∃ e, createSchedule s spec now id time = (.error e, s)) ∨
      ∃ record session active', createSchedule s spec now id time = (.ok record, session) ∧
        Kept session (history ++ [.created record]) active' := by
  unfold createSchedule
  cases hspec : specRecord spec now id with
  | error e => exact Or.inl ⟨e, rfl⟩
  | ok record =>
    obtain ⟨i, hi, -, hmin, hmax⟩ := specRecord_ok hspec
    obtain ⟨event, session, happend, hchanges, hentries⟩ := append_scheduleCall s (createChange record) time
    refine Or.inr ⟨record, session, active.set record.id record, by simp [happend], ?_⟩
    refine h.done hchanges hentries (applyScheduleChange_create active (decodeScheduleRecord_toJson record hi hmin hmax)) ?_ ?_
    · intro delivery stamp heq
      cases heq
    · intro id' record' hget
      rw [Dict.get?_set] at hget
      split at hget
      · rename_i hid
        cases hget
        exact ⟨hid.symm, i, Standing.created hi⟩
      · rename_i hid
        exact h.other hget (fun heq => hid heq.symm)

/-- `delete` changes nothing, or its reminder stands no more. -/
theorem delete (h : Kept s history active) (id : String) (now : Int) (time : Rat) :
    deleteSchedule s id now time = (.ok false, s) ∨
      ∃ session active', deleteSchedule s id now time = (.ok true, session) ∧ Kept session (history ++ [.deleted id]) active' := by
  obtain ⟨folded, hstate, -⟩ := h.state now
  simp only [deleteSchedule, hstate]
  split
  · obtain ⟨event, session, happend, hchanges, hentries⟩ := append_scheduleCall s (deleteChange id) time
    refine Or.inr ⟨session, active.pop id, by simp [happend], ?_⟩
    refine h.done hchanges hentries (applyScheduleChange_delete active id) ?_ ?_
    · intro delivery stamp heq
      cases heq
    · intro id' record' hget
      rw [Dict.get?_pop] at hget
      split at hget
      · cases hget
      · rename_i hid
        exact h.other hget (fun heq => hid heq.symm)
  · exact Or.inl rfl

theorem nextAt_eq_some {rule : ScheduleRule} {stamp next : Int} (h : nextAt rule stamp = some next) :
    ∃ seconds floor, rule = .every seconds floor ∧ next = stamp + seconds * 1000 := by
  cases rule with
  | every seconds floor => exact ⟨seconds, floor, rfl, (Option.some.inj h).symm⟩
  | «at» => cases h
  | after => cases h

/-- The active records after a delivery: a one-shot is gone, a repeating one has its next instant. -/
theorem get?_fire {record : ScheduleRecord} (hget : active.get? record.id = some record) (stamp : Int) (id : String) :
    (fire active record.id (((nextAt record.rule stamp).map Json.int).getD .null)).get? id =
      if id = record.id then (nextAt record.rule stamp).map (fun i => { record with scheduledAt := .int i }) else active.get? id := by
  unfold fire
  rw [hget]
  cases nextAt record.rule stamp with
  | some next => exact Dict.get?_set ..
  | none => exact Dict.get?_pop ..

theorem deliver (h : Kept s history active) {record : ScheduleRecord} (hget : active.get? record.id = some record) {due stamp : Int}
    (hinstant : record.scheduledAt = .int due) (hdue : due ≤ stamp) (delivery : Delivery) (hrecord : delivery.record = record)
    {session : Session}
    (hchanges : scheduleChanges session = scheduleChanges s ++ [firedChange record.id stamp (nextAt record.rule stamp)])
    (hentries : session.events.map SessionEvent.entry = s.events.map SessionEvent.entry ++ Done.entries (.delivered delivery stamp)) :
    Kept session (history ++ [.delivered delivery stamp])
      (fire active record.id (((nextAt record.rule stamp).map Json.int).getD .null)) := by
  subst hrecord
  obtain ⟨-, due', hstanding⟩ := h.stands _ _ hget
  obtain rfl : due' = due := by
    obtain ⟨earlier, created, since, -, hstands⟩ := hstanding
    rw [hstands.instant] at hinstant
    exact Json.int.inj hinstant
  refine h.done hchanges hentries (applyScheduleChange_fired active _ _ _) (hstanding.onTime hdue) ?_
  intro id record' hget'
  rw [get?_fire hget] at hget'
  split at hget'
  · rename_i hid
    obtain ⟨next, hnext, rfl⟩ := Option.map_eq_some_iff.mp hget'
    obtain ⟨seconds, floor, hrule, rfl⟩ := nextAt_eq_some hnext
    exact ⟨hid.symm, stamp + seconds * 1000, hstanding.fired hdue hrule⟩
  · rename_i hid
    exact h.other hget' (fun heq => hid heq.symm)

theorem deliverAll {records : List ScheduleRecord} (h : Kept s history active) (clock : FloatClock) (stamp : Int)
    (messageId : String → String) (time : Rat) (honce : (records.map (·.id)).Nodup)
    (hdue : ∀ record ∈ records, active.get? record.id = some record ∧ ∃ due, record.scheduledAt = .int due ∧ due ≤ stamp) :
    ∃ delivered session active', Pydsh.deliverAll clock stamp messageId time records s = (.ok delivered, session) ∧
      Kept session (history ++ delivered.map (fun d => .delivered d stamp)) active' := by
  induction records generalizing s history active with
  | nil => exact ⟨[], s, active, rfl, by simpa using h⟩
  | cons record rest ih =>
    obtain ⟨hget, due, hinstant, hle⟩ := hdue record List.mem_cons_self
    obtain ⟨hfirst, hrest⟩ := List.nodup_cons.mp honce
    let delivery := deliveryOf clock stamp (messageId record.id) record
    obtain ⟨event₁, s₁, happend₁, hchanges₁, hentries₁⟩ := append_userCall s delivery.message time
    obtain ⟨event₂, s₂, happend₂, hchanges₂, hentries₂⟩ :=
      append_scheduleCall s₁ (firedChange record.id stamp (nextAt record.rule stamp)) time
    have hkept := h.deliver hget hinstant hle delivery rfl (by rw [hchanges₂, hchanges₁])
      (by rw [hentries₂, hentries₁, List.append_assoc]; rfl)
    have hleft : ∀ r ∈ rest, (fire active record.id (((nextAt record.rule stamp).map Json.int).getD .null)).get? r.id = some r ∧
        ∃ due, r.scheduledAt = .int due ∧ due ≤ stamp := by
      intro r hr
      obtain ⟨hgetr, hduer⟩ := hdue r (List.mem_cons_of_mem _ hr)
      refine ⟨?_, hduer⟩
      rw [get?_fire hget, if_neg, hgetr]
      intro hid
      exact hfirst (List.mem_map.mpr ⟨r, hr, hid⟩)
    obtain ⟨delivered, session, active', hdelivered, hkept'⟩ := ih hkept hrest hleft
    refine ⟨delivery :: delivered, session, active', ?_, by simpa using hkept'⟩
    have hnot : ¬ (stamp : Rat) < (due : Rat) := by
      rw [Rat.intCast_lt_intCast]
      omega
    simp only [Pydsh.deliverAll, hinstant, Json.instant?, Option.map_some, Option.getD_some, hnot, decide_false, Bool.false_eq_true,
      if_false]
    simp [delivery, happend₁, happend₂, hdelivered]

theorem tick (h : Kept s history active) (clock : FloatClock) (stamp : Int) (messageId : String → String) (time : Rat) :
    ∃ delivered session active', Pydsh.tick clock s stamp messageId time = (.ok delivered, session) ∧
      Kept session (history ++ delivered.map (fun d => .delivered d stamp)) active' := by
  obtain ⟨folded, hstate, hfolded⟩ := h.state stamp
  simp only [Pydsh.tick, hstate]
  exact h.deliverAll clock stamp messageId time hfolded.once (fun record hrecord => (hfolded.overdue record).mp hrecord)

end Kept

/-- The law of a session's reminders: every delivery was on time; folding the log never raises, and neither does a tick; the changes
of the log are what the service did, in order; and the message of every delivery is in the log. -/
structure ScheduleRun.Law (clock : FloatClock) (s : ScheduleRun) : Prop where
  onTime : History.Lawful DeliveredOnTime s.history
  folds : ∀ now, ∃ folded, scheduleState s.session now = .ok folded
  ticks : ∀ stamp messageId time, ∃ delivered, (tick clock s.session stamp messageId time).1 = .ok delivered
  written : scheduleChanges s.session = s.history.map Done.change
  told : (s.history.flatMap Done.entries).Sublist (s.session.events.map SessionEvent.entry)

namespace ScheduleRun

variable {clock : FloatClock} {s s' : ScheduleRun}

/-- What every run keeps. -/
def Inv (s : ScheduleRun) : Prop := ∃ active, Kept s.session s.history active

theorem Inv.law (h : s.Inv) (clock : FloatClock) : s.Law clock := by
  obtain ⟨active, hkept⟩ := h
  refine ⟨hkept.onTime, ?_, ?_, hkept.written, hkept.told⟩
  · intro now
    obtain ⟨folded, hstate, -⟩ := hkept.state now
    exact ⟨folded, hstate⟩
  · intro stamp messageId time
    obtain ⟨delivered, session, active', htick, -⟩ := hkept.tick clock stamp messageId time
    exact ⟨delivered, by rw [htick]⟩

theorem kept_append {history : List Done} {active : Dict String ScheduleRecord} {session : Session}
    (h : Kept session history active) {call : AppendCall} (hother : call.eventType ≠ .scheduleChange) :
    Kept (session.append call).2 history active := by
  rcases append_events session call with hsame | ⟨j, hgrown⟩
  · exact h.same (by rw [scheduleChanges, scheduleChanges, hsame]) (by rw [hsame])
  · refine h.same ?_ ?_
    · rw [scheduleChanges_concat hgrown, AppendCall.event_type, if_neg hother, List.append_nil]
    · rw [hgrown, List.map_append]
      exact List.sublist_append_left _ _

theorem Inv.step (h : s.Inv) {a : ScheduleAction} (hstep : s.step clock a = some s') : s'.Inv := by
  obtain ⟨active, hkept⟩ := h
  cases a with
  | create spec now id time =>
    obtain rfl := Option.some.inj hstep
    rcases hkept.create spec now id time with ⟨e, hcall⟩ | ⟨record, session, active', hcall, hkept'⟩
    · rw [hcall]
      exact ⟨active, hkept⟩
    · rw [hcall]
      exact ⟨active', hkept'⟩
  | delete id now time =>
    obtain rfl := Option.some.inj hstep
    rcases hkept.delete id now time with hcall | ⟨session, active', hcall, hkept'⟩
    · rw [hcall]
      exact ⟨active, by simpa [ends] using hkept⟩
    · rw [hcall]
      exact ⟨active', hkept'⟩
  | tick stamp messageId time =>
    obtain rfl := Option.some.inj hstep
    obtain ⟨delivered, session, active', hcall, hkept'⟩ := hkept.tick clock stamp messageId time
    rw [hcall]
    exact ⟨active', hkept'⟩
  | append call =>
    simp only [ScheduleRun.step] at hstep
    split at hstep
    · cases hstep
    · rename_i hother
      obtain rfl := Option.some.inj hstep
      exact ⟨active, kept_append hkept hother⟩
  | resume =>
    simp only [ScheduleRun.step] at hstep
    split at hstep
    · rename_i session hload
      obtain rfl := Option.some.inj hstep
      obtain ⟨hevents, -⟩ := seedAll_ok hload
      have hevents : session.events = s.session.events := by
        rw [hevents]
        rfl
      exact ⟨active, hkept.same (by rw [scheduleChanges, scheduleChanges, hevents]) (by rw [hevents])⟩
    · cases hstep

end ScheduleRun

/-- Floats as rationals; no target of the run is one. -/
def exactClock : FloatClock where
  minus := fun stamp target => stamp - target
  thousands := fun late => toString (late / 1000).floor

end Pydsh
