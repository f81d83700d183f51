import Mathlib.Data.List.Perm.Basic
import Pydsh.Lib.Dict
import Pydsh.Python.Dynamic
import Pydsh.Session.Session

/-!
# Reminders and what a log of changes folds to

`governance/schedule_domain.py`: the records of reminders, their changes, and the fold of a log of changes. A decoded record carries
what the decoder checked; the instant of a repeating one is then whatever a later change says, so it stays a document. An error keeps
the values its message quotes.
-/

namespace Pydsh

/-- `SCHEDULE_CHANGE_VERSION`. -/
def scheduleChangeVersion : Nat := 1

/-- `MIN_EVERY_INTERVAL_SECONDS`. -/
def minEveryIntervalSeconds : Int := 300

/-- `MIN_INSTANT_MS`: the start of the year 1. -/
def minInstantMs : Int := -62135596800000

/-- `MAX_INSTANT_MS`: the last second of the year 9999. -/
def maxInstantMs : Int := 253402300799000

/-- `SCHEDULE_KINDS`. -/
inductive ScheduleKind where
  | «at» | after | every

/-- A kind as a string. -/
def ScheduleKind.name : ScheduleKind → String
  | .at => "at"
  | .after => "after"
  | .every => "every"

/-- A `ScheduleError`; or the `KeyError` or `TypeError` of a stored change, or what `session.append` raised. -/
inductive ScheduleError where
  | emptyPrompt
  | notInstant (field : String)
  | yearRange (field : String) (value : Int)
  | past (field : String)
  | afterNotPositive
  | everyNotInteger
  | everyTooOften (seconds : Int)
  | noRule
  | notObject
  | unexpectedFields (names : List String)
  | unknownKind (value : Json)
  | emptyId
  | storedTooOften
  | carriesEvery (kind : ScheduleKind)
  | version (value : Json)
  | unknownOperation (value : Json)
  | missingRecord
  | typeError
  | append (e : SessionError)

/-- The code of a `ScheduleError`. -/
def ScheduleError.code : ScheduleError → Option String
  | .emptyPrompt => some "invalid_prompt"
  | .everyTooOften _ | .storedTooOften => some "frequency_too_high"
  | .missingRecord | .typeError | .append _ => none
  | _ => some "invalid_rule"

/-- The id of a reminder: a string that is not empty. -/
structure ScheduleId where
  text : String
  named : text ≠ ""

/-- The kind of a reminder, with the interval of a repeating one. -/
inductive ScheduleRule where
  | «at»
  | after
  | every (seconds : Int) (floor : minEveryIntervalSeconds ≤ seconds)

/-- `record["kind"]`. -/
def ScheduleRule.kind : ScheduleRule → ScheduleKind
  | .at => .at
  | .after => .after
  | .every _ _ => .every

/-- `record["every_seconds"]`. -/
def ScheduleRule.everySeconds : ScheduleRule → Option Int
  | .at | .after => none
  | .every seconds _ => some seconds

/-- A reminder. -/
structure ScheduleRecord where
  id : String
  rule : ScheduleRule
  prompt : String
  scheduledAt : Json
  named : id ≠ ""
  stripped : pyStrip prompt = prompt
  prompted : prompt ≠ ""

/-- The dict of a record. -/
def ScheduleRecord.toJson (r : ScheduleRecord) : Json :=
  .obj [("id", .str r.id), ("kind", .str r.rule.kind.name), ("prompt", .str r.prompt), ("scheduled_at", r.scheduledAt),
    ("every_seconds", (r.rule.everySeconds.map Json.int).getD .null)]

/-! ## New records -/

/-- `_prompt`. -/
def schedulePrompt (value : PyValue) : Except ScheduleError { s : String // pyStrip s = s ∧ s ≠ "" } :=
  match value with
  | .str s => if h : pyStrip s = "" then .error .emptyPrompt else .ok ⟨pyStrip s, pyStrip_pyStrip s, h⟩
  | _ => .error .emptyPrompt

/-- `_instant`. -/
def scheduleInstant (value : PyValue) (field : String) : Except ScheduleError Int :=
  match value with
  | .int i => if minInstantMs ≤ i ∧ i ≤ maxInstantMs then .ok i else .error (.yearRange field i)
  | _ => .error (.notInstant field)

/-- `_future`. -/
def futureInstant (target : PyValue) (now : Int) (field : String) : Except ScheduleError Int := do
  let target ← scheduleInstant target field
  if target ≤ now then throw (.past field)
  return target

/-- A record of some rule, with the id that was allocated for it; the prompt is checked before the instant. -/
def newRecord (rule : ScheduleRule) (prompt target : PyValue) (now : Int) (field : String) (id : ScheduleId) :
    Except ScheduleError ScheduleRecord := do
  let prompt ← schedulePrompt prompt
  let scheduledAt ← futureInstant target now field
  return {
    id := id.text
    rule
    prompt := prompt.val
    scheduledAt := .int scheduledAt
    named := id.named
    stripped := prompt.property.1
    prompted := prompt.property.2 }

/-- `create_at_record`. -/
def createAtRecord (prompt atMs : PyValue) (now : Int) (id : ScheduleId) : Except ScheduleError ScheduleRecord :=
  newRecord .at prompt atMs now "at_ms" id

/-- `create_after_record`. -/
def createAfterRecord (prompt afterSeconds : PyValue) (now : Int) (id : ScheduleId) :
    Except ScheduleError ScheduleRecord :=
  match afterSeconds with
  | .int seconds =>
    if seconds ≤ 0 then .error .afterNotPositive
    else newRecord .after prompt (.int (now + seconds * 1000)) now "after_seconds" id
  | _ => .error .afterNotPositive

/-- `create_every_record`. -/
def createEveryRecord (prompt everySeconds : PyValue) (now : Int) (id : ScheduleId) :
    Except ScheduleError ScheduleRecord :=
  match everySeconds with
  | .int seconds =>
    if h : minEveryIntervalSeconds ≤ seconds then
      newRecord (.every seconds h) prompt (.int (now + seconds * 1000)) now "every_seconds" id
    else .error (.everyTooOften seconds)
  | _ => .error .everyNotInteger

/-! ## Changes -/

/-- `create_change`. -/
def createChange (record : ScheduleRecord) : Json :=
  .obj [("version", .int scheduleChangeVersion), ("operation", .str "create"), ("record", record.toJson)]

/-- `delete_change`. -/
def deleteChange (id : String) : Json :=
  .obj [("version", .int scheduleChangeVersion), ("operation", .str "delete"), ("id", .str id)]

/-- `fired_change`. -/
def firedChange (id : String) (firedAt : Int) (nextAt : Option Int) : Json :=
  .obj [("version", .int scheduleChangeVersion), ("operation", .str "fired"), ("id", .str id), ("fired_at", .int firedAt),
    ("next_at", (nextAt.map Json.int).getD .null)]

/-! ## Decoding -/

/-- `value.get(key)`. -/
def fieldOrNull (kvs : List (String × Json)) (key : String) : Json := (field? kvs key).getD .null

/-- `_RECORD_KEYS`. -/
def recordKeys : List String := ["id", "kind", "prompt", "scheduled_at", "every_seconds"]

/-- `kind in SCHEDULE_KINDS`. -/
def storedKind (value : Json) : Except ScheduleError ScheduleKind :=
  match value with
  | .str "at" => .ok .at
  | .str "after" => .ok .after
  | .str "every" => .ok .every
  | _ => .error (.unknownKind value)

/-- The id of a stored record. -/
def storedId (value : Json) : Except ScheduleError ScheduleId :=
  match value with
  | .str s => if h : s ≠ "" then .ok ⟨s, h⟩ else .error .emptyId
  | _ => .error .emptyId

/-- The rule of a stored record, from its kind and its `every_seconds`. -/
def storedRule (kind : ScheduleKind) (everySeconds : Json) : Except ScheduleError ScheduleRule :=
  match kind, everySeconds with
  | .every, .int seconds => if h : minEveryIntervalSeconds ≤ seconds then .ok (.every seconds h) else .error .storedTooOften
  | .every, _ => .error .storedTooOften
  | .at, .null => .ok .at
  | .after, .null => .ok .after
  | kind, _ => .error (.carriesEvery kind)

/-- `decode_schedule_record`. -/
def decodeScheduleRecord (value : Json) : Except ScheduleError ScheduleRecord :=
  match value with
  | .obj kvs => do
    let unknown := (kvs.map (·.1)).filter (fun name => decide (name ∉ recordKeys))
    if unknown ≠ [] then throw (.unexpectedFields (unknown.mergeSort (fun x y => decide (x ≤ y))))
    let kind ← storedKind (fieldOrNull kvs "kind")
    let id ← storedId (fieldOrNull kvs "id")
    let prompt ← schedulePrompt (fieldOrNull kvs "prompt").loads
    let scheduledAt ← scheduleInstant (fieldOrNull kvs "scheduled_at").loads "scheduled_at"
    let rule ← storedRule kind (fieldOrNull kvs "every_seconds")
    return {
      id := id.text
      rule
      prompt := prompt.val
      scheduledAt := .int scheduledAt
      named := id.named
      stripped := prompt.property.1
      prompted := prompt.property.2 }
  | _ => .error .notObject

/-! ## Folding -/

/-- The key of the active records that a value is; a list or a dict is no key of any dict. -/
def scheduleKey (value : Json) : Except ScheduleError (Option String) :=
  match value with
  | .str s => .ok (some s)
  | .arr _ | .obj _ => .error .typeError
  | _ => .ok none

/-- The active records after a reminder of an id fired: a one-shot is done. -/
def fire (active : Dict String ScheduleRecord) (id : String) (nextAt : Json) : Dict String ScheduleRecord :=
  match active.get? id with
  | none => active
  | some existing =>
    match nextAt with
    | .null => active.pop existing.id
    | nextAt => active.set existing.id { existing with scheduledAt := nextAt }

/-- The loop of `fold_schedules`, for one change; one that is no dict is skipped. -/
def applyScheduleChange (active : Dict String ScheduleRecord) (change : Json) :
    Except ScheduleError (Dict String ScheduleRecord) :=
  match change with
  | .obj kvs =>
    if ¬ (fieldOrNull kvs "version").loads.eqNode scheduleChangeVersion then .error (.version (fieldOrNull kvs "version"))
    else
      match fieldOrNull kvs "operation" with
      | .str "create" =>
        match field? kvs "record" with
        | none => .error .missingRecord
        | some record => (decodeScheduleRecord record).map (fun record => active.set record.id record)
      | .str "delete" =>
        (scheduleKey (fieldOrNull kvs "id")).map (fun key => (key.map active.pop).getD active)
      | .str "fired" =>
        (scheduleKey (fieldOrNull kvs "id")).map (fun key =>
          (key.map (fun id => fire active id (fieldOrNull kvs "next_at"))).getD active)
      | operation => .error (.unknownOperation operation)
  | _ => .ok active

/-- A point in time, as `<` compares it; `none` for a value that is no number. -/
def Json.instant? : Json → Option Rat
  | .bool b => some (b.toInt : Rat)
  | .int i => some (i : Rat)
  | .float q => some q
  | _ => none

/-- An active record with its point in time. -/
def timed (record : ScheduleRecord) : Except ScheduleError (Rat × ScheduleRecord) :=
  match record.scheduledAt.instant? with
  | some time => .ok (time, record)
  | none => .error .typeError

/-- The order of `sorted(..., key=lambda r: (r["scheduled_at"], r["id"]))`. -/
def sooner (x y : Rat × ScheduleRecord) : Bool :=
  decide (x.1 < y.1) || (decide (x.1 = y.1) && decide (x.2.id ≤ y.2.id))

/-- What a log folds to at a point in time: the reminders to come, and those that are due. -/
structure Schedules where
  active : List ScheduleRecord
  overdue : List ScheduleRecord

/-- The records that a log leaves. -/
def foldActive (changes : List Json) : Except ScheduleError (Dict String ScheduleRecord) :=
  changes.foldlM applyScheduleChange .empty

/-- `fold_schedules`. -/
def foldSchedules (changes : List Json) (now : Int) : Except ScheduleError Schedules := do
  let active ← foldActive changes
  let records ← active.entries.mapM (fun entry => timed entry.2)
  let ordered := records.mergeSort sooner
  return {
    active := (ordered.filter (fun r => decide ((now : Rat) < r.1))).map (·.2)
    overdue := (ordered.filter (fun r => decide (r.1 ≤ (now : Rat)))).map (·.2) }

/-! ## What the service's own changes do -/

/-- A new record has the id and the rule it was made with, and an instant that a stored record may have, in the future. -/
theorem newRecord_ok {rule : ScheduleRule} {prompt target : PyValue} {now : Int} {field : String} {id : ScheduleId}
    {r : ScheduleRecord} (h : newRecord rule prompt target now field id = .ok r) :
    r.id = id.text ∧ r.rule = rule ∧ ∃ i, r.scheduledAt = .int i ∧ now < i ∧ minInstantMs ≤ i ∧ i ≤ maxInstantMs := by
  unfold newRecord futureInstant at h
  cases hprompt : schedulePrompt prompt with
  | error e =>
    rw [hprompt] at h
    cases h
  | ok text =>
    cases htarget : scheduleInstant target field with
    | error e =>
      rw [hprompt, htarget] at h
      cases h
    | ok i =>
      rw [hprompt, htarget] at h
      by_cases hpast : i ≤ now
      · simp [hpast, bind, Except.bind, throw, throwThe, MonadExceptOf.throw] at h
      · simp only [hpast, if_false, bind, Except.bind, pure, Except.pure] at h
        cases h
        refine ⟨rfl, rfl, i, rfl, Int.not_le.mp hpast, ?_⟩
        unfold scheduleInstant at htarget
        split at htarget
        · split at htarget
          · rename_i hrange
            cases htarget
            exact hrange
          · cases htarget
        · cases htarget

theorem storedKind_name (kind : ScheduleKind) : storedKind (.str kind.name) = .ok kind := by
  cases kind <;> rfl

theorem storedRule_everySeconds (rule : ScheduleRule) :
    storedRule rule.kind ((rule.everySeconds.map Json.int).getD .null) = .ok rule := by
  cases rule with
  | «at» => rfl
  | after => rfl
  | every seconds floor => simp [storedRule, ScheduleRule.kind, ScheduleRule.everySeconds, floor]

/-- A record whose instant is in range is decoded back from its dict. -/
theorem decodeScheduleRecord_toJson (r : ScheduleRecord) {i : Int} (hi : r.scheduledAt = .int i) (hmin : minInstantMs ≤ i)
    (hmax : i ≤ maxInstantMs) : decodeScheduleRecord r.toJson = .ok r := by
  have hkind : storedKind (.str r.rule.kind.name) = .ok r.rule.kind := storedKind_name _
  have hid : storedId (.str r.id) = .ok ⟨r.id, r.named⟩ := dif_pos r.named
  have hprompt : schedulePrompt (Json.str r.prompt).loads = .ok ⟨r.prompt, r.stripped, r.prompted⟩ := by
    simp [schedulePrompt, Json.loads, r.stripped, r.prompted]
  have hinstant : scheduleInstant r.scheduledAt.loads "scheduled_at" = .ok i := by
    rw [hi]
    exact if_pos ⟨hmin, hmax⟩
  have hrule := storedRule_everySeconds r.rule
  obtain ⟨id, rule, prompt, scheduledAt, named, stripped, prompted⟩ := r
  obtain rfl : scheduledAt = .int i := hi
  simp [ScheduleRecord.toJson, decodeScheduleRecord, fieldOrNull, recordKeys, hkind, hid, hprompt, hinstant, hrule, bind, Except.bind, pure,
    Except.pure]

theorem applyScheduleChange_create (active : Dict String ScheduleRecord) {r : ScheduleRecord}
    (h : decodeScheduleRecord r.toJson = .ok r) : applyScheduleChange active (createChange r) = .ok (active.set r.id r) := by
  simp [applyScheduleChange, createChange, fieldOrNull, Json.loads, PyValue.eqNode, h, Except.map]

theorem applyScheduleChange_delete (active : Dict String ScheduleRecord) (id : String) :
    applyScheduleChange active (deleteChange id) = .ok (active.pop id) := by
  simp [applyScheduleChange, deleteChange, fieldOrNull, Json.loads, PyValue.eqNode, scheduleKey, Except.map]

theorem applyScheduleChange_fired (active : Dict String ScheduleRecord) (id : String) (firedAt : Int) (nextAt : Option Int) :
    applyScheduleChange active (firedChange id firedAt nextAt) =
      .ok (fire active id ((nextAt.map Json.int).getD .null)) := by
  simp [applyScheduleChange, firedChange, fieldOrNull, Json.loads, PyValue.eqNode, scheduleKey, Except.map]

theorem foldActive_concat (changes : List Json) (change : Json) :
    foldActive (changes ++ [change]) = (foldActive changes).bind (fun active => applyScheduleChange active change) := by
  unfold foldActive
  rw [List.foldlM_append]
  cases List.foldlM applyScheduleChange .empty changes with
  | error e => rfl
  | ok active =>
    change (applyScheduleChange active change).bind pure = applyScheduleChange active change
    cases applyScheduleChange active change <;> rfl

/-- Every active record stands under its id and is due at an integer instant. -/
def Keyed (active : Dict String ScheduleRecord) : Prop :=
  ∀ id r, active.get? id = some r → r.id = id ∧ ∃ i, r.scheduledAt = .int i

theorem timed_int {r : ScheduleRecord} {i : Int} (h : r.scheduledAt = .int i) : timed r = .ok ((i : Rat), r) := by
  simp [timed, Json.instant?, h]

theorem mapM_timed {entries : List (String × ScheduleRecord)} (h : ∀ entry ∈ entries, ∃ i, entry.2.scheduledAt = .int i) :
    ∃ records, entries.mapM (fun entry => timed entry.2) = .ok records ∧ records.map (·.2) = entries.map (·.2) ∧
      ∀ x ∈ records, ∃ i : Int, x.2.scheduledAt = .int i ∧ x.1 = i := by
  induction entries with
  | nil => exact ⟨[], rfl, rfl, by simp⟩
  | cons entry entries ih =>
    obtain ⟨i, hi⟩ := h entry List.mem_cons_self
    obtain ⟨records, hrecords, hsame, htimes⟩ := ih (fun e he => h e (List.mem_cons_of_mem _ he))
    refine ⟨((i : Rat), entry.2) :: records, ?_, by simp [hsame], ?_⟩
    · rw [List.mapM_cons, timed_int hi, hrecords]
      rfl
    · intro x hx
      rcases List.mem_cons.mp hx with rfl | hx
      · exact ⟨i, hi, rfl⟩
      · exact htimes x hx

/-- What a fold says of the active records: which are due, each of them once, and which are to come. -/
structure Schedules.Of (schedules : Schedules) (active : Dict String ScheduleRecord) (now : Int) : Prop where
  overdue : ∀ r, r ∈ schedules.overdue ↔ active.get? r.id = some r ∧ ∃ i, r.scheduledAt = .int i ∧ i ≤ now
  active : ∀ r, r ∈ schedules.active ↔ active.get? r.id = some r ∧ ∃ i, r.scheduledAt = .int i ∧ now < i
  once : (schedules.overdue.map (·.id)).Nodup

theorem foldSchedules_ok {changes : List Json} {active : Dict String ScheduleRecord} (hfold : foldActive changes = .ok active)
    (hkeyed : Keyed active) (now : Int) : ∃ schedules, foldSchedules changes now = .ok schedules ∧ schedules.Of active now := by
  have hentry : ∀ entry ∈ active.entries, entry.2.id = entry.1 ∧ ∃ i, entry.2.scheduledAt = .int i :=
    fun entry hentry => hkeyed entry.1 entry.2 (Dict.get?_eq_some.mpr hentry)
  obtain ⟨records, hrecords, hsame, htimes⟩ := mapM_timed (fun entry he => (hentry entry he).2)
  let ordered := records.mergeSort sooner
  have hperm : ordered.Perm records := List.mergeSort_perm records sooner
  have hmem : ∀ r, (∃ time, (time, r) ∈ ordered) ↔ active.get? r.id = some r := by
    intro r
    have hrecord : (∃ time, (time, r) ∈ ordered) ↔ r ∈ active.entries.map (·.2) := by
      rw [← hsame]
      simp [hperm.mem_iff]
    rw [hrecord, Dict.get?_eq_some]
    constructor
    · intro hr
      obtain ⟨entry, he, rfl⟩ := List.mem_map.mp hr
      rw [(hentry entry he).1]
      exact he
    · exact fun he => List.mem_map_of_mem he
  have htime : ∀ x ∈ ordered, ∃ i : Int, x.2.scheduledAt = .int i ∧ x.1 = i := fun x hx => htimes x (hperm.mem_iff.mp hx)
  -- one half of the fold: the records that a test on the time lets pass
  have hhalf : ∀ (test : Rat → Bool) (p : Int → Prop), (∀ i : Int, test i = true ↔ p i) → ∀ r,
      r ∈ (ordered.filter (fun x => test x.1)).map (·.2) ↔ active.get? r.id = some r ∧ ∃ i, r.scheduledAt = .int i ∧ p i := by
    intro test p htest r
    rw [← hmem r]
    constructor
    · intro hr
      obtain ⟨⟨time, r'⟩, hx, rfl⟩ := List.mem_map.mp hr
      obtain ⟨hx, hpass⟩ := List.mem_filter.mp hx
      obtain ⟨i, hi, rfl⟩ := htime _ hx
      exact ⟨⟨_, hx⟩, i, hi, (htest i).mp hpass⟩
    · rintro ⟨⟨time, hx⟩, i, hi, hp⟩
      obtain ⟨k, hk, hkt⟩ := htime _ hx
      obtain rfl : i = k := by
        rw [hi] at hk
        exact Json.int.inj hk
      refine List.mem_map.mpr ⟨(time, r), List.mem_filter.mpr ⟨hx, ?_⟩, rfl⟩
      have htime : time = (i : Rat) := hkt
      rw [htime]
      exact (htest i).mpr hp
  refine ⟨_, by rw [foldSchedules, hfold]; simp only [bind, Except.bind, hrecords, pure, Except.pure]; rfl, ?_, ?_, ?_⟩
  · exact hhalf (fun time => decide (time ≤ (now : Rat))) (fun i => i ≤ now)
      (fun _ => decide_eq_true_iff.trans Rat.intCast_le_intCast)
  · exact hhalf (fun time => decide ((now : Rat) < time)) (fun i => now < i)
      (fun _ => decide_eq_true_iff.trans Rat.intCast_lt_intCast)
  · have hids : (ordered.map (fun x => x.2.id)).Perm (active.entries.map (·.1)) := by
      have hkeys : records.map (fun x => x.2.id) = active.entries.map (·.1) := by
        have hcomp : records.map (fun x => x.2.id) = (records.map (·.2)).map (·.id) := by simp
        rw [hcomp, hsame, List.map_map]
        exact List.map_congr_left (fun entry he => (hentry entry he).1)
      rw [← hkeys]
      exact hperm.map _
    have hnodup := hids.nodup_iff.mpr active.unique
    refine List.Nodup.sublist ?_ hnodup
    rw [List.map_map]
    exact List.filter_sublist.map _

end Pydsh
