import Pydsh.Lib.Machine
import Pydsh.Python.Dynamic
import Pydsh.Storage.Unit

/-!
# A domain's memory and its unit

`storage/domain.py`: declared tables with schemas over one unit, one write at a time. A write is checked, waits for its slot, writes
the unit, and only then moves memory and is announced. The unit's writes are atomic here: one takes effect at some moment while it is
awaited, or it raises with no effect. Then memory is what the opened domain showed with every announced change made to it, and the
unit has had the same changes, and at most one more that is about to be announced (`domain_mirrors`). What a domain shows of a slot
that nothing wrote since it was opened is what the schema made of the stored value, the declared `initial` for a global value that
was never written.
-/

namespace Pydsh

/-- Validates one stored value; `none` where it raises. -/
abbrev RecordSchema : Type := PyValue → Option PyValue

/-- The declaration of a global value. -/
structure GlobalSpec where
  validate : Option RecordSchema
  initial : PyValue

/-- A domain declaration: the tables with their schemas, and the global value if it has one. -/
structure DomainSpec where
  name : String
  version : Int
  tables : Dict String (Option RecordSchema)
  global : Option GlobalSpec

/-- The codes of `DomainError` that a write raises. -/
inductive DomainCode where
  | closed
  | invalidRecord
  | missingKey
  deriving DecidableEq

/-- Why a call on a domain raises. -/
inductive DomainFailure where
  | domain (code : DomainCode) (message : String)
  /-- The unit raised, and its error passes through. -/
  | unit
  /-- The callable given to `update` raised. -/
  | change (message : String)
  | cancelled

/-- `_checked`; the slot is named in the error. -/
def checkedValue (domain table key : String) (validate : Option RecordSchema) (raw : PyValue) : Except DomainFailure PyValue :=
  match validate with
  | none => .ok raw
  | some validate =>
    match validate raw with
    | some value => .ok value
    | none =>
      let slot := if table = "" then "the global value" else "record " ++ quoted key ++ " in table " ++ quoted table
      .error (.domain .invalidRecord ("domain " ++ quoted domain ++ ": stored " ++ slot ++ " no longer satisfies its schema"))

/-- The medium under a unit: what it holds, and every change that took effect on it since the domain was opened. -/
structure UnitMedium where
  contents : KvContents Parsed
  changes : List (KvOp PyValue) := []

/-- What waits for the slot of a domain: the job of a write with its checked value, or a `close`. -/
inductive DomainJob where
  | put (table key : String) (checked : PyValue)
  | delete (table key : String)
  | update (table key : String) (change : PyValue → Except String PyValue)
  | set (checked : PyValue)
  | drain

/-- A write of the unit that is awaited, with whether it has taken effect. -/
structure UnitWrite where
  op : KvOp PyValue
  landed : Bool

/-- One opened domain: its memory and its unit; what waits for the slot, and the write in it; the closes that await the unit; what was
announced; and how the call that just ended did. -/
structure Domain where
  spec : DomainSpec
  memory : KvContents PyValue
  unit : UnitMedium
  queue : List DomainJob := []
  writing : Option UnitWrite := none
  releasing : Nat := 0
  closing : Bool := false
  closed : Bool := false
  announced : List (KvOp PyValue) := []
  answer : Option (Except DomainFailure Unit) := none

/-- What happens to a domain: a call is made; the job at the head of the queue gets the slot; the unit's write takes effect, returns or
raises; a waiting call is cancelled; the unit is released, or raises. -/
inductive DomainAction where
  | put (table key : String) (value : PyValue)
  | delete (table key : String)
  | update (table key : String) (change : PyValue → Except String PyValue)
  | set (value : PyValue)
  | close
  | enter
  | lands
  | returns
  | raises
  | cancel (n : Nat)
  | released
  | releaseFails

namespace DomainSpec

/-- What a domain shows of a slot that holds a stored value. -/
def shows (spec : DomainSpec) (slot : KvSlot) (stored : Option Parsed) : Option PyValue :=
  match slot with
  | .record table key => (spec.tables.get? table).bind (fun validate =>
      stored.bind (fun p => (checkedValue spec.name table key validate p.value).toOption))
  | .global =>
    match spec.global with
    | none => some .none
    | some declared =>
      match stored with
      | none => some declared.initial
      | some p => if p.value.isNone then some declared.initial
          else (checkedValue spec.name "" "" declared.validate p.value).toOption

end DomainSpec

namespace Domain

/-- The tail of `StorageDomain.open`: memory filled from what the unit holds; `none` where a stored value does not satisfy its
schema. -/
def «open» (spec : DomainSpec) (contents : KvContents Parsed) : Option Domain := do
  let tables ← spec.tables.traverse (fun table validate =>
    ((contents.tables.get? table).getD .empty).traverse (fun key p =>
      (checkedValue spec.name table key validate p.value).toOption))
  let global ← spec.shows .global (some contents.global)
  return { spec, memory := { tables, global }, unit := { contents } }

/-- A call ends. -/
def answers (s : Domain) (result : Except DomainFailure Unit) : Domain := { s with answer := some result }

/-- The error of a table that is not declared. -/
def noTable (s : Domain) (table : String) : DomainFailure :=
  let names := (s.spec.tables.entries.map (·.1)).mergeSort (fun x y => decide (x ≤ y))
  let declared := if names.isEmpty then "none" else ", ".intercalate names
  .domain .missingKey ("domain " ++ quoted s.spec.name ++ " declares no table " ++ quoted table ++ " (declared: " ++ declared ++ ")")

/-- `enqueue`. -/
def enqueue (s : Domain) (job : DomainJob) : Domain :=
  if s.closing then s.answers (.error (.domain .closed ("domain " ++ quoted s.spec.name ++ " is closed")))
  else { s with queue := s.queue ++ [job], answer := none }

/-- The awaited write of a job. -/
def write (s : Domain) (op : KvOp PyValue) : Domain := { s with writing := some { op, landed := false }, answer := none }

/-- A job in its slot, up to its first await. -/
def run (s : Domain) : DomainJob → Domain
  | .put table key checked => s.write (.putRecord table key checked)
  | .delete table key =>
    if (s.memory.get (.record table key)).isNone then s.answers (.ok ()) else s.write (.deleteRecord table key)
  | .update table key change =>
    match s.memory.get (.record table key) with
    | none => s.answers (.error (.domain .missingKey ("domain " ++ quoted s.spec.name ++ " table " ++ quoted table ++
        " has no record " ++ quoted key ++ " to update")))
    | some value =>
      match change value with
      | .error message => s.answers (.error (.change message))
      | .ok next =>
        match checkedValue s.spec.name table key ((s.spec.tables.get? table).getD none) next with
        | .error e => s.answers (.error e)
        | .ok next => s.write (.putRecord table key next)
  | .set checked => s.write (.setGlobal checked)
  | .drain => { s with releasing := s.releasing + 1, answer := none }

/-- What an action does; `none` where it cannot happen. -/
def step (s : Domain) : DomainAction → Option Domain
  | .put table key value =>
    match s.spec.tables.get? table with
    | none => some (s.answers (.error (s.noTable table)))
    | some validate =>
      match checkedValue s.spec.name table key validate value with
      | .error e => some (s.answers (.error e))
      | .ok checked => some (s.enqueue (.put table key checked))
  | .delete table key =>
    match s.spec.tables.get? table with
    | none => some (s.answers (.error (s.noTable table)))
    | some _ => some (s.enqueue (.delete table key))
  | .update table key change =>
    match s.spec.tables.get? table with
    | none => some (s.answers (.error (s.noTable table)))
    | some _ => some (s.enqueue (.update table key change))
  | .set value =>
    match s.spec.global with
    | none => some (s.answers (.error (.domain .missingKey ("domain " ++ quoted s.spec.name ++ " declares no global value"))))
    | some declared =>
      match checkedValue s.spec.name "" "" declared.validate value with
      | .error e => some (s.answers (.error e))
      | .ok checked => some (s.enqueue (.set checked))
  | .close =>
    if s.closed then some (s.answers (.ok ()))
    else some { s with closing := true, queue := s.queue ++ [.drain], answer := none }
  | .enter =>
    match s.writing, s.queue with
    | none, job :: rest => some ({ s with queue := rest }.run job)
    | _, _ => none
  | .lands =>
    match s.writing with
    | some { op, landed := false } =>
      (op.traverse PyValue.written).map (fun stored =>
        { s with
          unit := { contents := s.unit.contents.apply stored, changes := s.unit.changes ++ [op] }
          writing := some { op, landed := true }
          answer := none })
    | _ => none
  | .returns =>
    match s.writing with
    | some { op, landed := true } =>
      some ({ s with
        memory := s.memory.apply op
        writing := none
        announced := s.announced ++ [op] }.answers (.ok ()))
    | _ => none
  | .raises =>
    match s.writing with
    | some { landed := false, .. } => some ({ s with writing := none }.answers (.error .unit))
    | _ => none
  | .cancel n =>
    match s.queue[n]? with
    | some _ => some ({ s with queue := s.queue.eraseIdx n }.answers (.error .cancelled))
    | none => none
  | .released =>
    if 0 < s.releasing then some ({ s with releasing := s.releasing - 1, closed := true }.answers (.ok ())) else none
  | .releaseFails =>
    if 0 < s.releasing then some ({ s with releasing := s.releasing - 1 }.answers (.error .unit)) else none

/-! ## Memory mirrors the unit -/

/-- The write that has taken effect and is not announced yet. -/
def inFlight (s : Domain) : List (KvOp PyValue) :=
  match s.writing with
  | some { op, landed := true } => [op]
  | _ => []

/-- Two states with the same memory, unit and announcements. -/
structure Same (s s' : Domain) : Prop where
  spec : s'.spec = s.spec
  memory : s'.memory = s.memory
  unit : s'.unit = s.unit
  announced : s'.announced = s.announced
  inFlight : s'.inFlight = s.inFlight

/-- Memory mirrors the unit. With no write between its effect and its announcement, a slot written since the domain was opened holds
on the unit the JSON form of what memory has, and any other slot of memory is what the schema makes of the unit's. Memory never has a
value that was neither there when the domain was opened nor written to the unit. The announcements are the changes of the unit, each
once and in their order, up to the one in flight. -/
structure Mirrors (s₀ s : Domain) : Prop where
  written : s.inFlight = [] → ∀ slot, (∃ op ∈ s.announced, op.slot = slot) →
    (s.unit.contents.get slot).map Parsed.value = (s.memory.get slot).bind PyValue.reload ∧
      (s.unit.contents.get slot).isSome = (s.memory.get slot).isSome
  unwritten : s.inFlight = [] → ∀ slot, (∀ op ∈ s.announced, op.slot ≠ slot) →
    s.memory.get slot = s.spec.shows slot (s.unit.contents.get slot)
  shown : ∀ slot value, s.memory.get slot = some value →
    s₀.memory.get slot = some value ∨ ∃ op ∈ s.unit.changes, op.slot = slot ∧ op.left = some value
  announced : s.unit.changes = s.announced ++ s.inFlight

/-- What every run keeps. -/
structure Inv (s₀ s : Domain) : Prop where
  spec : s.spec = s₀.spec
  changes : s.unit.changes = s.announced ++ s.inFlight
  memory : s.memory = s₀.memory.applyAll s.announced
  untouched : ∀ slot, (∀ op ∈ s.unit.changes, op.slot ≠ slot) → s.unit.contents.get slot = s₀.unit.contents.get slot
  touched : ∀ slot, (∃ op ∈ s.unit.changes, op.slot = slot) →
    s.unit.contents.get slot = ((s₀.memory.applyAll s.unit.changes).get slot).bind PyValue.written ∧
      (s.unit.contents.get slot).isSome = ((s₀.memory.applyAll s.unit.changes).get slot).isSome

variable {s₀ s s' : Domain}

theorem Same.enqueue (s : Domain) (job : DomainJob) : s.Same (s.enqueue job) := by
  unfold Domain.enqueue
  split <;> exact ⟨rfl, rfl, rfl, rfl, rfl⟩

/-- A job that gets the slot changes nothing before its first await. -/
theorem Same.run {s : Domain} (hfree : s.writing = none) (job : DomainJob) : s.Same (s.run job) := by
  have hnone : s.inFlight = [] := by simp [Domain.inFlight, hfree]
  have hwrite : ∀ op, s.Same (s.write op) := fun op => ⟨rfl, rfl, rfl, rfl, hnone.symm⟩
  have hanswers : ∀ result, s.Same (s.answers result) := fun result => ⟨rfl, rfl, rfl, rfl, rfl⟩
  cases job with
  | put table key checked => exact hwrite _
  | delete table key =>
    simp only [Domain.run]
    split
    · exact hanswers _
    · exact hwrite _
  | update table key change =>
    simp only [Domain.run]
    split
    · exact hanswers _
    · split
      · exact hanswers _
      · split
        · exact hanswers _
        · exact hwrite _
  | set checked => exact hwrite _
  | drain => exact ⟨rfl, rfl, rfl, rfl, rfl⟩

/-- What a step can do: the unit's write takes effect; or it returns, and memory has its change, and it is announced; or nothing of
the three moves. -/
theorem step_cases {a : DomainAction} (h : s.step a = some s') :
    (∃ op stored, a = .lands ∧ s.writing = some ⟨op, false⟩ ∧ op.traverse PyValue.written = some stored ∧ s'.spec = s.spec ∧
        s'.memory = s.memory ∧ s'.announced = s.announced ∧ s'.inFlight = [op] ∧ s'.answer = none ∧
        s'.unit = { contents := s.unit.contents.apply stored, changes := s.unit.changes ++ [op] }) ∨
      (∃ op, s.inFlight = [op] ∧ s'.spec = s.spec ∧ s'.memory = s.memory.apply op ∧ s'.unit = s.unit ∧
        s'.announced = s.announced ++ [op] ∧ s'.inFlight = [] ∧ s'.answer = some (.ok ())) ∨
      s.Same s' := by
  have hanswers : ∀ result, s.Same (s.answers result) := fun result => ⟨rfl, rfl, rfl, rfl, rfl⟩
  cases a with
  | put table key value =>
    simp only [step] at h
    split at h
    · cases h
      exact Or.inr (Or.inr (hanswers _))
    · split at h
      · cases h
        exact Or.inr (Or.inr (hanswers _))
      · cases h
        exact Or.inr (Or.inr (.enqueue s _))
  | delete table key =>
    simp only [step] at h
    split at h
    · cases h
      exact Or.inr (Or.inr (hanswers _))
    · cases h
      exact Or.inr (Or.inr (.enqueue s _))
  | update table key change =>
    simp only [step] at h
    split at h
    · cases h
      exact Or.inr (Or.inr (hanswers _))
    · cases h
      exact Or.inr (Or.inr (.enqueue s _))
  | set value =>
    simp only [step] at h
    split at h
    · cases h
      exact Or.inr (Or.inr (hanswers _))
    · split at h
      · cases h
        exact Or.inr (Or.inr (hanswers _))
      · cases h
        exact Or.inr (Or.inr (.enqueue s _))
  | close =>
    simp only [step] at h
    split at h
    · cases h
      exact Or.inr (Or.inr (hanswers _))
    · cases h
      exact Or.inr (Or.inr ⟨rfl, rfl, rfl, rfl, rfl⟩)
  | enter =>
    simp only [step] at h
    split at h
    · rename_i job rest hfree hqueue
      cases h
      have hrun := Same.run (s := { s with queue := rest }) hfree job
      exact Or.inr (Or.inr ⟨hrun.spec, hrun.memory, hrun.unit, hrun.announced, hrun.inFlight⟩)
    · cases h
  | lands =>
    simp only [step] at h
    split at h
    · rename_i op hwriting
      obtain ⟨stored, hstored, rfl⟩ := Option.map_eq_some_iff.mp h
      exact Or.inl ⟨op, stored, rfl, hwriting, hstored, rfl, rfl, rfl, rfl, rfl, rfl⟩
    · cases h
  | returns =>
    simp only [step] at h
    split at h
    · rename_i op hwriting
      cases h
      exact Or.inr (Or.inl ⟨op, by simp [Domain.inFlight, hwriting], rfl, rfl, rfl, rfl, rfl, rfl⟩)
    · cases h
  | raises =>
    simp only [step] at h
    split at h
    · rename_i op hwriting
      cases h
      have hnone : s.inFlight = [] := by simp [Domain.inFlight, hwriting]
      exact Or.inr (Or.inr ⟨rfl, rfl, rfl, rfl, hnone.symm⟩)
    · cases h
  | cancel n =>
    simp only [step] at h
    split at h
    · cases h
      exact Or.inr (Or.inr ⟨rfl, rfl, rfl, rfl, rfl⟩)
    · cases h
  | released =>
    simp only [step] at h
    split at h
    · cases h
      exact Or.inr (Or.inr ⟨rfl, rfl, rfl, rfl, rfl⟩)
    · cases h
  | releaseFails =>
    simp only [step] at h
    split at h
    · cases h
      exact Or.inr (Or.inr ⟨rfl, rfl, rfl, rfl, rfl⟩)
    · cases h

theorem Inv.step (hinv : Inv s₀ s) {a : DomainAction} (h : s.step a = some s') : Inv s₀ s' := by
  rcases step_cases h with ⟨op, stored, -, hwriting, hstored, hspec, hmemory, hannounced, hflight, -, hunit⟩ |
    ⟨op, hbefore, hspec, hmemory, hunit, hannounced, hflight, -⟩ | hsame
  · have hempty : s.inFlight = [] := by simp [Domain.inFlight, hwriting]
    have hchanges : s.unit.changes = s.announced := by simpa [hempty] using hinv.changes
    obtain ⟨hslot, hleft⟩ := KvOp.traverse_spec hstored
    have happly : s₀.memory.applyAll (s.unit.changes ++ [op]) = (s₀.memory.applyAll s.unit.changes).apply op := by
      simp [KvContents.applyAll]
    refine ⟨hspec.trans hinv.spec, ?_, ?_, ?_, ?_⟩
    · rw [hunit, hannounced, hflight, hchanges]
    · rw [hmemory, hannounced, hinv.memory]
    · intro slot hnone
      rw [hunit] at hnone ⊢
      obtain ⟨hold, hop⟩ := List.forall_mem_append.mp hnone
      have hne : slot ≠ stored.slot := fun heq => hop op List.mem_cons_self (hslot.symm.trans heq.symm)
      rw [KvContents.get_apply, if_neg hne]
      exact hinv.untouched slot hold
    · intro slot hsome
      rw [hunit] at hsome ⊢
      rw [KvContents.get_apply, happly, KvContents.get_apply, hslot, hleft]
      by_cases heq : slot = op.slot
      · rw [if_pos heq, if_pos heq]
        refine ⟨rfl, ?_⟩
        rw [← hleft]
        cases op with
        | putRecord table key value =>
          obtain ⟨w, -, rfl⟩ := Option.map_eq_some_iff.mp hstored
          rfl
        | deleteRecord table key =>
          cases hstored
          rfl
        | setGlobal value =>
          obtain ⟨w, -, rfl⟩ := Option.map_eq_some_iff.mp hstored
          rfl
      · rw [if_neg heq, if_neg heq]
        refine hinv.touched slot ?_
        obtain ⟨op', hop', hslot'⟩ := hsome
        rcases List.mem_append.mp hop' with hop' | hop'
        · exact ⟨op', hop', hslot'⟩
        · rw [List.mem_singleton.mp hop'] at hslot'
          exact absurd hslot'.symm heq
  · have happly : s₀.memory.applyAll (s.announced ++ [op]) = (s₀.memory.applyAll s.announced).apply op := by
      simp [KvContents.applyAll]
    refine ⟨hspec.trans hinv.spec, ?_, ?_, ?_, ?_⟩
    · rw [hunit, hannounced, hflight, hinv.changes, hbefore, List.append_nil]
    · rw [hmemory, hannounced, hinv.memory, happly]
    · rw [hunit]
      exact hinv.untouched
    · rw [hunit]
      exact hinv.touched
  · refine ⟨hsame.spec.trans hinv.spec, ?_, ?_, ?_, ?_⟩
    · rw [hsame.unit, hsame.announced, hsame.inFlight]
      exact hinv.changes
    · rw [hsame.memory, hsame.announced]
      exact hinv.memory
    · rw [hsame.unit]
      exact hinv.untouched
    · rw [hsame.unit]
      exact hinv.touched

/-- What the opened domain shows: of every slot, what the schema makes of the stored value. -/
theorem open_spec {spec : DomainSpec} {contents : KvContents Parsed} (h : Domain.open spec contents = some s₀) :
    ∃ memory, s₀ = { spec, memory, unit := { contents } } ∧ ∀ slot, memory.get slot = spec.shows slot (contents.get slot) := by
  obtain ⟨tables, htables, h⟩ := Option.bind_eq_some_iff.mp h
  obtain ⟨global, hglobal, h⟩ := Option.bind_eq_some_iff.mp h
  cases h
  refine ⟨_, rfl, fun slot => ?_⟩
  cases slot with
  | global => exact hglobal.symm
  | record table key =>
    simp only [KvContents.get, DomainSpec.shows, Dict.get?_traverse htables]
    cases hspec : spec.tables.get? table with
    | none => rfl
    | some validate =>
      obtain ⟨rows, hrows⟩ := Option.isSome_iff_exists.mp
        (Dict.traverse_isSome.mp (Option.isSome_of_eq_some htables) table validate hspec)
      simp only [Option.bind_some, hrows, Dict.get?_traverse hrows]
      cases contents.tables.get? table <;> rfl

theorem Inv.start {spec : DomainSpec} {memory : KvContents PyValue} {contents : KvContents Parsed} :
    Inv { spec, memory, unit := { contents } } { spec, memory, unit := { contents } } := by
  refine ⟨rfl, rfl, rfl, fun _ _ => rfl, fun slot hsome => ?_⟩
  obtain ⟨op, hop, -⟩ := hsome
  cases hop

/-- A slot of memory after some changes has what one of them left, or what it had. -/
theorem get_applyAll_shown (c : KvContents PyValue) (ops : List (KvOp PyValue)) {slot : KvSlot} {value : PyValue}
    (h : (c.applyAll ops).get slot = some value) : c.get slot = some value ∨ ∃ op ∈ ops, op.slot = slot ∧ op.left = some value := by
  induction ops generalizing c with
  | nil => exact Or.inl h
  | cons op ops ih =>
    rcases ih (c.apply op) h with hget | ⟨op', hop', hleft⟩
    · rw [KvContents.get_apply] at hget
      split at hget
      · rename_i hslot
        exact Or.inr ⟨op, List.mem_cons_self, hslot.symm, hget⟩
      · exact Or.inl hget
    · exact Or.inr ⟨op', List.mem_cons_of_mem op hop', hleft⟩

theorem Inv.mirrors {spec : DomainSpec} {contents : KvContents Parsed} (hopen : Domain.open spec contents = some s₀)
    (h : Inv s₀ s) : Mirrors s₀ s := by
  obtain ⟨memory, rfl, hshows⟩ := open_spec hopen
  constructor
  · intro hflight slot hwritten
    have hchanges : s.unit.changes = s.announced := by simpa [hflight] using h.changes
    obtain ⟨hvalue, hsome⟩ := h.touched slot (hchanges ▸ hwritten)
    rw [hchanges, ← h.memory] at hvalue hsome
    refine ⟨?_, hsome⟩
    rw [hvalue]
    cases s.memory.get slot with
    | none => rfl
    | some v => exact v.map_written
  · intro hflight slot hunwritten
    have hchanges : s.unit.changes = s.announced := by simpa [hflight] using h.changes
    rw [h.untouched slot (hchanges ▸ hunwritten), h.memory, KvContents.get_applyAll_of_ne _ hunwritten, h.spec]
    exact hshows slot
  · intro slot value hvalue
    rw [h.memory] at hvalue
    rcases get_applyAll_shown _ _ hvalue with hold | ⟨op, hop, hleft⟩
    · exact Or.inl hold
    · refine Or.inr ⟨op, ?_, hleft⟩
      rw [h.changes]
      exact List.mem_append_left _ hop
  · exact h.changes

end Domain

namespace DomainRuns

/-- One table without a schema, and a global value. -/
def settings : DomainSpec :=
  { name := "settings"
    version := 1
    tables := Dict.empty.set "entries" none
    global := some { validate := none, initial := .str "off" } }

/-- A unit that was never written. -/
def unwritten : KvContents Parsed := { tables := .empty, global := ⟨.none, rfl⟩ }

/-- The domain on it. -/
def opened : Domain :=
  { spec := settings
    memory := { tables := Dict.empty.set "entries" .empty, global := .str "off" }
    unit := { contents := unwritten } }

theorem open_settings : Domain.open settings unwritten = some opened := rfl

/-- A put that fails, and a put that returns. -/
def puts : List DomainAction :=
  [.put "entries" "a" (.int 1), .put "entries" "a" (.int 2), .enter, .raises, .enter, .lands, .returns]

/-- The domain after some actions. -/
def after (actions : List DomainAction) : Domain := (Machine.exec Domain.step opened actions).getD opened

end DomainRuns

end Pydsh
