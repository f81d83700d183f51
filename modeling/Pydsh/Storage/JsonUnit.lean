import Mathlib.Data.List.Induction
import Pydsh.Storage.Unit

/-!
# The JSON backend

`storage/atomic.py` and `storage/json_backend.py`: a unit is one file, rewritten as a whole on every call. A call changes the tables
in memory and then writes them, so the tables of an open unit have had every call, and its file holds what they were at the last
write that succeeded (`run_spec`). A call that raised is therefore part of the next file that is written; `reopened_iff` says when no
reader can tell.
-/

namespace Pydsh

/-! ## `write_file_atomic` -/

/-- Where `write_file_atomic` may raise. -/
inductive WriteFault where
  | mkdir | create | write | flush | fsync | replace
  deriving DecidableEq

/-- A file, and the temporary beside it with what has been written of it. -/
structure FileSlot (α : Type) where
  target : Option α
  temporary : Option (Option α)

/-- `write_file_atomic`. -/
def writeFileAtomic {α : Type} (fault : Option WriteFault) (file : FileSlot α) (data : α) :
    Except WriteFault Unit × FileSlot α :=
  match fault with
  | some .mkdir => (.error .mkdir, file)
  | some .create => (.error .create, file)
  | some .replace =>
    let written : FileSlot α := { file with temporary := some (some data) }
    (.error .replace, { written with temporary := none })
  | some stage =>
    let created : FileSlot α := { file with temporary := some none }
    (.error stage, { created with temporary := none })
  | none => (.ok (), { target := some data, temporary := none })

theorem writeFileAtomic_spec {α : Type} (fault : Option WriteFault) (file : FileSlot α) (data : α) :
    (fault = none ∧ writeFileAtomic fault file data = (.ok (), { target := some data, temporary := none })) ∨
      ∃ stage, fault = some stage ∧ (writeFileAtomic fault file data).1 = .error stage ∧
        (writeFileAtomic fault file data).2.target = file.target := by
  cases fault with
  | none => exact Or.inl ⟨rfl, rfl⟩
  | some stage => cases stage <;> exact Or.inr ⟨_, rfl, rfl, rfl⟩

/-! ## `JsonKvUnit` -/

/-- A unit file: what `json.load` gives for it. -/
structure UnitDocument where
  format : Int
  name : String
  version : Int
  contents : KvContents Parsed

/-- The tables and the global value that a handle for the descriptor reads from a document. -/
def UnitDocument.loaded (d : UnitDocument) (descriptor : UnitDescriptor) : KvContents PyValue :=
  (d.contents.map Parsed.value).declare descriptor.tables

/-- What may be at the path of a unit file. -/
inductive UnitFile where
  /-- Not JSON, or not to be read. -/
  | unreadable
  /-- Not an object with a `tables` object. -/
  | misshapen
  | document (d : UnitDocument)

/-- Why a call on a unit raises. -/
inductive UnitError where
  | storage (e : StorageError)
  /-- `json.dumps` raised. -/
  | notJson
  /-- Writing the file raised. -/
  | os (stage : WriteFault)

/-- `MEDIUM_FORMAT`. -/
def mediumFormat : Int := 1

/-- `_read_unit_file`: no document where the file is absent. -/
def readUnitFile (path name : String) (file : FileSlot UnitFile) : Except StorageError (Option UnitDocument) :=
  match file.target with
  | none => .ok none
  | some .unreadable =>
    .error ⟨.malformedMedium, "storage-json: cannot read unit " ++ quoted name ++ " at " ++ quoted path⟩
  | some .misshapen =>
    .error ⟨.malformedMedium, "storage-json: unit file for " ++ quoted name ++ " at " ++ quoted path ++
      " has the wrong shape (expected an object with a 'tables' object)"⟩
  | some (.document d) => .ok (some d)

/-- One opened JSON unit; `memory` is its `_tables` and `_global`. -/
structure JsonKvUnit where
  path : String
  name : String
  version : Int
  memory : KvContents PyValue
  closed : Bool

namespace JsonKvUnit

/-- `_persist`. -/
def persist (u : JsonKvUnit) (fault : Option WriteFault) (file : FileSlot UnitFile) :
    Except UnitError Unit × FileSlot UnitFile :=
  match u.memory.traverse PyValue.written with
  | none => (.error .notJson, file)
  | some contents =>
    match writeFileAtomic fault file (.document ⟨mediumFormat, u.name, u.version, contents⟩) with
    | (.ok (), file) => (.ok (), file)
    | (.error stage, file) => (.error (.os stage), file)

/-- The unit of a file that is absent: empty tables and no global value. -/
def fresh (path : String) (descriptor : UnitDescriptor) : JsonKvUnit :=
  { path
    name := descriptor.name
    version := descriptor.version
    memory := KvContents.declare { tables := .empty, global := .none } descriptor.tables
    closed := false }

/-- `JsonKvUnit(path, descriptor)`. -/
def «open» (path : String) (descriptor : UnitDescriptor) (fault : Option WriteFault) (file : FileSlot UnitFile) :
    Except UnitError JsonKvUnit × FileSlot UnitFile :=
  match readUnitFile path descriptor.name file with
  | .error e => (.error (.storage e), file)
  | .ok none =>
    match (fresh path descriptor).persist fault file with
    | (.ok (), file) => (.ok (fresh path descriptor), file)
    | (.error e, file) => (.error e, file)
  | .ok (some stored) =>
    if stored.version ≠ descriptor.version then
      (.error (.storage ⟨.versionMismatch, "storage-json: unit " ++ quoted descriptor.name ++ " on disk is version " ++
        toString stored.version ++ ", expected " ++ toString descriptor.version⟩), file)
    else
      (.ok
        { path
          name := descriptor.name
          version := descriptor.version
          memory := stored.loaded descriptor
          closed := false }, file)

/-- `_assert_open`. -/
def assertOpen (u : JsonKvUnit) : Except UnitError Unit :=
  if u.closed then .error (.storage ⟨.closed, "storage-json: unit " ++ quoted u.name ++ " is closed"⟩) else .ok ()

/-- `load_all`. -/
def loadAll (u : JsonKvUnit) : Except UnitError (KvContents PyValue) := (u.assertOpen).map (fun _ => u.memory)

/-- A call that writes: the tables in memory first, then the file. -/
def write (u : JsonKvUnit) (op : KvOp PyValue) (fault : Option WriteFault) (file : FileSlot UnitFile) :
    Except UnitError Unit × JsonKvUnit × FileSlot UnitFile :=
  match u.assertOpen with
  | .error e => (.error e, u, file)
  | .ok () =>
    let changed : JsonKvUnit := { u with memory := u.memory.apply op }
    let (result, file) := changed.persist fault file
    (result, changed, file)

/-- `put_record`. -/
def putRecord (u : JsonKvUnit) (table key : String) (value : PyValue) := u.write (.putRecord table key value)

/-- `delete_record`. -/
def deleteRecord (u : JsonKvUnit) (table key : String) := u.write (.deleteRecord table key)

/-- `set_global`. -/
def setGlobal (u : JsonKvUnit) (value : PyValue) := u.write (.setGlobal value)

/-- `close`. -/
def close (u : JsonKvUnit) : JsonKvUnit := { u with closed := true }

/-! ## Runs -/

/-- A unit and its file, with the calls made so far, each with whether it returned. -/
structure Run where
  u : JsonKvUnit
  file : FileSlot UnitFile
  returned : List (KvOp PyValue × Bool)

/-- A call, with where the write of its file fails. -/
def Run.step (r : Run) (call : KvOp PyValue × Option WriteFault) : Run :=
  let (result, u, file) := r.u.write call.1 call.2 r.file
  { u, file, returned := r.returned ++ [(call.1, result.isOk)] }

/-- Some calls on an open unit. -/
def run (u : JsonKvUnit) (file : FileSlot UnitFile) (calls : List (KvOp PyValue × Option WriteFault)) : Run :=
  calls.foldl Run.step { u, file, returned := [] }

/-- What a new handle on the file loads. -/
def reopened (path : String) (descriptor : UnitDescriptor) (file : FileSlot UnitFile) : Except UnitError (KvContents PyValue) :=
  (JsonKvUnit.open path descriptor none file).1.bind loadAll

/-! ## What the file of a unit holds -/

/-- Whether the file of a call is written: the write does not fail, and `json.dumps` takes what is in memory after the call. -/
def written (c : KvContents PyValue) (fault : Option WriteFault) : Bool :=
  fault.isNone && (c.traverse PyValue.written).isSome

/-- Some calls from contents in memory, each with whether its file is written. -/
def marked (c : KvContents PyValue) : List (KvOp PyValue × Option WriteFault) → List (KvOp PyValue × Bool)
  | [] => []
  | (op, fault) :: calls => (op, written (c.apply op) fault) :: marked (c.apply op) calls

/-- The calls up to the last one whose file is written. -/
def flushed (calls : List (KvOp PyValue × Bool)) : List (KvOp PyValue × Bool) :=
  (calls.reverse.dropWhile (fun call => !call.2)).reverse

/-- The calls whose file is written. -/
def kept (calls : List (KvOp PyValue × Bool)) : List (KvOp PyValue) := (calls.filter (·.2)).map (·.1)

/-- What was loaded is some contents, each value as it comes back from a file. -/
structure Shows (loaded c : KvContents PyValue) : Prop where
  tables : ∀ table, loaded.HasTable table ↔ c.HasTable table
  slots : ∀ slot, loaded.get slot = (c.get slot).bind PyValue.reload

/-- Up to the last write that succeeds, a call whose write failed leaves nothing of its own: it is followed by another call on its
slot, or its slot comes back with the value the calls before it that were written left there; and it makes no table that is not
there without it. -/
structure Traceless (c : KvContents PyValue) (calls : List (KvOp PyValue × Bool)) : Prop where
  slots : ∀ before op after, flushed calls = before ++ (op, false) :: after → (∀ later ∈ after, later.1.slot ≠ op.slot) →
    op.left.bind PyValue.reload = ((c.applyAll (kept before)).get op.slot).bind PyValue.reload
  tables : ∀ op table, (op, false) ∈ flushed calls → op.creates = some table →
    c.HasTable table ∨ ∃ written, (written, true) ∈ flushed calls ∧ written.creates = some table

/-! ### Lists of calls -/

theorem marked_concat (c : KvContents PyValue) (calls : List (KvOp PyValue × Option WriteFault)) (op : KvOp PyValue)
    (fault : Option WriteFault) : marked c (calls ++ [(op, fault)]) =
      marked c calls ++ [(op, written ((c.applyAll (calls.map (·.1))).apply op) fault)] := by
  induction calls generalizing c with
  | nil => rfl
  | cons call calls ih => exact congrArg (_ :: ·) (ih (c.apply call.1))

theorem marked_ops (c : KvContents PyValue) (calls : List (KvOp PyValue × Option WriteFault)) :
    (marked c calls).map (·.1) = calls.map (·.1) := by
  induction calls generalizing c with
  | nil => rfl
  | cons call calls ih => exact congrArg (call.1 :: ·) (ih (c.apply call.1))

theorem flushed_concat (calls : List (KvOp PyValue × Bool)) (op : KvOp PyValue) (b : Bool) :
    flushed (calls ++ [(op, b)]) = if b then calls ++ [(op, b)] else flushed calls := by
  cases b <;> simp [flushed]

theorem kept_flushed (calls : List (KvOp PyValue × Bool)) : kept (flushed calls) = kept calls := by
  induction calls using List.reverseRecOn with
  | nil => rfl
  | append_singleton calls call ih =>
    obtain ⟨op, b⟩ := call
    rw [flushed_concat]
    cases b with
    | true => rfl
    | false => simpa [kept] using ih

theorem mem_kept {calls : List (KvOp PyValue × Bool)} {op : KvOp PyValue} : op ∈ kept calls ↔ (op, true) ∈ calls := by
  simp [kept]

theorem last_on (calls : List (KvOp PyValue × Bool)) (slot : KvSlot) : (∀ call ∈ calls, call.1.slot ≠ slot) ∨
    ∃ before call after, calls = before ++ call :: after ∧ call.1.slot = slot ∧ ∀ later ∈ after, later.1.slot ≠ slot := by
  induction calls using List.reverseRecOn with
  | nil => exact Or.inl (by simp)
  | append_singleton calls call ih =>
    by_cases hslot : call.1.slot = slot
    · exact Or.inr ⟨calls, call, [], rfl, hslot, by simp⟩
    · rcases ih with hnone | ⟨before, call', after, rfl, hslot', hafter⟩
      · refine Or.inl (fun later hlater => ?_)
        rcases List.mem_append.mp hlater with hlater | hlater
        · exact hnone later hlater
        · rw [List.mem_singleton.mp hlater]
          exact hslot
      · refine Or.inr ⟨before, call', after ++ [call], by simp, hslot', fun later hlater => ?_⟩
        rcases List.mem_append.mp hlater with hlater | hlater
        · exact hafter later hlater
        · rw [List.mem_singleton.mp hlater]
          exact hslot

/-- The slot of a call that was not written, and that no call follows, has what the written calls before it left there. -/
theorem get_kept (c : KvContents PyValue) {before after : List (KvOp PyValue × Bool)} {op : KvOp PyValue}
    (hafter : ∀ later ∈ after, later.1.slot ≠ op.slot) :
    (c.applyAll (kept (before ++ (op, false) :: after))).get op.slot = (c.applyAll (kept before)).get op.slot := by
  have hkept : kept (before ++ (op, false) :: after) = kept before ++ kept after := by simp [kept]
  rw [hkept, KvContents.applyAll_append]
  exact KvContents.get_applyAll_of_ne _ (fun later hlater => hafter _ (mem_kept.mp hlater))

/-- All calls and the written ones leave the same, as it comes back from a file, exactly when the others leave nothing. -/
theorem traceless_iff (c : KvContents PyValue) (calls : List (KvOp PyValue × Bool)) : Traceless c calls ↔
    (∀ table, (c.applyAll ((flushed calls).map (·.1))).HasTable table ↔ (c.applyAll (kept (flushed calls))).HasTable table) ∧
      ∀ slot, ((c.applyAll ((flushed calls).map (·.1))).get slot).bind PyValue.reload =
        ((c.applyAll (kept (flushed calls))).get slot).bind PyValue.reload := by
  constructor
  · intro h
    constructor
    · intro table
      rw [KvContents.hasTable_applyAll, KvContents.hasTable_applyAll]
      constructor
      · rintro (hbase | ⟨op, hop, hcreates⟩)
        · exact Or.inl hbase
        · obtain ⟨⟨op, b⟩, hcall, rfl⟩ := List.mem_map.mp hop
          cases b with
          | true => exact Or.inr ⟨op, mem_kept.mpr hcall, hcreates⟩
          | false =>
            rcases h.tables op table hcall hcreates with hbase | ⟨op', hop', hcreates'⟩
            · exact Or.inl hbase
            · exact Or.inr ⟨op', mem_kept.mpr hop', hcreates'⟩
      · rintro (hbase | ⟨op, hop, hcreates⟩)
        · exact Or.inl hbase
        · exact Or.inr ⟨op, List.mem_map.mpr ⟨(op, true), mem_kept.mp hop, rfl⟩, hcreates⟩
    · intro slot
      rcases last_on (flushed calls) slot with hnone | ⟨before, ⟨op, b⟩, after, hcalls, rfl, hafter⟩
      · rw [KvContents.get_applyAll_of_ne c, KvContents.get_applyAll_of_ne c]
        · exact fun op hop => hnone _ (mem_kept.mp hop)
        · intro op hop
          obtain ⟨call, hcall, rfl⟩ := List.mem_map.mp hop
          exact hnone call hcall
      · have hall : (c.applyAll ((flushed calls).map (·.1))).get op.slot = op.left := by
          rw [hcalls, List.map_append]
          refine KvContents.get_applyAll_last c _ op (fun later hlater => ?_)
          obtain ⟨call, hcall, rfl⟩ := List.mem_map.mp hlater
          exact hafter call hcall
        cases b with
        | true =>
          have hkept : (c.applyAll (kept (flushed calls))).get op.slot = op.left := by
            have hsplit : kept (flushed calls) = kept before ++ op :: kept after := by
              rw [hcalls]
              simp [kept]
            rw [hsplit]
            exact KvContents.get_applyAll_last c _ op (fun later hlater => hafter _ (mem_kept.mp hlater))
          rw [hall, hkept]
        | false =>
          rw [hall, h.slots before op after hcalls hafter, hcalls, get_kept c hafter]
  · rintro ⟨htables, hslots⟩
    constructor
    · intro before op after hcalls hafter
      have hslot := hslots op.slot
      rw [hcalls, get_kept c hafter, List.map_append, List.map_cons, KvContents.get_applyAll_last c] at hslot
      · exact hslot
      · intro later hlater
        obtain ⟨call, hcall, rfl⟩ := List.mem_map.mp hlater
        exact hafter call hcall
    · intro op table hop hcreates
      have htable := (htables table).mp ((KvContents.hasTable_applyAll ..).mpr
        (Or.inr ⟨op, List.mem_map.mpr ⟨(op, false), hop, rfl⟩, hcreates⟩))
      rcases (KvContents.hasTable_applyAll ..).mp htable with hbase | ⟨op', hop', hcreates'⟩
      · exact Or.inl hbase
      · exact Or.inr ⟨op', mem_kept.mp hop', hcreates'⟩

/-! ### Runs -/

/-- A unit opened for a descriptor, whose file holds some contents. -/
structure Opened (descriptor : UnitDescriptor) (u : JsonKvUnit) (file : FileSlot UnitFile) (durable : KvContents PyValue) :
    Prop where
  notClosed : u.closed = false
  version : u.version = descriptor.version
  declared : ∀ table ∈ descriptor.tables, u.memory.HasTable table
  file : ∃ d, file.target = some (.document d) ∧ d.version = descriptor.version ∧ Shows (d.loaded descriptor) durable

theorem reopened_document (path : String) {descriptor : UnitDescriptor} {file : FileSlot UnitFile} {d : UnitDocument}
    (hfile : file.target = some (.document d)) (hversion : d.version = descriptor.version) :
    reopened path descriptor file = .ok (d.loaded descriptor) := by
  unfold reopened JsonKvUnit.open readUnitFile
  rw [hfile]
  simp [hversion, loadAll, assertOpen, Except.bind, Except.map, UnitDocument.loaded]

theorem shows_written {c : KvContents PyValue} {d : UnitDocument} {descriptor : UnitDescriptor}
    (h : c.traverse PyValue.written = some d.contents) (hdeclared : ∀ table ∈ descriptor.tables, c.HasTable table) :
    Shows (d.loaded descriptor) c := by
  obtain ⟨htables, hslots⟩ := KvContents.traverse_spec h
  constructor
  · intro table
    rw [UnitDocument.loaded, KvContents.hasTable_declare, KvContents.hasTable_map, htables]
    exact ⟨fun h => h.elim id (hdeclared table), Or.inl⟩
  · intro slot
    rw [UnitDocument.loaded, KvContents.get_declare, KvContents.get_map, hslots]
    cases c.get slot with
    | none => rfl
    | some v => exact v.map_written

theorem shows_read (d : UnitDocument) (descriptor : UnitDescriptor) : Shows (d.loaded descriptor) (d.loaded descriptor) := by
  constructor
  · intro table
    exact Iff.rfl
  · intro slot
    rw [UnitDocument.loaded, KvContents.get_declare, KvContents.get_map]
    cases d.contents.get slot with
    | none => rfl
    | some p => exact p.fixed.symm

/-- What `_persist` does with contents that are JSON: the file has them, or is as it was. -/
theorem persist_spec {u : JsonKvUnit} {contents : KvContents Parsed} (fault : Option WriteFault) (file : FileSlot UnitFile)
    (h : u.memory.traverse PyValue.written = some contents) :
    (fault = none ∧ u.persist fault file =
      (.ok (), { target := some (.document ⟨mediumFormat, u.name, u.version, contents⟩), temporary := none })) ∨
      ∃ stage file', fault = some stage ∧ u.persist fault file = (.error (.os stage), file') ∧ file'.target = file.target := by
  unfold persist
  rw [h]
  rcases writeFileAtomic_spec fault file (.document ⟨mediumFormat, u.name, u.version, contents⟩) with
    ⟨hfault, hatomic⟩ | ⟨stage, hfault, hresult, htarget⟩
  · exact Or.inl ⟨hfault, by simp [hatomic]⟩
  · rcases hatomic : writeFileAtomic fault file (.document ⟨mediumFormat, u.name, u.version, contents⟩) with ⟨result, file'⟩
    rw [hatomic] at hresult htarget
    obtain rfl : result = .error stage := hresult
    exact Or.inr ⟨stage, file', hfault, by simp [hatomic], htarget⟩

theorem opened_of_open {path : String} {descriptor : UnitDescriptor} {fault : Option WriteFault} {file file' : FileSlot UnitFile}
    {u : JsonKvUnit} (h : JsonKvUnit.open path descriptor fault file = (.ok u, file')) : Opened descriptor u file' u.memory := by
  have hdeclared : ∀ c : KvContents PyValue, ∀ table ∈ descriptor.tables, (c.declare descriptor.tables).HasTable table :=
    fun c table htable => (KvContents.hasTable_declare ..).mpr (Or.inr htable)
  unfold JsonKvUnit.open at h
  cases hread : readUnitFile path descriptor.name file with
  | error e =>
    rw [hread] at h
    cases h
  | ok stored =>
    rw [hread] at h
    cases stored with
    | none =>
      obtain ⟨contents, hcontents⟩ : ∃ contents, (fresh path descriptor).memory.traverse PyValue.written = some contents := by
        refine Option.isSome_iff_exists.mp (KvContents.traverse_isSome.mpr (fun slot v hv => ?_))
        rw [fresh, KvContents.get_declare] at hv
        cases slot with
        | record table key => cases hv
        | global =>
          cases hv
          rfl
      rcases persist_spec fault file hcontents with ⟨-, hpersist⟩ | ⟨stage, left, -, hpersist, -⟩
      · simp only [hpersist] at h
        cases h
        exact ⟨rfl, rfl, hdeclared _, _, rfl, rfl, shows_written hcontents (hdeclared _)⟩
      · simp only [hpersist] at h
        cases h
    | some d =>
      have hfile : file.target = some (.document d) := by
        unfold readUnitFile at hread
        split at hread <;> simp_all
      by_cases hversion : d.version = descriptor.version
      · simp only [hversion, ne_eq, not_true_eq_false, if_false] at h
        cases h
        exact ⟨rfl, rfl, hdeclared _, d, hfile, hversion, shows_read d descriptor⟩
      · simp only [hversion, ne_eq, not_false_eq_true, if_true] at h
        cases h

/-- What a call does: memory has it in any case, the file when it is written, and it returns in just that case. -/
theorem write_spec {descriptor : UnitDescriptor} {u : JsonKvUnit} {file : FileSlot UnitFile} {durable : KvContents PyValue}
    (h : Opened descriptor u file durable) (op : KvOp PyValue) (fault : Option WriteFault) :
    (u.write op fault file).1.isOk = written (u.memory.apply op) fault ∧
      (u.write op fault file).2.1 = { u with memory := u.memory.apply op } ∧
      Opened descriptor (u.write op fault file).2.1 (u.write op fault file).2.2
        (if written (u.memory.apply op) fault then u.memory.apply op else durable) := by
  let changed : JsonKvUnit := { u with memory := u.memory.apply op }
  have hwrite : u.write op fault file = ((changed.persist fault file).1, changed, (changed.persist fault file).2) := by
    simp [write, assertOpen, h.notClosed, changed]
  have hdeclared : ∀ table ∈ descriptor.tables, changed.memory.HasTable table :=
    fun table htable => (KvContents.hasTable_apply ..).mpr (Or.inl (h.declared table htable))
  have hchanged : ∀ file' durable', (∃ d, file'.target = some (.document d) ∧ d.version = descriptor.version ∧
      Shows (d.loaded descriptor) durable') → Opened descriptor changed file' durable' :=
    fun file' durable' hfile => ⟨h.notClosed, h.version, hdeclared, hfile⟩
  rw [hwrite]
  cases hcontents : changed.memory.traverse PyValue.written with
  | none =>
    have hpersist : changed.persist fault file = (.error .notJson, file) := by simp [persist, hcontents]
    have hwritten : written (u.memory.apply op) fault = false := by
      unfold written
      rw [hcontents]
      simp
    rw [hpersist, hwritten]
    exact ⟨rfl, rfl, hchanged _ _ h.file⟩
  | some contents =>
    have hwritten : written (u.memory.apply op) fault = fault.isNone := by
      unfold written
      rw [hcontents]
      simp
    rcases persist_spec fault file hcontents with ⟨rfl, hpersist⟩ | ⟨stage, left, rfl, hpersist, htarget⟩
    · rw [hpersist, hwritten, Option.isNone_none, if_pos rfl]
      exact ⟨rfl, rfl, hchanged _ _ ⟨_, rfl, h.version, shows_written hcontents hdeclared⟩⟩
    · rw [hpersist, hwritten]
      obtain ⟨d, hd, hrest⟩ := h.file
      exact ⟨rfl, rfl, hchanged _ _ ⟨d, htarget.trans hd, hrest⟩⟩

/-- A run: memory has every call, the calls that returned are those whose file was written, and the file holds what memory was at the
last of them. -/
theorem run_spec {descriptor : UnitDescriptor} {u : JsonKvUnit} {file : FileSlot UnitFile} (h : Opened descriptor u file u.memory)
    (calls : List (KvOp PyValue × Option WriteFault)) :
    (u.run file calls).returned = marked u.memory calls ∧
      (u.run file calls).u.memory = u.memory.applyAll (calls.map (·.1)) ∧
      Opened descriptor (u.run file calls).u (u.run file calls).file
        (u.memory.applyAll ((flushed (marked u.memory calls)).map (·.1))) := by
  induction calls using List.reverseRecOn with
  | nil => exact ⟨rfl, rfl, h⟩
  | append_singleton calls call ih =>
    obtain ⟨op, fault⟩ := call
    obtain ⟨hreturned, hmemory, hopened⟩ := ih
    have hrun : u.run file (calls ++ [(op, fault)]) = (u.run file calls).step (op, fault) := List.foldl_concat ..
    obtain ⟨hok, hunit, hafter⟩ := write_spec hopened op fault
    rw [hmemory] at hok hunit hafter
    have happly : u.memory.applyAll ((calls ++ [(op, fault)]).map (·.1)) = (u.memory.applyAll (calls.map (·.1))).apply op := by
      simp [KvContents.applyAll]
    rw [hrun, marked_concat, flushed_concat, happly]
    refine ⟨?_, congrArg JsonKvUnit.memory hunit, ?_⟩
    · exact (congrArg₂ (fun xs b => xs ++ [(op, b)]) hreturned hok)
    · cases hwritten : written ((u.memory.applyAll (calls.map (·.1))).apply op) fault with
      | true =>
        rw [hwritten, if_pos rfl] at hafter
        rw [if_pos rfl, List.map_append, marked_ops, KvContents.applyAll_append]
        exact hafter
      | false =>
        rw [hwritten] at hafter
        exact hafter

/-! ## A failed write leaves no trace -/

/-- What a new handle loads after a run from a unit just opened is the contents that the calls that returned make, exactly when no
call that raised leaves anything. -/
theorem reopened_iff {path : String} {descriptor : UnitDescriptor} {fault : Option WriteFault} {file file' : FileSlot UnitFile}
    {u : JsonKvUnit} (hopen : JsonKvUnit.open path descriptor fault file = (.ok u, file'))
    (calls : List (KvOp PyValue × Option WriteFault)) :
    (∃ loaded, reopened path descriptor (u.run file' calls).file = .ok loaded ∧
      Shows loaded (u.memory.applyAll (kept (u.run file' calls).returned))) ↔ Traceless u.memory (marked u.memory calls) := by
  obtain ⟨hreturned, -, hopened⟩ := run_spec (opened_of_open hopen) calls
  obtain ⟨d, hfile, hversion, hshows⟩ := hopened.file
  have hloaded := reopened_document path hfile hversion
  rw [traceless_iff, hreturned, ← kept_flushed (marked u.memory calls)]
  constructor
  · rintro ⟨loaded, hload, hkept⟩
    obtain rfl : d.loaded descriptor = loaded := Except.ok.inj (hloaded.symm.trans hload)
    exact ⟨fun table => (hshows.tables table).symm.trans (hkept.tables table),
      fun slot => (hshows.slots slot).symm.trans (hkept.slots slot)⟩
  · rintro ⟨htables, hslots⟩
    exact ⟨_, hloaded, fun table => (hshows.tables table).trans (htables table),
      fun slot => (hshows.slots slot).trans (hslots slot)⟩

/-- A new unit of one table. -/
def settings : UnitDescriptor := { name := "settings", version := 1, tables := ["entries"] }

/-- Its file after the unit was opened. -/
def settingsFile : FileSlot UnitFile :=
  (JsonKvUnit.open "settings.json" settings none { target := none, temporary := none }).2

theorem open_settings : JsonKvUnit.open "settings.json" settings none { target := none, temporary := none } =
    (.ok (fresh "settings.json" settings), settingsFile) := rfl

/-- A put whose write fails, and a put on the same key that succeeds. -/
def overwrittenPut : List (KvOp PyValue × Option WriteFault) :=
  [(.putRecord "entries" "a" (.int 1), some .fsync), (.putRecord "entries" "a" (.int 2), none)]

theorem reopened_iff_overwritten :
    (∃ loaded, reopened "settings.json" settings ((fresh "settings.json" settings).run settingsFile overwrittenPut).file =
        .ok loaded ∧ Shows loaded ((fresh "settings.json" settings).memory.applyAll
          (kept ((fresh "settings.json" settings).run settingsFile overwrittenPut).returned))) ↔
      Traceless (fresh "settings.json" settings).memory (marked (fresh "settings.json" settings).memory overwrittenPut) :=
  reopened_iff open_settings overwrittenPut

/-- A put whose write fails, and another call that succeeds. -/
def failedPut : List (KvOp PyValue × Option WriteFault) :=
  [(.putRecord "entries" "a" (.int 1), some .replace), (.setGlobal (.str "on"), none)]

/-- The record of the failed put is in the file that the other call wrote. -/
theorem reopened_failedPut :
    ((fresh "settings.json" settings).run settingsFile failedPut).returned.map (·.2) = [false, true] ∧
      ¬ ∃ loaded, reopened "settings.json" settings ((fresh "settings.json" settings).run settingsFile failedPut).file =
          .ok loaded ∧ Shows loaded ((fresh "settings.json" settings).memory.applyAll
            (kept ((fresh "settings.json" settings).run settingsFile failedPut).returned)) := by
  refine ⟨rfl, ?_⟩
  rintro ⟨loaded, hload, hshows⟩
  have hslot := hshows.slots (.record "entries" "a")
  have hkept : kept ((fresh "settings.json" settings).run settingsFile failedPut).returned = [.setGlobal (.str "on")] := rfl
  have hfound : ∀ loaded, reopened "settings.json" settings ((fresh "settings.json" settings).run settingsFile failedPut).file =
      .ok loaded → loaded.get (.record "entries" "a") = some (.int 1) := by
    intro loaded hload
    cases hload
    rfl
  rw [hfound loaded hload, hkept] at hslot
  cases hslot

end JsonKvUnit

end Pydsh
