import Pydsh.Storage.Backends
import Pydsh.Storage.Domain

/-!
# A domain closed and opened again

`define_domain` and `StorageDomain.open` of `storage/domain.py`, on either backend. A write is checked before it reaches the unit, and what
the unit holds is checked again when the domain is opened: the check then sees the JSON form of a value it made, and takes a stored null
for a value never written. So what a domain shows of a slot that was written is there again after a reopen, and there is a reopen at all,
exactly if every value written so passes its check in its JSON form and comes out of it as it was (`domain_reopens_iff`).
-/

namespace Pydsh

/-! ## Declaring a domain -/

/-- `UNIT_NAME.fullmatch`. -/
def isUnitName (name : String) : Bool :=
  match name.toList with
  | [] => false
  | c :: rest => c.isLower && rest.all (fun c => c.isLower || c.isDigit || c == '_')

/-- The `ValueError` of `define_domain`, by what its message quotes. -/
inductive DefineError where
  | name (name : String)
  | version (name : String) (version : PyValue)
  | table (name table : String)
  | nullable (name : String)

/-- `_accepts_none`. -/
def acceptsNone (validate : RecordSchema) : Bool := (validate .none).isSome

/-- `define_domain`. -/
def defineDomain (name : String) (version : PyValue) (tables : Dict String (Option RecordSchema)) (global : Option GlobalSpec) :
    Except DefineError DomainSpec :=
  if isUnitName name = false then .error (.name name)
  else
    match version with
    | .int i =>
      if i < 0 then .error (.version name version)
      else
        match (tables.entries.map (·.1)).find? (fun table => !isUnitName table) with
        | some table => .error (.table name table)
        | none =>
          if (global.bind (·.validate)).any acceptsNone then .error (.nullable name)
          else .ok { name, version := i, tables, global }
    | _ => .error (.version name version)

/-- `DomainSpec.descriptor`. -/
def DomainSpec.descriptor (spec : DomainSpec) : UnitDescriptor :=
  { name := spec.name, version := spec.version, tables := spec.tables.entries.map (·.1) }

/-! ## A unit on either backend -/

/-- What a unit lies on: a file of its own, or rows of a database. -/
inductive Medium where
  | json (path : String) (file : FileSlot UnitFile)
  | sqlite (db : StorageDb)

/-- An open unit, with what it lies on. -/
inductive UnitHandle where
  | json (u : JsonKvUnit) (file : FileSlot UnitFile)
  | sqlite (u : SqliteKvUnit) (db : StorageDb)

/-- `KvFacet.open`; `none` where it raises. -/
def Medium.open (descriptor : UnitDescriptor) : Medium → Option UnitHandle
  | .json path file =>
    match JsonKvUnit.open path descriptor none file with
    | (.ok u, file) => some (.json u file)
    | (.error _, _) => none
  | .sqlite db =>
    match SqliteKvUnit.open descriptor db with
    | (.ok u, db) => some (.sqlite u db)
    | (.error _, _) => none

namespace UnitHandle

/-- `load_all`; `none` where it raises. -/
def loadAll : UnitHandle → Option (KvContents PyValue)
  | .json u _ => u.loadAll.toOption
  | .sqlite u db => (u.loadAll db).toOption

/-- What is loaded, as the parses that it is. -/
def loaded (h : UnitHandle) : Option (KvContents Parsed) := h.loadAll.bind (fun contents => contents.traverse PyValue.written)

/-- A call that writes, with where the medium fails: whether it returns, and the unit after it. -/
def write (op : KvOp PyValue) (fault : Option WriteFault) : UnitHandle → Bool × UnitHandle
  | .json u file =>
    match u.write op fault file with
    | (result, u, file) => (result.isOk, .json u file)
  | .sqlite u db =>
    if fault.isSome then (false, .sqlite u db)
    else
      match u.write op db with
      | (result, db) => (result.isOk, .sqlite u db)

/-- What a closed unit leaves. -/
def close : UnitHandle → Medium
  | .json u file => .json u.path file
  | .sqlite _ db => .sqlite db

end UnitHandle

/-! ## A domain on its unit -/

/-- An open domain and its unit. -/
structure DomainOn where
  domain : Domain
  unit : UnitHandle

/-- The unit's write of this action raises. -/
def DomainAction.unitRaises : DomainAction → Bool
  | .raises => true
  | _ => false

namespace DomainOn

/-- `StorageDomain.open`; `none` where it raises. -/
def «open» (spec : DomainSpec) (medium : Medium) : Option DomainOn := do
  let unit ← medium.open spec.descriptor
  let contents ← unit.loaded
  let domain ← Domain.open spec contents
  return { domain, unit }

/-- What an action does; `none` where it cannot happen. A write that takes effect does so on the unit. -/
def step (s : DomainOn) (a : DomainAction) : Option DomainOn :=
  match s.domain.step a with
  | none => none
  | some domain =>
    match a, s.domain.writing with
    | .lands, some write =>
      let (done, unit) := s.unit.write write.op none
      if done then some { domain, unit } else none
    | .raises, some write => some { domain, unit := (s.unit.write write.op (some .write)).2 }
    | _, _ => some { domain, unit := s.unit }

/-- A slot was written since the domain was opened, and announced. -/
def Written (s : DomainOn) (slot : KvSlot) : Prop := ∃ op ∈ s.domain.announced, op.slot = slot

/-- The domain can be closed and opened again, and then shows of every slot that was written what it shows now. -/
def Reopens (s : DomainOn) : Prop :=
  ∃ s', DomainOn.open s.domain.spec s.unit.close = some s' ∧
    ∀ slot, s.Written slot → s'.domain.memory.get slot = s.domain.memory.get slot

end DomainOn

/-- A value of a slot survives: it has a JSON form, and that is taken for the value when the domain is opened. For a record its schema
makes the value of it; for the global value it is no null, and the schema does, or it is null, and the value is the declared
`initial`. -/
def DomainSpec.Survives (spec : DomainSpec) (slot : KvSlot) (value : PyValue) : Prop :=
  ∃ stored, value.written = some stored ∧ spec.shows slot (some stored) = some value

/-! ## What a unit holds -/

theorem PyValue.bind_reload_written (v : PyValue) : v.reload.bind PyValue.written = v.written := by
  cases hwritten : v.written with
  | none =>
    have hnone : v.reload = Option.none := by
      rw [← v.map_written, hwritten]
      rfl
    rw [hnone]
    rfl
  | some p =>
    rw [PyValue.written_eq_some.mp hwritten]
    exact PyValue.written_value p

/-- An open unit of a descriptor holds some contents. -/
inductive UnitHandle.Holds (descriptor : UnitDescriptor) : UnitHandle → KvContents Parsed → Prop where
  | json {u : JsonKvUnit} {file : FileSlot UnitFile} {c : KvContents Parsed} (opened : JsonKvUnit.Opened descriptor u file u.memory)
    (slots : ∀ slot, (u.memory.get slot).bind PyValue.written = c.get slot)
    (encoded : ∀ slot v, u.memory.get slot = some v → v.written.isSome) : UnitHandle.Holds descriptor (.json u file) c
  | sqlite {db : StorageDb} {c : KvContents Parsed}
    (stamp : db.units.find? descriptor.name = some ⟨descriptor.name, descriptor.version⟩)
    (records : ∀ table key, db.get descriptor.name (.record table key) = c.get (.record table key))
    (global : ((db.get descriptor.name .global).map Parsed.value).getD .none = c.global.value) :
    UnitHandle.Holds descriptor (.sqlite (SqliteKvUnit.handle descriptor) db) c

variable {descriptor : UnitDescriptor} {h : UnitHandle} {c : KvContents Parsed}

theorem Parsed.ext_value {p q : Parsed} (h : p.value = q.value) : p = q := by
  obtain ⟨v, hv⟩ := p
  obtain ⟨w, hw⟩ := q
  cases h
  rfl

/-- What a handle on an open database unit loads has the values of its rows. -/
theorem sqlite_loaded {db : StorageDb} (hload : (UnitHandle.sqlite (SqliteKvUnit.handle descriptor) db).loaded = some c) :
    (∀ table key, db.get descriptor.name (.record table key) = c.get (.record table key)) ∧
      ((db.get descriptor.name .global).map Parsed.value).getD .none = c.global.value := by
  have htraverse : ((SqliteKvUnit.handle descriptor).loaded db).traverse PyValue.written = some c := hload
  obtain ⟨-, hslots⟩ := KvContents.traverse_spec htraverse
  constructor
  · intro table key
    rw [hslots, SqliteKvUnit.get_loaded_record]
    change db.get descriptor.name (.record table key) =
      ((db.get descriptor.name (.record table key)).map Parsed.value).bind PyValue.written
    cases db.get descriptor.name (.record table key) with
    | none => rfl
    | some p => exact (PyValue.written_value p).symm
  · have hglobal : ((SqliteKvUnit.handle descriptor).loaded db).global.written = some c.global := (hslots .global).symm
    have hreload := PyValue.written_eq_some.mp hglobal
    rw [SqliteKvUnit.global_loaded] at hreload
    change ((db.get descriptor.name .global).map Parsed.value).getD .none = c.global.value
    change (((db.get descriptor.name .global).map Parsed.value).getD .none).reload = some c.global.value at hreload
    cases hget : db.get descriptor.name .global with
    | none =>
      rw [hget] at hreload
      exact Option.some.inj hreload
    | some p =>
      rw [hget] at hreload
      exact Option.some.inj (p.fixed.symm.trans hreload)

theorem sqlite_open {db db' : StorageDb} {u : SqliteKvUnit} (hopen : SqliteKvUnit.open descriptor db = (.ok u, db')) :
    u = SqliteKvUnit.handle descriptor ∧ db'.units.find? descriptor.name = some ⟨descriptor.name, descriptor.version⟩ := by
  unfold SqliteKvUnit.open at hopen
  split at hopen
  · split at hopen
    · cases hopen
      exact ⟨rfl, by simp [Table.find?_upsert]⟩
    · cases hopen
  · rename_i row hrow
    split at hopen
    · cases hopen
    · rename_i hversion
      cases hopen
      obtain ⟨unit, version⟩ := row
      obtain rfl : version = descriptor.version := not_not.mp hversion
      obtain rfl : unit = descriptor.name := (Table.find?_eq_some.mp hrow).2
      exact ⟨rfl, hrow⟩

theorem holds_of_open {medium : Medium} (hopen : medium.open descriptor = some h) (hload : h.loaded = some c) :
    UnitHandle.Holds descriptor h c := by
  cases medium with
  | json path file =>
    simp only [Medium.open] at hopen
    split at hopen
    · rename_i u file' hunit
      cases hopen
      have hopened := JsonKvUnit.opened_of_open hunit
      have htraverse : u.memory.traverse PyValue.written = some c := by
        simpa [UnitHandle.loaded, UnitHandle.loadAll, JsonKvUnit.loadAll, JsonKvUnit.assertOpen, hopened.notClosed, Except.map,
          Except.toOption] using hload
      refine .json hopened (fun slot => ((KvContents.traverse_spec htraverse).2 slot).symm) ?_
      exact KvContents.traverse_isSome.mp (Option.isSome_of_eq_some htraverse)
    · cases hopen
  | sqlite db =>
    simp only [Medium.open] at hopen
    split at hopen
    · rename_i u db' hunit
      cases hopen
      obtain ⟨rfl, hstamp⟩ := sqlite_open hunit
      obtain ⟨hrecords, hglobal⟩ := sqlite_loaded hload
      exact .sqlite hstamp hrecords hglobal
    · cases hopen

/-- A call whose value has a JSON form returns, and the unit holds the contents with it. -/
theorem UnitHandle.Holds.write (hholds : UnitHandle.Holds descriptor h c) {op : KvOp PyValue} {stored : KvOp Parsed}
    (hstored : op.traverse PyValue.written = some stored) :
    ∃ h', h.write op none = (true, h') ∧ UnitHandle.Holds descriptor h' (c.apply stored) := by
  obtain ⟨hslot, hleft⟩ := KvOp.traverse_spec hstored
  cases hholds with
  | @json u file c hopened hslots hencoded =>
    have hwhole : ∀ slot v, (u.memory.apply op).get slot = some v → v.written.isSome := by
      intro slot v hv
      rw [KvContents.get_apply] at hv
      split at hv
      · cases op with
        | putRecord table key value =>
          cases hv
          obtain ⟨w, hw, -⟩ := Option.map_eq_some_iff.mp hstored
          exact Option.isSome_of_eq_some hw
        | deleteRecord table key => cases hv
        | setGlobal value =>
          cases hv
          obtain ⟨w, hw, -⟩ := Option.map_eq_some_iff.mp hstored
          exact Option.isSome_of_eq_some hw
      · exact hencoded slot v hv
    have hwritten : JsonKvUnit.written (u.memory.apply op) none = true := by
      simpa [JsonKvUnit.written] using KvContents.traverse_isSome.mpr hwhole
    obtain ⟨hok, hunit, hafter⟩ := JsonKvUnit.write_spec hopened op none
    rw [hwritten, if_pos rfl] at hafter
    refine ⟨.json (u.write op none file).2.1 (u.write op none file).2.2, ?_, ?_⟩
    · simp only [UnitHandle.write, hok, hwritten]
    · rw [hunit] at hafter ⊢
      refine .json hafter (fun slot => ?_) hwhole
      change ((u.memory.apply op).get slot).bind PyValue.written = (c.apply stored).get slot
      rw [KvContents.get_apply, KvContents.get_apply, hslot, hleft]
      split
      · rfl
      · exact hslots slot
  | @sqlite db c hstamp hrecords hglobal =>
    have hwrite : (SqliteKvUnit.handle descriptor).write op db = (.ok (), (SqliteKvUnit.handle descriptor).execute db stored) := by
      simp [SqliteKvUnit.write, SqliteKvUnit.assertOpen, SqliteKvUnit.handle, SqliteKvUnit.encodeOp, hstored]
    refine ⟨.sqlite (SqliteKvUnit.handle descriptor) ((SqliteKvUnit.handle descriptor).execute db stored), ?_, .sqlite ?_ ?_ ?_⟩
    · simp only [UnitHandle.write, hwrite]
      rfl
    · rw [SqliteKvUnit.units_execute]
      exact hstamp
    · intro table key
      have hget := SqliteKvUnit.get_execute (SqliteKvUnit.handle descriptor) db stored (.record table key)
      change _ = if _ then _ else db.get descriptor.name (.record table key) at hget
      rw [KvContents.get_apply, ← hrecords]
      exact hget
    · have hget := SqliteKvUnit.get_execute (SqliteKvUnit.handle descriptor) db stored .global
      change StorageDb.get _ descriptor.name .global = if _ then _ else db.get descriptor.name .global at hget
      have happly := KvContents.get_apply c stored .global
      rw [hget]
      split at hget
      · rename_i heq
        rw [if_pos heq] at happly
        rw [if_pos heq, ← happly]
        rfl
      · rename_i hne
        rw [if_neg hne] at happly
        have hsame : (c.apply stored).global = c.global := Option.some.inj happly
        rw [if_neg hne, hsame]
        exact hglobal

/-- A unit that holds some contents can be closed and opened again, and loads what is in their slots. -/
theorem UnitHandle.Holds.reopen (hholds : UnitHandle.Holds descriptor h c) :
    ∃ h' c', h.close.open descriptor = some h' ∧ h'.loaded = some c' ∧ ∀ slot, c'.get slot = c.get slot := by
  cases hholds with
  | @json u file c hopened hslots hencoded =>
    obtain ⟨d, hfile, hversion, hshows⟩ := hopened.file
    have hopen : (UnitHandle.json u file).close.open descriptor = some (.json
        { path := u.path
          name := descriptor.name
          version := descriptor.version
          memory := d.loaded descriptor
          closed := false } file) := by
      simp [UnitHandle.close, Medium.open, JsonKvUnit.open, readUnitFile, hfile, hversion]
    obtain ⟨c', hc'⟩ : ∃ c', (d.loaded descriptor).traverse PyValue.written = some c' := by
      refine Option.isSome_iff_exists.mp (KvContents.traverse_isSome.mpr (fun slot v hv => ?_))
      rw [UnitDocument.loaded, KvContents.get_declare, KvContents.get_map] at hv
      obtain ⟨p, -, rfl⟩ := Option.map_eq_some_iff.mp hv
      simp
    refine ⟨_, c', hopen, ?_, fun slot => ?_⟩
    · simpa [UnitHandle.loaded, UnitHandle.loadAll, JsonKvUnit.loadAll, JsonKvUnit.assertOpen, Except.map, Except.toOption] using hc'
    · rw [(KvContents.traverse_spec hc').2, hshows.slots, ← hslots]
      cases u.memory.get slot with
      | none => rfl
      | some v => exact v.bind_reload_written
  | @sqlite db c hstamp hrecords hglobal =>
    have hopen : SqliteKvUnit.open descriptor db = (.ok (SqliteKvUnit.handle descriptor), db) := by
      simp [SqliteKvUnit.open, hstamp]
    have hloadable : ∀ slot v, ((SqliteKvUnit.handle descriptor).loaded db).get slot = some v → v.written.isSome := by
      intro slot v hv
      cases slot with
      | record table key =>
        rw [SqliteKvUnit.get_loaded_record] at hv
        obtain ⟨p, -, rfl⟩ := Option.map_eq_some_iff.mp hv
        simp
      | global =>
        cases hv
        rw [SqliteKvUnit.global_loaded]
        cases StorageDb.get db (SqliteKvUnit.handle descriptor).name .global with
        | none => rfl
        | some p => simp
    obtain ⟨c', hc'⟩ := Option.isSome_iff_exists.mp (KvContents.traverse_isSome.mpr hloadable)
    have hload : (UnitHandle.sqlite (SqliteKvUnit.handle descriptor) db).loaded = some c' := hc'
    refine ⟨.sqlite _ db, c', by simp only [UnitHandle.close, Medium.open, hopen], hload, fun slot => ?_⟩
    obtain ⟨hrecords', hglobal'⟩ := sqlite_loaded hload
    cases slot with
    | record table key => rw [← hrecords', ← hrecords]
    | global => exact congrArg some (Parsed.ext_value (hglobal'.symm.trans hglobal))

/-! ## Runs of a domain on its unit -/

/-- A slot is of a table the domain declares, or the global one. -/
def DomainSpec.Declares (spec : DomainSpec) : KvSlot → Prop
  | .record table _ => (spec.tables.get? table).isSome
  | .global => True

/-- A domain can be opened on contents exactly if what each of its slots holds passes its check. -/
theorem Domain.open_isSome_iff {spec : DomainSpec} {contents : KvContents Parsed} : (Domain.open spec contents).isSome ↔
    ∀ slot p, contents.get slot = some p → spec.Declares slot → (spec.shows slot (some p)).isSome := by
  have htables : (spec.tables.traverse (fun table validate => ((contents.tables.get? table).getD .empty).traverse (fun key p =>
      (checkedValue spec.name table key validate p.value).toOption))).isSome ↔
        ∀ table key p, contents.get (.record table key) = some p → spec.Declares (.record table key) →
          (spec.shows (.record table key) (some p)).isSome := by
    rw [Dict.traverse_isSome]
    constructor
    · intro hall table key p hget hdeclared
      obtain ⟨validate, hvalidate⟩ := Option.isSome_iff_exists.mp hdeclared
      obtain ⟨rows, hrows, hp⟩ := Option.bind_eq_some_iff.mp hget
      have htable := hall table validate hvalidate
      rw [hrows] at htable
      have hkey := Dict.traverse_isSome.mp htable key p hp
      simpa [DomainSpec.shows, hvalidate] using hkey
    · intro hall table validate hvalidate
      refine Dict.traverse_isSome.mpr (fun key p hp => ?_)
      cases hrows : contents.tables.get? table with
      | none =>
        rw [hrows] at hp
        cases hp
      | some rows =>
        rw [hrows] at hp
        have hget : contents.get (.record table key) = some p := Option.bind_eq_some_iff.mpr ⟨rows, hrows, hp⟩
        have hshown := hall table key p hget (Option.isSome_of_eq_some hvalidate)
        simpa [DomainSpec.shows, hvalidate] using hshown
  constructor
  · intro hopen slot p hget hdeclared
    obtain ⟨s, hs⟩ := Option.isSome_iff_exists.mp hopen
    obtain ⟨tables, htraverse, hs⟩ := Option.bind_eq_some_iff.mp hs
    obtain ⟨global, hglobal, -⟩ := Option.bind_eq_some_iff.mp hs
    cases slot with
    | record table key => exact htables.mp (Option.isSome_of_eq_some htraverse) table key p hget hdeclared
    | global =>
      cases hget
      exact Option.isSome_of_eq_some hglobal
  · intro hall
    obtain ⟨tables, htraverse⟩ := Option.isSome_iff_exists.mp
      (htables.mpr (fun table key p hget hdeclared => hall (.record table key) p hget hdeclared))
    obtain ⟨global, hglobal⟩ := Option.isSome_iff_exists.mp (hall .global contents.global rfl trivial)
    simp [Domain.open, htraverse, hglobal]

namespace DomainOn

variable {spec : DomainSpec} {medium : Medium} {s₀ s s' : DomainOn}

/-- What every run without a raising unit keeps: the memory of the domain mirrors its model of the unit, and the unit holds that. -/
structure Inv (s₀ s : DomainOn) : Prop where
  domain : Domain.Inv s₀.domain s.domain
  holds : UnitHandle.Holds s₀.domain.spec.descriptor s.unit s.domain.unit.contents

theorem open_spec (hopen : DomainOn.open spec medium = some s) : ∃ contents, medium.open spec.descriptor = some s.unit ∧
    s.unit.loaded = some contents ∧ Domain.open spec contents = some s.domain := by
  obtain ⟨unit, hunit, hopen⟩ := Option.bind_eq_some_iff.mp hopen
  obtain ⟨contents, hcontents, hopen⟩ := Option.bind_eq_some_iff.mp hopen
  obtain ⟨domain, hdomain, hopen⟩ := Option.bind_eq_some_iff.mp hopen
  cases hopen
  exact ⟨contents, hunit, hcontents, hdomain⟩

theorem Inv.start (hopen : DomainOn.open spec medium = some s₀) : Inv s₀ s₀ := by
  obtain ⟨contents, hunit, hload, hdomain⟩ := open_spec hopen
  obtain ⟨memory, hs, -⟩ := Domain.open_spec hdomain
  have hholds := holds_of_open hunit hload
  obtain ⟨domain, unit⟩ := s₀
  obtain rfl : domain = _ := hs
  exact ⟨Domain.Inv.start, hholds⟩

theorem unit_of_not_lands {d d' : Domain} {a : DomainAction} (hstep : d.step a = some d') (hlands : a ≠ .lands) : d'.unit = d.unit := by
  rcases Domain.step_cases hstep with ⟨op, stored, ha, -⟩ | ⟨op, -, -, -, hunit, -⟩ | hsame
  · exact absurd ha hlands
  · exact hunit
  · exact hsame.unit

theorem lands_spec {d d' : Domain} (hstep : d.step .lands = some d') : ∃ op stored, d.writing = some ⟨op, false⟩ ∧
    op.traverse PyValue.written = some stored ∧ d'.unit.contents = d.unit.contents.apply stored := by
  simp only [Domain.step] at hstep
  split at hstep
  · rename_i op hwriting
    obtain ⟨stored, hstored, rfl⟩ := Option.map_eq_some_iff.mp hstep
    exact ⟨op, stored, hwriting, hstored, rfl⟩
  · cases hstep

theorem Inv.step (h : Inv s₀ s) {a : DomainAction} (hraises : a.unitRaises = false) (hstep : s.step a = some s') : Inv s₀ s' := by
  unfold DomainOn.step at hstep
  cases hdomain : s.domain.step a with
  | none =>
    rw [hdomain] at hstep
    cases hstep
  | some domain =>
    simp only [hdomain] at hstep
    have hinv := h.domain.step hdomain
    by_cases hlands : a = .lands
    · subst hlands
      obtain ⟨op, stored, hwriting, hstored, hcontents⟩ := lands_spec hdomain
      obtain ⟨unit, hwrite, hholds⟩ := h.holds.write hstored
      simp only [hwriting, hwrite, if_true] at hstep
      obtain rfl := Option.some.inj hstep
      exact ⟨hinv, by rw [hcontents]; exact hholds⟩
    · have hholds : UnitHandle.Holds s₀.domain.spec.descriptor s.unit domain.unit.contents := by
        rw [unit_of_not_lands hdomain hlands]
        exact h.holds
      split at hstep
      · exact absurd rfl hlands
      · cases hraises
      · obtain rfl := Option.some.inj hstep
        exact ⟨hinv, hholds⟩

/-- What a quiet state holds of a slot: the JSON form of a value that was written, and what was there when the domain was opened
otherwise. -/
theorem Inv.contents (h : Inv s₀ s) (hquiet : s.domain.writing = none) (slot : KvSlot) :
    (s.Written slot → s.domain.unit.contents.get slot = (s.domain.memory.get slot).bind PyValue.written ∧
        (s.domain.unit.contents.get slot).isSome = (s.domain.memory.get slot).isSome) ∧
      (¬s.Written slot → s.domain.unit.contents.get slot = s₀.domain.unit.contents.get slot) := by
  have hflight : s.domain.inFlight = [] := by simp [Domain.inFlight, hquiet]
  have hchanges : s.domain.unit.changes = s.domain.announced := by simpa [hflight] using h.domain.changes
  constructor
  · intro hwritten
    have htouched := h.domain.touched slot (hchanges ▸ hwritten)
    rw [hchanges, ← h.domain.memory] at htouched
    exact htouched
  · intro hunwritten
    refine h.domain.untouched slot (fun op hop heq => hunwritten ⟨op, ?_, heq⟩)
    rwa [← hchanges]

end DomainOn

/-- After any run of a domain on either backend in which no write of the unit raised, at a moment when none is under way: the domain can be
closed and opened again, and then shows of every slot that was written what it showed, exactly if every value that was written and is
still there survives. -/
theorem domain_reopens_iff {spec : DomainSpec} {medium : Medium} {s₀ s : DomainOn} (hopen : DomainOn.open spec medium = some s₀)
    (hrun : Machine.Reach DomainOn.step (fun _ a => a.unitRaises = false) s₀ s) (hquiet : s.domain.writing = none) :
    s.Reopens ↔ ∀ slot value, s.Written slot → s.domain.memory.get slot = some value → spec.Survives slot value := by
  have hinv := hrun.invariant (DomainOn.Inv.start hopen) (fun _ _ _ hinv hok hstep => hinv.step hok hstep)
  obtain ⟨contents₀, -, -, hdomain₀⟩ := DomainOn.open_spec hopen
  obtain ⟨memory₀, hs₀, -⟩ := Domain.open_spec hdomain₀
  have hspec₀ : s₀.domain.spec = spec := by rw [hs₀]
  have hcontents₀ : s₀.domain.unit.contents = contents₀ := by rw [hs₀]
  have hspec : s.domain.spec = spec := hinv.domain.spec.trans hspec₀
  obtain ⟨unit, contents, hunit, hload, hslots⟩ := hinv.holds.reopen
  rw [hspec₀] at hunit
  have hreopen : ∀ s', DomainOn.open spec s.unit.close = some s' ↔ ∃ domain, Domain.open spec contents = some domain ∧
      s' = { domain, unit } := by
    intro s'
    simp only [DomainOn.open, hunit, hload, Option.bind_eq_bind, Option.bind_some, Option.bind_eq_some_iff]
    constructor
    · rintro ⟨domain, hdomain, heq⟩
      cases heq
      exact ⟨domain, hdomain, rfl⟩
    · rintro ⟨domain, hdomain, rfl⟩
      exact ⟨domain, hdomain, rfl⟩
  have hshown : ∀ domain, Domain.open spec contents = some domain →
      ∀ slot, domain.memory.get slot = spec.shows slot (s.domain.unit.contents.get slot) := by
    intro domain hdomain slot
    obtain ⟨memory, rfl, hshows⟩ := Domain.open_spec hdomain
    exact (hshows slot).trans (congrArg _ (hslots slot))
  unfold DomainOn.Reopens
  rw [hspec]
  constructor
  · rintro ⟨s', hs', hsame⟩ slot value hwritten hvalue
    obtain ⟨domain, hdomain, rfl⟩ := (hreopen s').mp hs'
    obtain ⟨hget, hsome⟩ := (hinv.contents hquiet slot).1 hwritten
    have hback : domain.memory.get slot = some value := (hsame slot hwritten).trans hvalue
    rw [hshown domain hdomain] at hback
    rw [hvalue] at hget hsome
    obtain ⟨stored, hstored⟩ := Option.isSome_iff_exists.mp hsome
    exact ⟨stored, hget.symm.trans hstored, by rw [← hstored]; exact hback⟩
  · intro hsurvive
    have hwhole : (Domain.open spec contents).isSome := by
      refine Domain.open_isSome_iff.mpr (fun slot p hp hdeclared => ?_)
      rw [hslots] at hp
      by_cases hwritten : s.Written slot
      · obtain ⟨hget, hsome⟩ := (hinv.contents hquiet slot).1 hwritten
        rw [hp] at hget hsome
        obtain ⟨value, hvalue⟩ := Option.isSome_iff_exists.mp hsome.symm
        obtain ⟨stored, hstored, hback⟩ := hsurvive slot value hwritten hvalue
        rw [hvalue, Option.bind_some, hstored] at hget
        cases hget
        exact Option.isSome_of_eq_some hback
      · rw [(hinv.contents hquiet slot).2 hwritten, hcontents₀] at hp
        exact Domain.open_isSome_iff.mp (Option.isSome_of_eq_some hdomain₀) slot p hp hdeclared
    obtain ⟨domain, hdomain⟩ := Option.isSome_iff_exists.mp hwhole
    refine ⟨{ domain, unit }, (hreopen _).mpr ⟨domain, hdomain, rfl⟩, fun slot hwritten => ?_⟩
    rw [hshown domain hdomain]
    obtain ⟨hget, -⟩ := (hinv.contents hquiet slot).1 hwritten
    rw [hget]
    cases hvalue : s.domain.memory.get slot with
    | some value =>
      obtain ⟨stored, hstored, hback⟩ := hsurvive slot value hwritten hvalue
      rw [Option.bind_some, hstored]
      exact hback
    | none =>
      cases slot with
      | record table key => simp [DomainSpec.shows]
      | global => cases hvalue

namespace ReopenRuns

/-- A set of the global value of a domain. -/
def setGlobal (value : PyValue) : List DomainAction := [.set value, .enter, .lands, .returns]

/-- No file yet. -/
def noFile : Medium := .json "settings.json" ⟨none, none⟩

/-- A unit that is not open. -/
def noUnit : DomainOn :=
  { domain := DomainRuns.opened
    unit := .sqlite (SqliteKvUnit.handle DomainRuns.settings.descriptor) ⟨.empty, .empty, .empty⟩ }

/-- `DomainRuns.settings`, opened there. -/
def openedSettings : DomainOn := (DomainOn.open DomainRuns.settings noFile).getD noUnit

/-- The domain after some actions. -/
def after (actions : List DomainAction) : DomainOn := (Machine.exec DomainOn.step openedSettings actions).getD noUnit

theorem open_settings : DomainOn.open DomainRuns.settings noFile = some openedSettings := rfl

theorem runs_text (text : String) :
    Machine.Reach DomainOn.step (fun _ a => a.unitRaises = false) openedSettings (after (setGlobal (.str text))) := by
  have hrun : Machine.execIf DomainOn.step (fun _ a => a.unitRaises = false) openedSettings (setGlobal (.str text)) =
      some (after (setGlobal (.str text))) := rfl
  exact .execIf .start hrun

theorem runs_null : Machine.Reach DomainOn.step (fun _ a => a.unitRaises = false) openedSettings (after (setGlobal .none)) := by
  have hrun : Machine.execIf DomainOn.step (fun _ a => a.unitRaises = false) openedSettings (setGlobal .none) =
      some (after (setGlobal .none)) := rfl
  exact .execIf .start hrun

/-- The domain opened again after a null was set. -/
def afterNull : DomainOn := (DomainOn.open DomainRuns.settings (after (setGlobal .none)).unit.close).getD noUnit

end ReopenRuns

open DomainRuns ReopenRuns in
theorem domain_reopens_iff_settings : (ReopenRuns.after (setGlobal (.str "on"))).domain.memory.get .global = some (.str "on") ∧
    (ReopenRuns.after (setGlobal (.str "on"))).Reopens := by
  refine ⟨rfl, (domain_reopens_iff ReopenRuns.open_settings (runs_text "on") rfl).mpr ?_⟩
  intro slot value hwritten hvalue
  obtain ⟨op, hop, rfl⟩ := hwritten
  cases List.mem_singleton.mp hop
  cases hvalue
  exact ⟨⟨.str "on", rfl⟩, PyValue.written_eq_some.mpr rfl, rfl⟩

open DomainRuns ReopenRuns in
/-- A global value without a schema takes a null, and shows its `initial` again once the domain is reopened. -/
theorem domain_not_reopens : ¬∀ name version tables global spec, defineDomain name version tables global = .ok spec →
    ∀ medium s₀ s, DomainOn.open spec medium = some s₀ → Machine.Reach DomainOn.step (fun _ a => a.unitRaises = false) s₀ s →
      s.domain.writing = none → s.Reopens := by
  intro h
  have hdefined : defineDomain "settings" (.int 1) (Dict.empty.set "entries" none) (some { validate := none, initial := .str "off" }) =
      .ok settings := rfl
  obtain ⟨s', hs', hsame⟩ := h _ _ _ _ _ hdefined noFile _ _ ReopenRuns.open_settings runs_null rfl
  have hreopened : DomainOn.open settings (ReopenRuns.after (setGlobal .none)).unit.close = some afterNull := rfl
  cases hreopened.symm.trans hs'
  have hglobal := hsame .global ⟨.setGlobal .none, List.mem_singleton.mpr rfl, rfl⟩
  cases hglobal

end Pydsh
