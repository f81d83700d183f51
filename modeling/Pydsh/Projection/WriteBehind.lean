import Pydsh.Lib.Dict
import Pydsh.Persistence.Watermark
import Pydsh.Projection.Restore

/-!
# The cache behind the log

`write` of `session/cache.py` takes the checkpoint, has the log flushed, and puts the rows, with an await at the flush and one at
the put; a cold read puts rows back, too. Everything else goes on in between: appends, other flushes, removals, a crash. The cache
should never have a row beyond the last seq that is stored of the lifetime it was written for.

The flush is skipped for a session that is not live any more, and a store without a backend has nothing to flush; the rows are put
all the same (`cache_leads`). Apart from these writes, and from what the backend itself loses, the cache stays behind the log
(`cache_behind`).
-/

namespace Pydsh

variable {S V E : Type}

/-- A `write` before its put: the object, its id and lifetime, the record, the last seq at the checkpoint, and, once the flush is
called, the last seq at the call. -/
structure CacheWrite (S : Type) where
  pid : Nat
  id : String
  lifetime : Nat
  record : CacheRecord S
  upTo : Nat
  called : Option Nat := none

/-- A record that is being put, the last seq it can have, and whether its events were flushed or read before. -/
structure CachePut (S : Type) where
  id : String
  lifetime : Nat
  record : CacheRecord S
  upTo : Nat
  flushed : Bool

/-- A cold read that awaits the log: the record it took, with its lifetime, and from where on it reads. -/
structure TailRead (S : Type) where
  id : String
  cached : Option (CacheRecord S × Nat)
  floor : Int

/-- The rows it took. -/
def TailRead.rows (read : TailRead S) : List (String × Row S) := cachedRows (read.cached.map (·.1))

/-- The backend with the live objects, the cache with the lifetime each record was written for, and what is in progress. A lifetime
is a number given by `create`; `lifetimes` are those of the objects, and `owner` is that of the stored session of an id. -/
structure CacheState (S : Type) where
  backend : Backend := .opened .empty
  attached : Bool := false
  sessions : Dict String Nat := .empty
  made : Nat := 0
  lifetimes : Nat → Nat := fun _ => 0
  owner : String → Option Nat := fun _ => none
  cache : Dict String (CacheRecord S × Nat) := .empty
  writes : List (CacheWrite S) := []
  reads : List (TailRead S) := []
  puts : List (CachePut S) := []

/-- What happens: the calls of the store, what goes on in the backend, a crash, the parts of a `write` and of a cold read, with the
units that are registered at each, and the puts. -/
inductive CacheAction (S V E : Type) where
  | create (pid : Nat) (id : String) (createdAt : Rat) (cwd : Option String)
  | resume (pid : Nat) (id : String)
  | remove (id : String)
  | drop (pid : Nat)
  | attach
  | crash
  | append (pid : Nat) (call : AppendCall)
  | flush (pid : Nat) (whole : Bool)
  | start (n : Nat)
  | commit
  | fail
  | record
  | write (pid : Nat) (rows : List (String × Row S))
  | dispatch (n : Nat)
  | flushed (n : Nat)
  | abandon (n : Nat)
  | coldRead (id : String) (ds : List (ProjectionDefinition S V E))
  | tail (n : Nat) (ds : List (ProjectionDefinition S V E))
  | whole (n : Nat) (ds : List (ProjectionDefinition S V E))
  | put (n : Nat)
  | abandonPut (n : Nat)

variable (loadsText : String → Option (List (PyKey × PyValue)))

namespace CacheState

/-- The backend takes a step. -/
def advance (st : CacheState S) (a : BackendAction) : Option (CacheState S) :=
  (st.backend.step loadsText a).map (fun backend => { st with backend })

/-- The lifetime of the session that is being written. -/
def writer (st : CacheState S) : Option (String × Nat) :=
  match st.backend.phase with
  | .writing f snapshot => some (snapshot.id, st.lifetimes f.pid)
  | _ => none

/-- The rows of a checkpoint are of no later event than the log's last one. -/
def checkpointed (s : Session) (rows : List (String × Row S)) : Bool :=
  rows.all (fun row => decide (row.2.seq ≤ (lastSeq emptyWatermark s.events : Int)))

/-- `write` from where its flush is over, or skipped, on. -/
def toPut (st : CacheState S) (w : CacheWrite S) (flushed : Bool) : CacheState S :=
  { st with puts := st.puts ++ [⟨w.id, w.lifetime, w.record, w.upTo, flushed⟩] }

/-- `write` up to its flush: the checkpoint, and whether the session is the live one of its id. -/
def write (st : CacheState S) (pid : Nat) (s : Session) (rows : List (String × Row S)) : CacheState S :=
  let w : CacheWrite S :=
    { pid, id := s.id, lifetime := st.lifetimes pid, record := ⟨identityOf s.header, rows⟩,
      upTo := lastSeq emptyWatermark s.events }
  if st.sessions.get? s.id = some pid then { st with writes := st.writes ++ [w] } else st.toPut w false

/-- The write-back of a cold read. -/
def writeBack (st : CacheState S) (id : String) (header : SessionHeader) (rows : List (String × Row S)) (endSeq : Int) :
    Option (CacheState S) :=
  (st.owner id).map (fun lifetime =>
    { st with puts := st.puts ++ [⟨id, lifetime, ⟨identityOf header, rows⟩, endSeq.toNat, true⟩] })

/-- What an action does; `none` where it cannot happen. -/
def step (st : CacheState S) : CacheAction S V E → Option (CacheState S)
  | .create pid id createdAt cwd =>
    match st.sessions.get? id with
    | some _ => none
    | none => { st with
        sessions := st.sessions.set id pid
        made := st.made + 1
        lifetimes := Function.update st.lifetimes pid st.made }.advance loadsText (.create pid id createdAt cwd)
  | .resume pid id =>
    match st.owner id with
    | none => none
    | some lifetime => { st with
        sessions := st.sessions.set id pid
        lifetimes := Function.update st.lifetimes pid lifetime }.advance loadsText (.resume pid id)
  | .remove id => some { st with sessions := st.sessions.pop id }
  | .drop pid =>
    if st.writes.any (fun w => w.pid == pid) || st.sessions.entries.any (fun entry => entry.2 == pid) then none
    else st.advance loadsText (.drop pid)
  | .attach => some { st with attached := true }
  | .crash => some { st with
      backend := .opened st.backend.db
      attached := false
      sessions := .empty
      writes := []
      reads := []
      puts := [] }
  | .append pid call => st.advance loadsText (.append pid call)
  | .flush pid whole => st.advance loadsText (.flush pid whole)
  | .start n => st.advance loadsText (.start n)
  | .commit =>
    match st.writer with
    | none => none
    | some (id, lifetime) =>
      { st with owner := Function.update st.owner id (some lifetime) }.advance loadsText .commit
  | .fail => st.advance loadsText .fail
  | .record => st.advance loadsText .record
  | .write pid rows =>
    match st.backend.objects pid with
    | none => none
    | some s => if checkpointed s rows then some (st.write pid s rows) else none
  | .dispatch n =>
    match st.writes[n]? with
    | some w =>
      if w.called.isSome then none
      else if st.attached then
        (st.backend.objects w.pid).bind (fun s =>
          { st with writes := st.writes.set n { w with called := some (lastSeq emptyWatermark s.events) } }.advance loadsText
            (.flush w.pid false))
      else some ({ st with writes := st.writes.eraseIdx n }.toPut w false)
    | none => none
  | .flushed n =>
    match st.writes[n]?, st.backend.returned with
    | some w, some f =>
      if f.pid = w.pid ∧ f.whole = false ∧ w.called = some (lastSeq emptyWatermark f.atStart) then
        some ({ st with writes := st.writes.eraseIdx n }.toPut w true)
      else none
    | _, _ => none
  | .abandon n => some { st with writes := st.writes.eraseIdx n }
  | .coldRead id ds =>
    let cached := st.cache.get? id
    match restoreFloor ds (cachedRows (cached.map (·.1))) with
    | none => some st
    | some floor => some { st with reads := st.reads ++ [{ id, cached, floor }] }
  | .tail n ds =>
    match st.reads[n]? with
    | none => none
    | some read =>
      match st.backend.db.readFrom loadsText read.id read.floor with
      | .ok (some (header, tail)) =>
        if isRelated (read.cached.map (·.1)) header then
          match restore ds read.rows tail read.floor with
          | .ok (_, rows) =>
            { st with reads := st.reads.eraseIdx n }.writeBack read.id header rows (endSeqOf tail read.floor)
          -- the rows are given up for the whole log
          | .error _ => some st
        else some st
      | _ => some { st with reads := st.reads.eraseIdx n }
  | .whole n ds =>
    match st.reads[n]? with
    | none => none
    | some read =>
      match st.backend.db.readFrom loadsText read.id firstSeq with
      | .ok (some (header, whole)) =>
        match restore ds [] whole firstSeq with
        | .ok (_, rows) =>
          { st with reads := st.reads.eraseIdx n }.writeBack read.id header rows (endSeqOf whole firstSeq)
        | .error _ => some { st with reads := st.reads.eraseIdx n }
      | _ => some { st with reads := st.reads.eraseIdx n }
  | .put n =>
    match st.puts[n]? with
    | none => none
    | some p => some { st with
        cache := st.cache.set p.id (p.record, p.lifetime)
        puts := st.puts.eraseIdx n }
  | .abandonPut n => some { st with puts := st.puts.eraseIdx n }

/-! ## The law -/

/-- The last seq stored of a lifetime is at least this one. A lifetime has stored what is stored under its id as long as the stored
session is its own; one that has stored nothing is at the empty watermark. -/
def Durable (st : CacheState S) (id : String) (lifetime : Nat) (seq : Int) : Prop :=
  seq ≤ emptyWatermark ∨ st.owner id = some lifetime ∧ ∃ r ∈ st.backend.db.events.rows, r.sessionId = id ∧ seq ≤ r.seq

/-- No row of the cache is beyond the last seq stored of its lifetime. -/
def Behind (st : CacheState S) : Prop :=
  ∀ id record lifetime, st.cache.get? id = some (record, lifetime) → ∀ row ∈ record.rows, st.Durable id lifetime row.2.seq

/-- A record whose flush was skipped is put only if the log up to its checkpoint is stored; a new object has no watermark of a
dropped one above its seq; and a flush stores nothing under an id where another lifetime is stored. -/
def Ordered (st : CacheState S) (a : CacheAction S V E) : Prop :=
  match a with
  | .create pid _ _ _ => st.backend.persisted pid = 0
  | .resume pid id => ∀ s, st.backend.db.load loadsText id = .ok (some s) → st.backend.persisted pid ≤ s.seq
  | .commit => ∀ id lifetime, st.writer = some (id, lifetime) → ∀ other, st.owner id = some other → other = lifetime
  | .put n => ∀ p ∈ st.puts[n]?, p.flushed = false → st.Durable p.id p.lifetime p.upTo
  | _ => True

/-! ## What is stored stays stored -/

variable {loadsText} {st st' : CacheState S}

/-- An event of a seq is stored, of a lifetime. -/
def Stored (st : CacheState S) (id : String) (lifetime seq : Nat) : Prop :=
  st.owner id = some lifetime ∧ ∃ r ∈ st.backend.db.events.rows, r.sessionId = id ∧ r.seq = seq

/-- What is stored of a lifetime, after a step too. -/
structure Stores (st st' : CacheState S) : Prop where
  owner : ∀ id lifetime, st.owner id = some lifetime → st'.owner id = some lifetime
  rows : ∀ r ∈ st.backend.db.events.rows, ∃ r' ∈ st'.backend.db.events.rows, r'.sessionId = r.sessionId ∧ r'.seq = r.seq

theorem Stores.of_eq (howner : st'.owner = st.owner) (hdb : st'.backend.db = st.backend.db) : st.Stores st' := by
  constructor
  · rw [howner]
    exact fun _ _ h => h
  · rw [hdb]
    exact fun r hr => ⟨r, hr, rfl, rfl⟩

theorem Stored.mono (hstores : st.Stores st') {id : String} {lifetime seq : Nat} (h : st.Stored id lifetime seq) :
    st'.Stored id lifetime seq := by
  obtain ⟨howner, r, hr, hid, hseq⟩ := h
  obtain ⟨r', hr', hid', hseq'⟩ := hstores.rows r hr
  exact ⟨hstores.owner id lifetime howner, r', hr', hid'.trans hid, hseq'.trans hseq⟩

theorem Durable.mono (hstores : st.Stores st') {id : String} {lifetime : Nat} {seq : Int} (h : st.Durable id lifetime seq) :
    st'.Durable id lifetime seq := by
  rcases h with hempty | ⟨howner, r, hr, hid, hseq⟩
  · exact Or.inl hempty
  · obtain ⟨r', hr', hid', hseq'⟩ := hstores.rows r hr
    exact Or.inr ⟨hstores.owner id lifetime howner, r', hr', hid'.trans hid, by rw [hseq']; exact hseq⟩

theorem Durable.le {id : String} {lifetime : Nat} {seq seq' : Int} (h : st.Durable id lifetime seq) (hle : seq' ≤ seq) :
    st.Durable id lifetime seq' := by
  rcases h with hempty | ⟨howner, r, hr, hid, hseq⟩
  · exact Or.inl (Int.le_trans hle hempty)
  · exact Or.inr ⟨howner, r, hr, hid, Int.le_trans hle hseq⟩

theorem durable_lastSeq {id : String} {lifetime : Nat} {events : List SessionEvent}
    (h : ∀ e ∈ events, st.Stored id lifetime e.seq) : st.Durable id lifetime (lastSeq emptyWatermark events) := by
  by_cases hnil : events = []
  · subst hnil
    exact Or.inl (Int.le_refl _)
  · obtain ⟨e, he, hlast⟩ := lastSeq_mem hnil emptyWatermark
    obtain ⟨howner, r, hr, hid, hseq⟩ := h e he
    exact Or.inr ⟨howner, r, hr, hid, by rw [hseq, hlast]⟩

theorem lastSeq_extends {s s' : Session} (hs : s.Filed) (h : s.Extends s') :
    lastSeq emptyWatermark s.events ≤ lastSeq emptyWatermark s'.events := by
  obtain ⟨⟨es, hes, habove⟩, -, -⟩ := h
  rw [hes]
  by_cases hnil : es = []
  · simp [hnil]
  · have hlast : lastSeq emptyWatermark (s.events ++ es) = (es.getLast hnil).seq := by
      simp [lastSeq, List.getLast?_append, List.getLast?_eq_some_getLast hnil]
    have hgt := habove _ (List.getLast_mem hnil)
    have hle : lastSeq emptyWatermark s.events ≤ s.seq := by
      by_cases hempty : s.events = []
      · simp [hempty, emptyWatermark]
      · obtain ⟨e, he, hseq⟩ := lastSeq_mem hempty emptyWatermark
        rw [← hseq]
        exact hs.bounded e he
    omega

/-! ## The rows of a cold read -/

/-- A row of a unit that was restored is of the end of what was read; where nothing was read after the first seq, it is of the seq
of a row that the unit had. -/
theorem restoreUnit_seq {rows : List (String × Row S)} {events : List SessionEvent} {baseSeq : Int}
    {d : ProjectionDefinition S V E} {value : String × V} {row : String × Row S}
    (h : restoreUnit rows events baseSeq d = .ok (value, row)) : row.2.seq = endSeqOf events baseSeq ∧
      (events = [] → firstSeq < baseSeq → ∃ cached ∈ rows, cached.2.seq = endSeqOf events baseSeq) := by
  simp only [restoreUnit] at h
  split at h
  · cases h
  · rename_i hseed
    split at h
    · cases h
    · split at h
      · cases h
      · cases h
        refine ⟨rfl, fun hnil hbase => ?_⟩
        subst hnil
        have hend : endSeqOf [] baseSeq = baseSeq - 1 := rfl
        cases hrow : seedRow rows d baseSeq (endSeqOf [] baseSeq) with
        | none => simp [hrow, hbase] at hseed
        | some cached =>
          obtain ⟨hfield, husable⟩ := Option.filter_eq_some_iff.mp hrow
          obtain ⟨entry, hentry, rfl⟩ := Option.map_eq_some_iff.mp hfield
          refine ⟨entry, List.mem_of_find?_eq_some hentry, ?_⟩
          simp only [Row.usable, Bool.and_eq_true, decide_eq_true_eq] at husable
          omega

/-- What a loop that raised nothing collected came from its turns. -/
theorem mem_of_mapM_ok {α β ε : Type} {f : α → Except ε β} {xs : List α} {ys : List β} (h : xs.mapM f = .ok ys) :
    ∀ y ∈ ys, ∃ x, f x = .ok y := by
  induction xs generalizing ys with
  | nil =>
    cases h
    simp
  | cons x xs ih =>
    rw [List.mapM_cons] at h
    cases hx : f x with
    | error e =>
      rw [hx] at h
      cases h
    | ok first =>
      cases hrest : xs.mapM f with
      | error e =>
        rw [hx, hrest] at h
        cases h
      | ok rest =>
        rw [hx, hrest] at h
        cases h
        intro y hy
        rcases List.mem_cons.mp hy with rfl | hy
        · exact ⟨x, hx⟩
        · exact ih hrest y hy

theorem restore_seq {ds : List (ProjectionDefinition S V E)} {rows rows' : List (String × Row S)} {events : List SessionEvent}
    {baseSeq : Int} {snapshot : Snapshot V} (h : restore ds rows events baseSeq = .ok (snapshot, rows')) :
    ∀ row ∈ rows', row.2.seq = endSeqOf events baseSeq ∧
      (events = [] → firstSeq < baseSeq → ∃ cached ∈ rows, cached.2.seq = endSeqOf events baseSeq) := by
  unfold restore at h
  cases hunits : ds.mapM (restoreUnit rows events baseSeq) with
  | error e =>
    rw [hunits] at h
    cases h
  | ok units =>
    rw [hunits] at h
    cases h
    intro row hrow
    obtain ⟨⟨value, row⟩, hunit, rfl⟩ := List.mem_map.mp hrow
    obtain ⟨d, hd⟩ := mem_of_mapM_ok hunits _ hunit
    exact restoreUnit_seq hd

/-! ## The invariant -/

/-- A `write` in progress: its object and its lifetime, and what it may put. -/
structure Underway (st : CacheState S) (w : CacheWrite S) : Prop where
  object : ∃ s, st.backend.objects w.pid = some s ∧ s.id = w.id ∧ w.upTo ≤ lastSeq emptyWatermark s.events
  lifetime : st.lifetimes w.pid = w.lifetime
  rows : ∀ row ∈ w.record.rows, row.2.seq ≤ w.upTo
  called : ∀ n, w.called = some n → w.upTo ≤ n

/-- What every ordered run keeps. -/
structure Inv (st : CacheState S) : Prop where
  backend : st.backend.Keeps (fun pid id e => st.Stored id (st.lifetimes pid) e.seq)
  behind : st.Behind
  writes : ∀ w ∈ st.writes, st.Underway w
  reads : ∀ read ∈ st.reads, ∀ record lifetime, read.cached = some (record, lifetime) → ∀ row ∈ record.rows,
    st.Durable read.id lifetime row.2.seq
  puts : ∀ p ∈ st.puts, ∀ row ∈ p.record.rows, row.2.seq ≤ p.upTo ∧ (p.flushed = true → st.Durable p.id p.lifetime row.2.seq)

theorem Behind.mono (h : st.Behind) (hstores : st.Stores st') (hcache : st'.cache = st.cache) : st'.Behind := by
  intro id record lifetime hrecord row hrow
  rw [hcache] at hrecord
  exact (h id record lifetime hrecord row hrow).mono hstores

/-- A step of the backend that keeps the objects of the writes in progress. -/
theorem Inv.advance (h : st.Inv) {a : BackendAction} (hcommit : a ≠ .commit) {lifetimes : Nat → Nat} {sessions : Dict String Nat}
    {made : Nat} {backend : Backend} (hstep : st.backend.step loadsText a = some backend)
    (hlifetimes : ∀ pid, st.backend.objects pid ≠ none → lifetimes pid = st.lifetimes pid)
    (hnew : ∀ pid s, st.backend.objects pid = none → backend.objects pid = some s → st.backend.persisted pid ≤ s.seq ∧
      ∀ e ∈ s.events, st.Stored s.id (lifetimes pid) e.seq)
    (hdrop : ∀ w ∈ st.writes, a ≠ .drop w.pid) : Inv { st with backend, lifetimes, sessions, made } := by
  have hdb := Backend.db_step hcommit hstep
  have hstores : st.Stores { st with backend, lifetimes, sessions, made } := .of_eq rfl hdb
  have hkeeps : st.backend.Keeps (fun pid id e => st.Stored id (lifetimes pid) e.seq) := by
    refine h.backend.mono (fun pid s e hs hstored => ?_)
    rw [hlifetimes pid (by rw [hs]; exact Option.some_ne_none s)]
    exact hstored
  refine ⟨?_, h.behind.mono hstores rfl, fun w hw => ?_, fun read hread record lifetime hcached row hrow => ?_,
    fun p hp row hrow => ?_⟩
  · exact (hkeeps.step hcommit hstep hnew).mono (fun pid s e _ hstored => hstored.mono hstores)
  · obtain ⟨⟨s, hs, hid, hle⟩, hlifetime, hrows, hcalled⟩ := h.writes w hw
    refine ⟨?_, (hlifetimes w.pid (by rw [hs]; exact Option.some_ne_none s)).trans hlifetime, hrows, hcalled⟩
    have hchanges := Backend.objects_step hstep w.pid
    have hfiled := (h.backend.object w.pid s hs).1
    show ∃ s, backend.objects w.pid = some s ∧ s.id = w.id ∧ w.upTo ≤ lastSeq emptyWatermark s.events
    generalize backend.objects w.pid = content at hchanges
    cases hchanges with
    | same => exact ⟨s, hs, hid, hle⟩
    | append c hold =>
      cases hs.symm.trans hold
      have hext := s.extends_append c
      exact ⟨_, rfl, hext.id.trans hid, Nat.le_trans hle (lastSeq_extends hfiled hext)⟩
    | create id createdAt cwd hnone => cases hs.symm.trans hnone
    | resume id hnone => cases hs.symm.trans hnone
    | drop => exact absurd rfl (hdrop w hw)
  · exact (h.reads read hread record lifetime hcached row hrow).mono hstores
  · obtain ⟨hle, hdurable⟩ := h.puts p hp row hrow
    exact ⟨hle, fun hflushed => (hdurable hflushed).mono hstores⟩

theorem Inv.commit (h : st.Inv) (hok : st.Ordered loadsText (.commit : CacheAction S V E))
    (hstep : st.step loadsText (.commit : CacheAction S V E) = some st') : st'.Inv := by
  simp only [CacheState.step, writer] at hstep
  split at hstep
  · cases hstep
  · rename_i id lifetime hwriter
    split at hwriter
    · rename_i f snapshot hp
      cases hwriter
      obtain ⟨backend, hbackend, rfl⟩ := Option.map_eq_some_iff.mp hstep
      simp only [Backend.step, hp] at hbackend
      obtain ⟨db, hwrite, rfl⟩ := Option.map_eq_some_iff.mp hbackend
      have hphase := h.backend.phase
      unfold Backend.PhaseOk at hphase
      rw [hp] at hphase
      obtain ⟨hfiled, -, -, -, -⟩ := hphase
      have hnodup := hfiled.seqs_nodup (f.events_sublist st.backend.persisted snapshot)
      obtain ⟨-, hencodes, hrows⟩ := write_spec hwrite hnodup
      have howner : ∀ other, st.owner snapshot.id = some other → other = st.lifetimes f.pid :=
        fun other hother => hok snapshot.id (st.lifetimes f.pid) (by simp only [writer, hp]) other hother
      have hstores : st.Stores { st with
          backend := { st.backend with
            db
            phase := .written f (f.written st.backend.persisted snapshot)
            returned := none }
          owner := Function.update st.owner snapshot.id (some (st.lifetimes f.pid)) } := by
        constructor
        · intro id lifetime hid
          by_cases hsame : id = snapshot.id
          · subst hsame
            rw [howner lifetime hid]
            exact Function.update_self ..
          · exact (Function.update_of_ne hsame ..).trans hid
        · intro r hr
          by_cases hover : r.sessionId = snapshot.id ∧ ∃ e ∈ f.events st.backend.persisted snapshot, e.seq = r.seq
          · obtain ⟨hid, e, he, hseq⟩ := hover
            obtain ⟨r', hr', hencode⟩ := hencodes e he
            obtain ⟨hid', hseq'⟩ := encodeRow_key hencode
            exact ⟨r', hr', hid'.trans hid.symm, hseq'.trans hseq⟩
          · exact ⟨r, (hrows r).mpr (Or.inr ⟨hr, hover⟩), rfl, rfl⟩
      refine ⟨?_, h.behind.mono hstores rfl, fun w hw => ?_, fun read hread record lifetime hcached row hrow => ?_,
        fun p hp row hrow => ?_⟩
      · refine h.backend.commit hp db (fun e he => ⟨Function.update_self .., ?_⟩)
          (fun pid s _ e _ _ hstored => hstored.mono hstores)
        obtain ⟨r, hr, hencode⟩ := hencodes e he
        exact ⟨r, hr, encodeRow_key hencode⟩
      · obtain ⟨hobject, hlifetime, hrows, hcalled⟩ := h.writes w hw
        exact ⟨hobject, hlifetime, hrows, hcalled⟩
      · exact (h.reads read hread record lifetime hcached row hrow).mono hstores
      · obtain ⟨hle, hdurable⟩ := h.puts p hp row hrow
        exact ⟨hle, fun hflushed => (hdurable hflushed).mono hstores⟩
    · cases hwriter

/-- The parts in progress change, and the backend, the owners and the cache stay. -/
theorem Inv.progress (h : st.Inv) {writes : List (CacheWrite S)} {reads : List (TailRead S)} {puts : List (CachePut S)}
    (hwrites : ∀ w ∈ writes, w ∈ st.writes ∨ st.Underway w)
    (hreads : ∀ read ∈ reads, read ∈ st.reads ∨ ∀ record lifetime, read.cached = some (record, lifetime) →
      ∀ row ∈ record.rows, st.Durable read.id lifetime row.2.seq)
    (hputs : ∀ p ∈ puts, p ∈ st.puts ∨ ∀ row ∈ p.record.rows, row.2.seq ≤ p.upTo ∧
      (p.flushed = true → st.Durable p.id p.lifetime row.2.seq)) : Inv { st with writes, reads, puts } := by
  have hunder : ∀ w, st.Underway w → Underway { st with writes, reads, puts } w :=
    fun w ⟨hobject, hlifetime, hrows, hcalled⟩ => ⟨hobject, hlifetime, hrows, hcalled⟩
  refine ⟨h.backend, h.behind, fun w hw => ?_, fun read hread => ?_, fun p hp => ?_⟩
  · rcases hwrites w hw with hold | hnew
    · exact hunder w (h.writes w hold)
    · exact hunder w hnew
  · rcases hreads read hread with hold | hnew
    · exact h.reads read hold
    · exact hnew
  · rcases hputs p hp with hold | hnew
    · exact h.puts p hold
    · exact hnew

/-- A `write` goes on to its put. -/
theorem Inv.toPut (h : st.Inv) {w : CacheWrite S} (hrows : ∀ row ∈ w.record.rows, row.2.seq ≤ w.upTo) {flushed : Bool}
    (hflushed : flushed = true → st.Durable w.id w.lifetime w.upTo) {writes : List (CacheWrite S)}
    (hwrites : writes ⊆ st.writes) : (CacheState.toPut { st with writes } w flushed).Inv := by
  refine h.progress (fun w' hw' => Or.inl (hwrites hw')) (fun read hread => Or.inl hread) (fun p hp => ?_)
  rcases List.mem_append.mp hp with hold | hnew
  · exact Or.inl hold
  · rw [List.mem_singleton] at hnew
    subst hnew
    exact Or.inr (fun row hrow => ⟨hrows row hrow, fun hdone => (hflushed hdone).le (hrows row hrow)⟩)

theorem Inv.write (h : st.Inv) {pid : Nat} {rows : List (String × Row S)}
    (hstep : st.step loadsText (.write pid rows : CacheAction S V E) = some st') : st'.Inv := by
  simp only [CacheState.step] at hstep
  split at hstep
  · cases hstep
  · rename_i s hs
    split at hstep
    · rename_i hchecked
      obtain rfl := Option.some.inj hstep
      have hrows : ∀ row ∈ rows, row.2.seq ≤ (lastSeq emptyWatermark s.events : Int) := by
        simpa [checkpointed] using hchecked
      unfold CacheState.write
      dsimp only
      split
      · refine h.progress (fun w hw => ?_) (fun read hread => Or.inl hread) (fun p hp => Or.inl hp)
        rcases List.mem_append.mp hw with hold | hnew
        · exact Or.inl hold
        · rw [List.mem_singleton] at hnew
          subst hnew
          exact Or.inr ⟨⟨s, hs, rfl, Nat.le_refl _⟩, rfl, hrows, fun n hn => by cases hn⟩
      · exact h.toPut hrows (fun hflushed => by cases hflushed) (List.Subset.refl _)
    · cases hstep

theorem Inv.dispatch (h : st.Inv) {n : Nat} (hstep : st.step loadsText (.dispatch n : CacheAction S V E) = some st') :
    st'.Inv := by
  simp only [CacheState.step] at hstep
  split at hstep
  · rename_i w hw
    have hunder := h.writes w (List.mem_of_getElem? hw)
    split at hstep
    · cases hstep
    · split at hstep
      · obtain ⟨s, hs, hflush⟩ := Option.bind_eq_some_iff.mp hstep
        obtain ⟨backend, hbackend, rfl⟩ := Option.map_eq_some_iff.mp hflush
        have hcalled : ∀ w' ∈ st.writes.set n { w with called := some (lastSeq emptyWatermark s.events) },
            w' ∈ st.writes ∨ st.Underway w' := by
          intro w' hw'
          rcases List.mem_or_eq_of_mem_set hw' with hold | rfl
          · exact Or.inl hold
          · obtain ⟨⟨s', hs', hid, hle⟩, hlifetime, hrows, -⟩ := hunder
            cases hs.symm.trans hs'
            exact Or.inr ⟨⟨s, hs, hid, hle⟩, hlifetime, hrows, fun k hk => by cases hk; exact hle⟩
        have hinv : Inv { st with writes := st.writes.set n { w with called := some (lastSeq emptyWatermark s.events) } } :=
          h.progress hcalled (fun read hread => Or.inl hread) (fun p hp => Or.inl hp)
        refine hinv.advance (by simp) hbackend (fun _ _ => rfl) (fun pid s' hnone hs' => ?_) (fun _ _ => by simp)
        obtain ⟨s'', hs'', rfl⟩ := Option.map_eq_some_iff.mp hbackend
        cases hnone.symm.trans hs'
      · obtain rfl := Option.some.inj hstep
        exact h.toPut hunder.rows (fun hflushed => by cases hflushed) (List.eraseIdx_subset ..)
  · cases hstep

theorem Inv.flushed (h : st.Inv) {n : Nat} (hstep : st.step loadsText (.flushed n : CacheAction S V E) = some st') :
    st'.Inv := by
  simp only [CacheState.step] at hstep
  split at hstep
  · rename_i w f hw hreturned
    split at hstep
    · rename_i hmatch
      obtain ⟨hpid, -, hcalled⟩ := hmatch
      obtain rfl := Option.some.inj hstep
      obtain ⟨⟨s, hs, hid, -⟩, hlifetime, hrows, hbound⟩ := h.writes w (List.mem_of_getElem? hw)
      obtain ⟨⟨s', hs', hid'⟩, hstored⟩ := h.backend.returned f hreturned
      rw [hpid] at hs' hstored
      cases hs.symm.trans hs'
      rw [← hid', hid, hlifetime] at hstored
      refine h.toPut hrows (fun _ => ?_) (List.eraseIdx_subset ..)
      exact (durable_lastSeq hstored).le (Int.ofNat_le.mpr (hbound _ hcalled))
    · cases hstep
  · cases hstep

theorem durable_read {id : String} {lifetime : Nat} (howner : st.owner id = some lifetime) {floor : Int} {header : SessionHeader}
    {tail : List SessionEvent} (hread : st.backend.db.readFrom loadsText id floor = .ok (some (header, tail)))
    (hends : tail = [] → floor ≤ firstSeq ∨ ∃ other, st.Durable id other (endSeqOf tail floor)) :
    st.Durable id lifetime (endSeqOf tail floor) := by
  unfold endSeqOf at hends ⊢
  cases hlast : tail.getLast? with
  | none =>
    rw [hlast] at hends
    rcases hends (List.getLast?_eq_none_iff.mp hlast) with hfirst | ⟨other, hempty | ⟨hother, hrow⟩⟩
    · left
      simp only [emptyWatermark]
      unfold firstSeq at hfirst
      omega
    · exact Or.inl hempty
    · cases howner.symm.trans hother
      exact Or.inr ⟨howner, hrow⟩
  | some e =>
    have hmem : e ∈ st.backend.db.readEventsFrom loadsText id floor := by
      unfold Database.readFrom at hread
      cases hheader : st.backend.db.readHeader id with
      | error err =>
        rw [hheader] at hread
        cases hread
      | ok found =>
        rw [hheader] at hread
        cases found with
        | none => cases hread
        | some found =>
          cases hread
          exact List.mem_of_getLast? hlast
    obtain ⟨r, hr, hdecode⟩ := List.mem_map.mp hmem
    obtain ⟨hr, hkey⟩ := List.mem_filter.mp (Table.mem_ordered.mp hr)
    obtain ⟨hid, -⟩ : r.sessionId = id ∧ floor ≤ r.seq := by simpa using hkey
    have hseq : r.seq = e.seq := congrArg SessionEvent.seq hdecode
    exact Or.inr ⟨howner, r, hr, hid, by rw [hseq]⟩

theorem Inv.writeBack (h : st.Inv) {id : String} {header : SessionHeader} {rows cached : List (String × Row S)} {floor : Int}
    {tail : List SessionEvent} {ds : List (ProjectionDefinition S V E)} {snapshot : Snapshot V}
    (hread : st.backend.db.readFrom loadsText id floor = .ok (some (header, tail)))
    (hrestore : restore ds cached tail floor = .ok (snapshot, rows))
    (hcached : ∀ row ∈ cached, ∃ other, st.Durable id other row.2.seq) {reads : List (TailRead S)} (hreads : reads ⊆ st.reads)
    (hback : CacheState.writeBack { st with reads } id header rows (endSeqOf tail floor) = some st') : st'.Inv := by
  obtain ⟨lifetime, howner, rfl⟩ := Option.map_eq_some_iff.mp hback
  refine h.progress (fun w hw => Or.inl hw) (fun read hmem => Or.inl (hreads hmem)) (fun p hp => ?_)
  rcases List.mem_append.mp hp with hold | hnew
  · exact Or.inl hold
  · rw [List.mem_singleton] at hnew
    subst hnew
    refine Or.inr (fun row hrow => ?_)
    obtain ⟨hseq, hempty⟩ := restore_seq hrestore row hrow
    rw [hseq]
    refine ⟨Int.self_le_toNat _, fun _ => durable_read howner hread (fun hnil => ?_)⟩
    by_cases hfirst : floor ≤ firstSeq
    · exact Or.inl hfirst
    · obtain ⟨row', hrow', hseq'⟩ := hempty hnil (by omega)
      obtain ⟨other, hother⟩ := hcached row' hrow'
      exact Or.inr ⟨other, hseq' ▸ hother⟩

theorem Inv.erase (h : st.Inv) (n : Nat) : Inv { st with reads := st.reads.eraseIdx n } :=
  h.progress (fun _ hw => Or.inl hw) (fun _ hread => Or.inl (List.mem_of_mem_eraseIdx hread)) (fun _ hp => Or.inl hp)

theorem Inv.tail (h : st.Inv) {n : Nat} {ds : List (ProjectionDefinition S V E)}
    (hstep : st.step loadsText (.tail n ds) = some st') : st'.Inv := by
  simp only [CacheState.step] at hstep
  split at hstep
  · cases hstep
  · rename_i read hread
    split at hstep
    · rename_i header tail hfrom
      split at hstep
      · split at hstep
        · rename_i snapshot rows hrestore
          refine h.writeBack hfrom hrestore (fun row hrow => ?_) (List.eraseIdx_subset ..) hstep
          unfold TailRead.rows cachedRows at hrow
          cases hcached : read.cached with
          | none => simp [hcached] at hrow
          | some cached =>
            obtain ⟨record, lifetime⟩ := cached
            simp only [hcached, Option.map_some, Option.getD_some] at hrow
            exact ⟨lifetime, h.reads read (List.mem_of_getElem? hread) record lifetime hcached row hrow⟩
        · obtain rfl := Option.some.inj hstep
          exact h
      · obtain rfl := Option.some.inj hstep
        exact h
    · obtain rfl := Option.some.inj hstep
      exact h.erase n

theorem Inv.whole (h : st.Inv) {n : Nat} {ds : List (ProjectionDefinition S V E)}
    (hstep : st.step loadsText (.whole n ds) = some st') : st'.Inv := by
  simp only [CacheState.step] at hstep
  split at hstep
  · cases hstep
  · split at hstep
    · rename_i header whole hfrom
      split at hstep
      · rename_i snapshot rows hrestore
        exact h.writeBack hfrom hrestore (by simp) (List.eraseIdx_subset ..) hstep
      · obtain rfl := Option.some.inj hstep
        exact h.erase n
    · obtain rfl := Option.some.inj hstep
      exact h.erase n

/-- A put of a record that was flushed, or whose log is stored. -/
theorem Inv.put (h : st.Inv) {n : Nat} (hok : st.Ordered loadsText (.put n : CacheAction S V E))
    (hstep : st.step loadsText (.put n : CacheAction S V E) = some st') : st'.Inv := by
  simp only [CacheState.step] at hstep
  split at hstep
  · cases hstep
  · rename_i p hp
    obtain rfl := Option.some.inj hstep
    have herased : Inv { st with puts := st.puts.eraseIdx n } :=
      h.progress (fun _ hw => Or.inl hw) (fun _ hread => Or.inl hread) (fun _ hp' => Or.inl (List.mem_of_mem_eraseIdx hp'))
    refine ⟨herased.backend, fun id record lifetime hrecord row hrow => ?_, fun w hw => ?_, herased.reads, herased.puts⟩
    · by_cases hid : id = p.id
      · subst hid
        obtain ⟨rfl, rfl⟩ : p.record = record ∧ p.lifetime = lifetime := by simpa using hrecord
        obtain ⟨hle, hdurable⟩ := h.puts p (List.mem_of_getElem? hp) row hrow
        cases hflushed : p.flushed with
        | true => exact hdurable hflushed
        | false => exact (hok p hp hflushed).le hle
      · exact h.behind id record lifetime (by simpa [Dict.get?_set_of_ne _ _ hid] using hrecord) row hrow
    · obtain ⟨hobject, hlifetime, hrows, hcalled⟩ := h.writes w hw
      exact ⟨hobject, hlifetime, hrows, hcalled⟩

/-- An object that is made, or loaded for the owner of its id. -/
theorem Inv.new (h : st.Inv) {pid : Nat} {a : BackendAction} (hcommit : a ≠ .commit) (hdrop : ∀ p, a ≠ .drop p)
    {sessions : Dict String Nat} {made lifetime : Nat} {backend : Backend}
    (hstep : st.backend.step loadsText a = some backend) (hnone : st.backend.objects pid = none)
    (honly : ∀ p s, st.backend.objects p = none → backend.objects p = some s → p = pid ∧ st.backend.persisted pid ≤ s.seq ∧
      ∀ e ∈ s.events, st.Stored s.id lifetime e.seq) :
    Inv { st with backend, sessions, made, lifetimes := Function.update st.lifetimes pid lifetime } := by
  refine h.advance hcommit hstep (fun p hp => ?_) (fun p s hp hs => ?_) (fun w _ => hdrop w.pid)
  · refine Function.update_of_ne ?_ _ _
    rintro rfl
    exact hp hnone
  · obtain ⟨rfl, hle, hstored⟩ := honly p s hp hs
    rw [Function.update_self]
    exact ⟨hle, hstored⟩

theorem Inv.create (h : st.Inv) {pid : Nat} {id : String} {createdAt : Rat} {cwd : Option String}
    (hok : st.Ordered loadsText (.create pid id createdAt cwd : CacheAction S V E))
    (hstep : st.step loadsText (.create pid id createdAt cwd : CacheAction S V E) = some st') : st'.Inv := by
  simp only [CacheState.step] at hstep
  split at hstep
  · cases hstep
  · obtain ⟨backend, hbackend, rfl⟩ := Option.map_eq_some_iff.mp hstep
    have hnone : st.backend.objects pid = none := by
      simp only [Backend.step] at hbackend
      split at hbackend
      · cases hbackend
      · assumption
    refine h.new (by simp) (by simp) hbackend hnone (fun p s hp hs => ?_)
    have hchanges := Backend.objects_step hbackend p
    generalize backend.objects p = content at hchanges hs
    cases hchanges with
    | same => cases hp.symm.trans hs
    | create =>
      cases hs
      exact ⟨rfl, by simp [show st.backend.persisted pid = 0 from hok], by simp [Session.new]⟩

theorem Inv.resume (h : st.Inv) {pid : Nat} {id : String} (hok : st.Ordered loadsText (.resume pid id : CacheAction S V E))
    (hstep : st.step loadsText (.resume pid id : CacheAction S V E) = some st') : st'.Inv := by
  simp only [CacheState.step] at hstep
  split at hstep
  · cases hstep
  · rename_i lifetime howner
    obtain ⟨backend, hbackend, rfl⟩ := Option.map_eq_some_iff.mp hstep
    have hnone : st.backend.objects pid = none := by
      simp only [Backend.step] at hbackend
      split at hbackend
      · assumption
      · cases hbackend
    refine h.new (by simp) (by simp) hbackend hnone (fun p s hp hs => ?_)
    have hchanges := Backend.objects_step hbackend p
    generalize backend.objects p = content at hchanges hs
    cases hchanges with
    | same => cases hp.symm.trans hs
    | resume _ _ hload =>
      cases hs
      obtain ⟨hev, -, hid, -⟩ := load_eq_some hload
      refine ⟨rfl, hok s hload, fun e he => ?_⟩
      rw [hev] at he
      obtain ⟨r, hr, hdecode⟩ := mem_readEvents.mp he
      obtain ⟨hr, hrid⟩ := mem_rowsOf.mp hr
      rw [hid]
      exact ⟨howner, r, hr, hrid, congrArg SessionEvent.seq hdecode⟩

theorem Inv.advances (h : st.Inv) {a : BackendAction} (hcommit : a ≠ .commit)
    (hcreate : ∀ pid id createdAt cwd, a ≠ .create pid id createdAt cwd) (hresume : ∀ pid id, a ≠ .resume pid id)
    (hdrop : ∀ w ∈ st.writes, a ≠ .drop w.pid) (hstep : st.advance loadsText a = some st') : st'.Inv := by
  obtain ⟨backend, hbackend, rfl⟩ := Option.map_eq_some_iff.mp hstep
  refine h.advance hcommit hbackend (fun _ _ => rfl) (fun pid s hnone hs => ?_) hdrop
  have hchanges := Backend.objects_step hbackend pid
  generalize backend.objects pid = content at hchanges hs
  cases hchanges with
  | same => cases hnone.symm.trans hs
  | append _ hold => cases hnone.symm.trans hold
  | create => exact absurd rfl (hcreate _ _ _ _)
  | resume => exact absurd rfl (hresume _ _)
  | drop => cases hs

/-- Which sessions are live, and whether there is a backend, is no matter of the invariant. -/
theorem Inv.frame (h : st.Inv) (sessions : Dict String Nat) (attached : Bool) : Inv { st with sessions, attached } :=
  ⟨h.backend, h.behind, fun w hw =>
    ⟨(h.writes w hw).object, (h.writes w hw).lifetime, (h.writes w hw).rows, (h.writes w hw).called⟩, h.reads, h.puts⟩

theorem Inv.step (h : st.Inv) {a : CacheAction S V E} (hok : st.Ordered loadsText a) (hstep : st.step loadsText a = some st') :
    st'.Inv := by
  cases a with
  | create pid id createdAt cwd => exact h.create hok hstep
  | resume pid id => exact h.resume hok hstep
  | remove id =>
    obtain rfl := Option.some.inj hstep
    exact h.frame _ _
  | drop pid =>
    simp only [CacheState.step] at hstep
    split at hstep
    · cases hstep
    · rename_i hfree
      refine h.advances (by simp) (by simp) (by simp) (fun w hw heq => ?_) hstep
      cases heq
      simp only [Bool.or_eq_true, not_or, List.any_eq_true, not_exists, not_and, beq_iff_eq] at hfree
      exact hfree.1 w hw rfl
  | attach =>
    obtain rfl := Option.some.inj hstep
    exact h.frame _ _
  | crash =>
    obtain rfl := Option.some.inj hstep
    exact ⟨Backend.Keeps.opened _ _, h.behind.mono (.of_eq rfl rfl) rfl, by simp, by simp, by simp⟩
  | commit => exact h.commit hok hstep
  | append | flush | start | fail | record => exact h.advances (by simp) (by simp) (by simp) (by simp) hstep
  | write pid rows => exact h.write hstep
  | dispatch n => exact h.dispatch hstep
  | flushed n => exact h.flushed hstep
  | abandon n =>
    obtain rfl := Option.some.inj hstep
    exact h.progress (fun _ hw => Or.inl (List.mem_of_mem_eraseIdx hw)) (fun _ hread => Or.inl hread) (fun _ hp => Or.inl hp)
  | coldRead id ds =>
    simp only [CacheState.step] at hstep
    split at hstep
    · obtain rfl := Option.some.inj hstep
      exact h
    · obtain rfl := Option.some.inj hstep
      refine h.progress (fun _ hw => Or.inl hw) (fun read hread => ?_) (fun _ hp => Or.inl hp)
      rcases List.mem_append.mp hread with hold | hnew
      · exact Or.inl hold
      · rw [List.mem_singleton] at hnew
        subst hnew
        exact Or.inr (h.behind id)
  | tail n ds => exact h.tail hstep
  | whole n ds => exact h.whole hstep
  | put n => exact h.put hok hstep
  | abandonPut n =>
    obtain rfl := Option.some.inj hstep
    exact h.progress (fun _ hw => Or.inl hw) (fun _ hread => Or.inl hread) (fun _ hp => Or.inl (List.mem_of_mem_eraseIdx hp))

theorem Inv.initial : Inv ({} : CacheState S) :=
  ⟨Backend.Keeps.opened _ _, fun id record lifetime hrecord => by simp at hrecord, by simp, by simp, by simp⟩

end CacheState

/-- In every ordered run no row of the cache is beyond the last seq stored of the lifetime it was written for. -/
theorem cache_behind {loadsText : String → Option (List (PyKey × PyValue))} {st : CacheState S}
    (h : Machine.Reach (CacheState.step loadsText (V := V) (E := E)) (CacheState.Ordered loadsText) {} st) : st.Behind :=
  (h.invariant CacheState.Inv.initial (fun _ _ _ hinv hok hstep => hinv.step hok hstep)).behind

namespace CacheRuns

open ReplayChain SameId

/-- What happens in these runs. -/
abbrev Action : Type := CacheAction Nat Nat Unit

/-- A session gets a message. -/
def opened : List Action := [.create 1 "chat-1" 0 none, .append 1 (say "m1" "one")]

/-- The count of its events. -/
def counted : List (String × Row Nat) := [("count", ⟨1, 1, 1⟩)]

/-- No backend is attached when the session is written. -/
def detached : List Action := opened ++ [.write 1 counted, .dispatch 0, .put 0]

/-- A backend is attached, and the session is removed before it is written. -/
def removed : List Action := opened ++ [.attach, .remove "chat-1", .write 1 counted, .put 0]

/-- The last seqs of the cached rows of an id, and of its stored events. -/
def seqs (st : CacheState Nat) (id : String) : List Int × List Nat :=
  (match st.cache.get? id with
    | some (record, _) => record.rows.map (·.2.seq)
    | none => [],
  (st.backend.db.rowsOf id).map (·.seq))

/-- The session is written, and its flush is in progress. -/
def flushing : CacheState Nat :=
  (Machine.exec (CacheState.step noText) {} (opened ++ [.attach, .write 1 counted, .dispatch 0, .start 0] : List Action)).getD {}

end CacheRuns

open CacheRuns SameId ReplayChain in
/-- A session that is written while it is live and a backend is attached. -/
theorem cache_behind_live : ∃ st : CacheState Nat, seqs st "chat-1" = ([1], [1]) ∧ st.Behind := by
  have hflushing : Machine.Reach (CacheState.step noText (V := Nat) (E := Unit)) (CacheState.Ordered noText) {} flushing :=
    .next (.start 0) (.next (.dispatch 0) (.next (.write 1 counted) (.next .attach (.next (.append 1 (say "m1" "one"))
      (.next (.create 1 "chat-1" 0 none) .start rfl rfl) trivial rfl) trivial rfl) trivial rfl) trivial rfl) trivial rfl
  refine ⟨_, ?_, cache_behind (.next (.put 0) (.next (.flushed 0) (.next .record (.next .commit hflushing ?_ rfl) trivial rfl)
    trivial rfl) ?_ rfl)⟩
  · rfl
  · intro id lifetime hwriter other hother
    cases hother
  · intro p hp hflushed
    cases hp
    cases hflushed

open CacheRuns SameId in
/-- Without a backend, or once the session is removed, the row of its first event is put though nothing is stored. -/
theorem cache_leads :
    (∃ st, Machine.Reach (CacheState.step noText (V := Nat) (E := Unit)) Machine.anyStep {} st ∧
      seqs st "chat-1" = ([1], []) ∧ ¬st.Behind) ∧
    ∃ st, Machine.Reach (CacheState.step noText (V := Nat) (E := Unit)) Machine.anyStep {} st ∧ st.attached = true ∧
      seqs st "chat-1" = ([1], []) ∧ ¬st.Behind := by
  have hleads : ∀ st : CacheState Nat, seqs st "chat-1" = ([1], []) → ¬st.Behind := by
    intro st hseqs hbehind
    obtain ⟨hcached, hstored⟩ := Prod.mk.inj hseqs
    cases hrecord : st.cache.get? "chat-1" with
    | none => simp [hrecord] at hcached
    | some entry =>
      obtain ⟨record, lifetime⟩ := entry
      simp only [hrecord] at hcached
      obtain ⟨row, rest, hrows, hseq, -⟩ := List.map_eq_cons_iff.mp hcached
      rcases hbehind "chat-1" record lifetime hrecord row (by simp [hrows]) with hempty | ⟨-, r, hr, hid, -⟩
      · rw [hseq] at hempty
        exact absurd hempty (by decide)
      · have hmem := mem_rowsOf.mpr ⟨hr, hid⟩
        rw [List.map_eq_nil_iff.mp hstored] at hmem
        cases hmem
  constructor
  · have hrun : (Machine.exec (CacheState.step noText) {} detached).map (seqs · "chat-1") = some ([1], []) := by decide +kernel
    obtain ⟨st, hexec, hseqs⟩ := Option.map_eq_some_iff.mp hrun
    exact ⟨st, Machine.Reach.start.exec hexec, hseqs, hleads st hseqs⟩
  · have hrun : (Machine.exec (CacheState.step noText) {} removed).map (fun st => (st.attached, seqs st "chat-1")) =
        some (true, [1], []) := by decide +kernel
    obtain ⟨st, hexec, hst⟩ := Option.map_eq_some_iff.mp hrun
    obtain ⟨hattached, hseqs⟩ := Prod.mk.inj hst
    exact ⟨st, Machine.Reach.start.exec hexec, hattached, hseqs, hleads st hseqs⟩

end Pydsh
