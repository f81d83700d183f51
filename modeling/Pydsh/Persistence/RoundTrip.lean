import Pydsh.Persistence.Sqlite

/-!
# Flush, then load

What a load returns after a flush depends on the rows that were there before. `flush_load_iff` says on what exactly: the load
gives back the session's header and events when the rows the flush skipped are there as they should be, the operations it wrote
survive the text column, no row of the id lies at a seq the session does not have, and the log can be replayed at all. A row that
an earlier lifetime left above the session's last seq breaks the third (`flush_load_mixes_lifetimes`).
-/

namespace Pydsh

variable {loadsText : String → Option (List (PyKey × PyValue))}

/-! ## Live sessions are filed -/

theorem Session.Filed.append {s : Session} (h : s.Filed) (c : AppendCall) : (s.append c).2.Filed := by
  refine ⟨h.toIncreasing.append c, ?_, ?_⟩
  · rcases append_log s c with heq | ⟨e, -, -, -, hid, hh⟩
    · rw [heq]
      exact h.headerId
    · rw [hh, hid]
      exact h.headerId
  · rcases append_log s c with heq | ⟨e, -, -, -, -, hh⟩
    · rw [heq]
      exact h.headerVersion
    · rw [hh]
      exact h.headerVersion

/-- The header a load finds has the id asked for and the current version. -/
theorem readHeader_eq_some {db : Database} {id : String} {header : SessionHeader}
    (h : db.readHeader id = .ok (some header)) : header.id = id ∧ header.version = sessionFormatVersion := by
  unfold Database.readHeader at h
  split at h
  · cases h
  · split at h
    · cases h
    · rename_i hversion
      cases h
      exact ⟨rfl, by simpa using hversion⟩

theorem mem_readEvents {db : Database} {id : String} {e : SessionEvent} :
    e ∈ db.readEvents loadsText id ↔ ∃ r ∈ db.rowsOf id, decodeRow loadsText r = e := by
  simp only [Database.readEvents, List.mem_map, Table.mem_ordered]
  rfl

/-- What a load that found a session found: the stored events, under the id asked for and the current version. -/
theorem load_eq_some {db : Database} {id : String} {s : Session} (h : db.load loadsText id = .ok (some s)) :
    s.events = db.readEvents loadsText id ∧ (∀ e ∈ s.events, e.seq ≤ s.seq) ∧ s.id = id ∧ s.header.id = id ∧
      s.header.version = sessionFormatVersion := by
  obtain ⟨header, hheader, hseed⟩ := load_eq_some_iff.mp h
  obtain ⟨hid, hversion⟩ := readHeader_eq_some hheader
  obtain ⟨hev, -, hbound, hid', hh⟩ := seedAll_ok hseed
  have hev' : s.events = db.readEvents loadsText id := hev
  refine ⟨hev', ?_, hid'.trans hid, ?_, ?_⟩
  · rw [hev']
    exact hbound
  · rw [hh]
    exact hid
  · rw [hh]
    exact hversion

theorem Session.Live.filed {s : Session} (h : s.Live loadsText) : s.Filed := by
  induction h with
  | create id createdAt cwd => exact ⟨.new id _, rfl, rfl⟩
  | resume db id s hload =>
    obtain ⟨hev, hbound, hid, hhid, hversion⟩ := load_eq_some hload
    refine ⟨⟨?_, hbound⟩, hhid.trans hid.symm, hversion⟩
    rw [hev]
    exact readEvents_increasing db id
  | append c _ ih => exact ih.append c
  | setRequest request _ ih => exact ⟨⟨ih.increasing, ih.bounded⟩, ih.headerId, ih.headerVersion⟩

/-! ## The round trip -/

/-- The rows the flush skips are there: each event at or below the watermark is what some row of the id reads back as. -/
def StoredBelow (loadsText : String → Option (List (PyKey × PyValue))) (db : Database) (fromSeq : Nat) (s : Session) : Prop :=
  ∀ e ∈ s.events, e.seq ≤ fromSeq → ∃ r ∈ db.events.rows, r.sessionId = s.id ∧ decodeRow loadsText r = e

/-- The surface operation of each event above the watermark is what its cell reads back as. -/
def OpsSurvive (loadsText : String → Option (List (PyKey × PyValue))) (fromSeq : Nat) (s : Session) : Prop :=
  ∀ e ∈ s.events, fromSeq < e.seq → ∀ cell, encodeSurfaceOp e.surfaceOp = some cell →
    decodeSurfaceOp loadsText cell = e.surfaceOp

/-- No row of the id lies at a seq the session has no event for. -/
def StoredAlone (db : Database) (s : Session) : Prop :=
  ∀ r ∈ db.events.rows, r.sessionId = s.id → ∃ e ∈ s.events, e.seq = r.seq

/-- The row of an event reads back as the event when its surface operation survives. -/
theorem decodeRow_of_encodeRow {id : String} {e : SessionEvent} {r : EventRow} (h : encodeRow id e = some r)
    (hop : ∀ cell, encodeSurfaceOp e.surfaceOp = some cell → decodeSurfaceOp loadsText cell = e.surfaceOp) :
    decodeRow loadsText r = e := by
  obtain ⟨cell, hcell, rfl⟩ := Option.map_eq_some_iff.mp h
  simp only [decodeRow, hop cell hcell]

theorem readHeader_of_write {db db' : Database} {s : Session} (hs : s.Filed) {events : List SessionEvent}
    (h : db.write s events = some db') : db'.readHeader s.id = .ok (some s.header) := by
  obtain ⟨rows, -, rfl⟩ := Option.map_eq_some_iff.mp h
  have hfind : (db.sessions.upsert (headerRow s)).find? s.id = some (headerRow s) :=
    Table.find?_eq_some.mpr ⟨Table.mem_upsert.mpr (Or.inl rfl), rfl⟩
  have hversion : (headerRow s).version = sessionFormatVersion := hs.headerVersion
  have hid := hs.headerId
  unfold Database.readHeader
  simp only [hfind, hversion, ne_eq, not_true_eq_false, if_false]
  rw [← hs.headerVersion, ← hid]
  rfl

theorem readHeader_of_writeUnsaved {db db' : Database} {fromSeq written : Nat} {s : Session} (hs : s.Filed)
    (h : writeUnsaved db fromSeq s = some (db', written)) : db'.readHeader s.id = .ok (some s.header) := by
  obtain ⟨db₁, hwrite, heq⟩ := Option.map_eq_some_iff.mp h
  obtain ⟨rfl, -⟩ := Prod.mk.inj heq
  exact readHeader_of_write hs hwrite

/-- What a flush leaves in the rows: one for each event above the watermark, and the old ones that none of these replaced. -/
structure Flushed (db db' : Database) (fromSeq : Nat) (s : Session) : Prop where
  encodes : ∀ e ∈ s.events, fromSeq < e.seq → ∃ r ∈ db'.events.rows, encodeRow s.id e = some r
  rows : ∀ r, r ∈ db'.events.rows ↔ (∃ e ∈ s.events, fromSeq < e.seq ∧ encodeRow s.id e = some r) ∨
    (r ∈ db.events.rows ∧ ¬(r.sessionId = s.id ∧ ∃ e ∈ s.events, fromSeq < e.seq ∧ e.seq = r.seq))

theorem flushed_of_writeUnsaved {db db' : Database} {fromSeq written : Nat} {s : Session} (hs : s.Filed)
    (h : writeUnsaved db fromSeq s = some (db', written)) : Flushed db db' fromSeq s := by
  obtain ⟨db₁, hwrite, heq⟩ := Option.map_eq_some_iff.mp h
  obtain ⟨rfl, -⟩ := Prod.mk.inj heq
  have hnodup : ((freshEvents s fromSeq).map (·.seq)).Nodup :=
    hs.seqs_nodup List.filter_sublist
  have hfresh : ∀ e, e ∈ freshEvents s fromSeq ↔ e ∈ s.events ∧ fromSeq < e.seq := by
    intro e
    simp [freshEvents]
  obtain ⟨-, hencodes, hrows⟩ := write_spec hwrite hnodup
  refine ⟨fun e he hlt => hencodes e ((hfresh e).mpr ⟨he, hlt⟩), fun r => ?_⟩
  rw [hrows r]
  simp only [hfresh, and_assoc]

/-- The rows of the id read back as the session's events, in some order. -/
def ReadsAs (loadsText : String → Option (List (PyKey × PyValue))) (db : Database) (s : Session) : Prop :=
  ∀ e, e ∈ (db.rowsOf s.id).map (decodeRow loadsText) ↔ e ∈ s.events

/-- Both the rows read and the log are in the order of their seqs, so that their order can be left out. -/
theorem readEvents_eq_iff_readsAs {db : Database} {s : Session} (hs : s.Filed) :
    db.readEvents loadsText s.id = s.events ↔ ReadsAs loadsText db s := by
  have hread : db.readEvents loadsText s.id = Table.ordered (·.seq) ((db.rowsOf s.id).map (decodeRow loadsText)) :=
    Table.map_ordered EventRow.seq (f := decodeRow loadsText) (fun _ => rfl) _
  have hdistinct : ((db.rowsOf s.id).map (decodeRow loadsText)).Nodup := by
    refine List.Nodup.of_map (·.seq) ?_
    rw [List.map_map]
    exact rowsOf_nodup db s.id
  rw [hread, Table.ordered_eq_iff hdistinct hs.increasing]
  rfl

section
variable {db db' : Database} {fromSeq : Nat} {s : Session}

theorem Flushed.storedBelow (hflush : Flushed db db' fromSeq s) (hreads : ReadsAs loadsText db' s) :
    StoredBelow loadsText db fromSeq s := by
  intro e he hle
  obtain ⟨r, hr, hdecode⟩ := List.mem_map.mp ((hreads e).mpr he)
  obtain ⟨hr, hid⟩ := mem_rowsOf.mp hr
  have hseq : r.seq = e.seq := congrArg SessionEvent.seq hdecode
  -- a row that the flush wrote carries a seq above the watermark
  rcases (hflush.rows r).mp hr with ⟨e', he', hlt, henc⟩ | ⟨hold, -⟩
  · have hseq' := (encodeRow_key henc).2
    omega
  · exact ⟨r, hold, hid, hdecode⟩

theorem Flushed.opsSurvive (hs : s.Filed) (hflush : Flushed db db' fromSeq s) (hreads : ReadsAs loadsText db' s) :
    OpsSurvive loadsText fromSeq s := by
  intro e he hlt cell hcell
  obtain ⟨r, hr, henc⟩ := hflush.encodes e he hlt
  obtain ⟨hid, hseq⟩ := encodeRow_key henc
  have hback := (hreads (decodeRow loadsText r)).mp (List.mem_map_of_mem (mem_rowsOf.mpr ⟨hr, hid⟩))
  have hsame : decodeRow loadsText r = e := hs.event_unique hback he hseq
  have hrow : encodeRow s.id e = some r := henc
  rw [encodeRow, hcell] at hrow
  cases hrow
  exact congrArg SessionEvent.surfaceOp hsame

theorem Flushed.storedAlone (hflush : Flushed db db' fromSeq s) (hreads : ReadsAs loadsText db' s) : StoredAlone db s := by
  intro r hr hid
  by_cases hover : ∃ e ∈ s.events, fromSeq < e.seq ∧ e.seq = r.seq
  · obtain ⟨e, he, -, hseq⟩ := hover
    exact ⟨e, he, hseq⟩
  · have hkept : r ∈ db'.events.rows := (hflush.rows r).mpr (Or.inr ⟨hr, fun h => hover h.2⟩)
    have hback := (hreads (decodeRow loadsText r)).mp (List.mem_map_of_mem (mem_rowsOf.mpr ⟨hkept, hid⟩))
    exact ⟨_, hback, rfl⟩

/-- A row of the id, written by the flush or left by it, reads back as an event of the session. -/
theorem Flushed.decodeRow_mem (hflush : Flushed db db' fromSeq s) (hstored : StoredBelow loadsText db fromSeq s)
    (hsurvive : OpsSurvive loadsText fromSeq s) (halone : StoredAlone db s) {r : EventRow} (hr : r ∈ db'.events.rows)
    (hid : r.sessionId = s.id) : decodeRow loadsText r ∈ s.events := by
  rcases (hflush.rows r).mp hr with ⟨e, he, hlt, henc⟩ | ⟨hold, hno⟩
  · rw [decodeRow_of_encodeRow henc (hsurvive e he hlt)]
    exact he
  · obtain ⟨e, he, hseq⟩ := halone r hold hid
    have hle : e.seq ≤ fromSeq := by
      by_contra hlt
      exact hno ⟨hid, e, he, Nat.lt_of_not_le hlt, hseq⟩
    obtain ⟨r', hr', hid', hdecode⟩ := hstored e he hle
    have hseq' : r'.seq = e.seq := congrArg SessionEvent.seq hdecode
    have hsame : r' = r := row_unique hr' hold (hid'.trans hid.symm) (hseq'.trans hseq)
    rw [← hsame, hdecode]
    exact he

/-- An event of the session has a row that reads back as it: its own above the watermark, the stored one below. -/
theorem Flushed.exists_row (hflush : Flushed db db' fromSeq s) (hstored : StoredBelow loadsText db fromSeq s)
    (hsurvive : OpsSurvive loadsText fromSeq s) {e : SessionEvent} (he : e ∈ s.events) :
    ∃ r ∈ db'.rowsOf s.id, decodeRow loadsText r = e := by
  by_cases hlt : fromSeq < e.seq
  · obtain ⟨r, hr, henc⟩ := hflush.encodes e he hlt
    exact ⟨r, mem_rowsOf.mpr ⟨hr, (encodeRow_key henc).1⟩, decodeRow_of_encodeRow henc (hsurvive e he hlt)⟩
  · obtain ⟨r, hr, hid, hdecode⟩ := hstored e he (Nat.le_of_not_lt hlt)
    have hseq : r.seq = e.seq := congrArg SessionEvent.seq hdecode
    have hkept : r ∈ db'.events.rows := by
      refine (hflush.rows r).mpr (Or.inr ⟨hr, ?_⟩)
      rintro ⟨-, e', -, hlt', hseq'⟩
      omega
    exact ⟨r, mem_rowsOf.mpr ⟨hkept, hid⟩, hdecode⟩

end

/-- The events of the session are read back after the flush exactly when they are stored below the watermark, survive above it,
and have the id to themselves. -/
theorem readEvents_eq_iff {db db' : Database} {fromSeq written : Nat} {s : Session} (hs : s.Filed)
    (h : writeUnsaved db fromSeq s = some (db', written)) : db'.readEvents loadsText s.id = s.events ↔
      StoredBelow loadsText db fromSeq s ∧ OpsSurvive loadsText fromSeq s ∧ StoredAlone db s := by
  have hflush := flushed_of_writeUnsaved hs h
  rw [readEvents_eq_iff_readsAs hs]
  constructor
  · intro hreads
    exact ⟨hflush.storedBelow hreads, hflush.opsSurvive hs hreads, hflush.storedAlone hreads⟩
  · rintro ⟨hstored, hsurvive, halone⟩ e
    constructor
    · intro hmem
      obtain ⟨r, hr, rfl⟩ := List.mem_map.mp hmem
      obtain ⟨hr, hid⟩ := mem_rowsOf.mp hr
      exact hflush.decodeRow_mem hstored hsurvive halone hr hid
    · intro he
      exact List.mem_map.mpr (hflush.exists_row hstored hsurvive he)

/-- After a flush of a live session that returned, a load gives back exactly its header and events precisely when the rows the
flush skipped read back as its events, the operations it wrote survive, no row of the id lies at another seq, and the log can be
replayed. -/
theorem flush_load_iff {db db' : Database} {fromSeq written : Nat} {s : Session} (hs : s.Live loadsText)
    (h : writeUnsaved db fromSeq s = some (db', written)) :
    (∃ s', db'.load loadsText s.id = .ok (some s') ∧ s'.header = s.header ∧ s'.events = s.events) ↔
      StoredBelow loadsText db fromSeq s ∧ OpsSurvive loadsText fromSeq s ∧ StoredAlone db s ∧ s.Reloads := by
  have hfiled := hs.filed
  have hheader := readHeader_of_writeUnsaved hfiled h
  have hload : (∃ s', db'.load loadsText s.id = .ok (some s') ∧ s'.header = s.header ∧ s'.events = s.events) ↔
      db'.readEvents loadsText s.id = s.events ∧ s.Reloads := by
    constructor
    · rintro ⟨s', hs', -, hev⟩
      obtain ⟨header, hread, hseed⟩ := load_eq_some_iff.mp hs'
      cases hheader.symm.trans hread
      have hback : db'.readEvents loadsText s.id = s.events := (seedAll_ok hseed).1.symm.trans hev
      rw [hback] at hseed
      exact ⟨hback, s', hseed⟩
    · rintro ⟨hev, s', hjson⟩
      obtain ⟨hev', -, -, -, hh⟩ := seedAll_ok hjson
      exact ⟨s', load_eq_some_iff.mpr ⟨s.header, hheader, by rw [hev]; exact hjson⟩, hh, hev'⟩
  rw [hload, readEvents_eq_iff hfiled h, and_assoc, and_assoc]

namespace SameId

open ReplayChain

/-- No text parses. -/
def noText : String → Option (List (PyKey × PyValue)) := fun _ => none

/-- A session under the id `chat-1`, with some messages. -/
def chat (calls : List AppendCall) : Session :=
  calls.foldl (fun s c => (s.append c).2) (Session.new "chat-1" { id := "chat-1" })

/-- Three messages of an earlier lifetime. -/
def earlier : Session := chat [say "m1" "one", say "m2" "two", say "m3" "three"]

/-- One message of a new lifetime. -/
def later : Session := chat [say "m4" "again"]

/-- The database after the flush of a session the backend has not written yet. -/
def flushed (db : Database) (s : Session) : Database := ((writeUnsaved db 0 s).map (·.1)).getD db

end SameId

open SameId in
theorem flush_load_iff_earlier :
    (∃ s', (flushed .empty earlier).load noText earlier.id = .ok (some s') ∧ s'.header = earlier.header ∧
      s'.events = earlier.events) ↔
    StoredBelow noText .empty 0 earlier ∧ OpsSurvive noText 0 earlier ∧ StoredAlone .empty earlier ∧ earlier.Reloads :=
  flush_load_iff (.append _ (.append _ (.append _ (.create "chat-1" 0 none)))) rfl

open SameId in
/-- The new lifetime is flushed over the rows of the earlier one: a load returns its message followed by two of the other's. -/
theorem flush_load_mixes_lifetimes : later.Live noText ∧
    writeUnsaved (flushed .empty earlier) 0 later = some (flushed (flushed .empty earlier) later, 1) ∧
    ((flushed (flushed .empty earlier) later).readEvents noText "chat-1").map (·.seq) = [1, 2, 3] ∧
    later.events.map (·.seq) = [1] ∧
    ¬∃ s', (flushed (flushed .empty earlier) later).load noText later.id = .ok (some s') ∧ s'.header = later.header ∧
      s'.events = later.events := by
  refine ⟨.append _ (.create "chat-1" 0 none), rfl, by decide +kernel, by decide +kernel, ?_⟩
  rintro ⟨s', hload, -, hev⟩
  have hlength : ((flushed (flushed .empty earlier) later).load noText later.id).toOption.map
      (fun s => s.map (fun s => s.events.length)) = some (some 3) := by decide +kernel
  rw [hload, Except.toOption, Option.map_some, Option.map_some, hev] at hlength
  cases hlength

end Pydsh
