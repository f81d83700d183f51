import Pydsh.Lib.Table
import Pydsh.Session.Replay

/-!
# The SQLite backend

`session/persistence.py`: the two tables, what a flush writes, what a load reads. Events are rows under the key of session id and
seq, written with `INSERT OR REPLACE`; a flush writes the events above the watermark that the backend keeps for the session
object. A cell that `json.dumps` wrote is modelled by what `json.loads` gives for it. Any other text that starts with a brace is
also given to `json.loads` on the way back; what that makes of it is the parameter `loadsText`, `none` where it raises
`ValueError`.
-/

namespace Pydsh

/-! ## The tables -/

/-- A cell of the `surface_op` column: NULL, a text, or the text of a mapping by its parse. -/
inductive OpCell where
  | null
  | text (s : String)
  | json (kvs : List (PyKey × PyValue))

/-- A row of the `sessions` table. -/
structure SessionRow where
  id : String
  version : Int
  createdAt : Rat
  cwd : Option String
  request : Option (List (String × Json))

/-- A row of the `events` table. -/
structure EventRow where
  sessionId : String
  seq : Nat
  type : EventType
  time : Rat
  data : Json
  surfaceOp : OpCell
  sourceEventSeqs : List Nat

/-- `PRIMARY KEY (session_id, seq)`. -/
def EventRow.key (r : EventRow) : String × Nat := (r.sessionId, r.seq)

/-- The database, its primary keys included. -/
structure Database where
  sessions : Table SessionRow.id
  events : Table EventRow.key

/-- A new database. -/
def Database.empty : Database := ⟨.empty, .empty⟩

/-! ## Encoding and decoding -/

/-- `_encode_surface_op`; `none` where `json.dumps` raises. -/
def encodeSurfaceOp : SurfaceOp → Option OpCell
  | .none => some .null
  | .text s => some (.text s)
  | .mapping kvs => (PyValue.reloadFields kvs).map (fun items => .json (dictOf items))

variable (loadsText : String → Option (List (PyKey × PyValue)))

/-- `_decode_surface_op`. -/
def decodeSurfaceOp : OpCell → SurfaceOp
  | .null => .none
  | .text s =>
    if s.toList.head? = some '{' then
      match loadsText s with
      | some kvs => .mapping kvs
      | none => .text s
    else .text s
  | .json kvs => .mapping kvs

/-- The row of an event; `none` where its encoding raises. -/
def encodeRow (id : String) (e : SessionEvent) : Option EventRow :=
  (encodeSurfaceOp e.surfaceOp).map fun cell =>
    { sessionId := id
      seq := e.seq
      type := e.type
      time := e.time
      data := e.data
      surfaceOp := cell
      sourceEventSeqs := e.sourceEventSeqs }

/-- The event of a row. -/
def decodeRow (r : EventRow) : SessionEvent :=
  { type := r.type
    seq := r.seq
    time := r.time
    data := r.data
    surfaceOp := decodeSurfaceOp loadsText r.surfaceOp
    sourceEventSeqs := r.sourceEventSeqs }

/-- The row of a session's header. -/
def headerRow (s : Session) : SessionRow :=
  { id := s.id
    version := s.header.version
    createdAt := s.header.createdAt
    cwd := s.header.cwd
    request := s.header.request }

/-! ## Writing -/

/-- The transaction of a write: the header row and the rows of some events; `none` where it raises and is rolled back. -/
def Database.write (db : Database) (s : Session) (events : List SessionEvent) : Option Database :=
  (events.mapM (encodeRow s.id)).map fun rows =>
    { sessions := db.sessions.upsert (headerRow s), events := db.events.upsertAll rows }

/-- The events above a watermark. -/
def freshEvents (s : Session) (fromSeq : Nat) : List SessionEvent := s.events.filter (fun e => decide (fromSeq < e.seq))

/-- The watermark after a write: the last event written, or the old watermark. -/
def writtenSeq (fresh : List SessionEvent) (fromSeq : Nat) : Nat := (fresh.getLast?.map (·.seq)).getD fromSeq

/-- `_write_unsaved`, with the watermark it found: the database and the watermark it returns. -/
def writeUnsaved (db : Database) (fromSeq : Nat) (s : Session) : Option (Database × Nat) :=
  (db.write s (freshEvents s fromSeq)).map fun db => (db, writtenSeq (freshEvents s fromSeq) fromSeq)

/-! ## Reading -/

/-- Why a load raises. -/
inductive LoadError where
  /-- `SessionFormatUnsupportedError`. -/
  | unsupported (version : Int)
  /-- `from_json` raised. -/
  | session (e : SessionError)

/-- `_read_header`. -/
def Database.readHeader (db : Database) (id : String) : Except LoadError (Option SessionHeader) :=
  match db.sessions.find? id with
  | none => .ok none
  | some row =>
    if row.version ≠ sessionFormatVersion then .error (.unsupported row.version)
    else .ok (some { version := row.version, id, createdAt := row.createdAt, cwd := row.cwd, request := row.request })

/-- `_read_events_from`: the events at or after a seq, in order. -/
def Database.readEventsFrom (db : Database) (id : String) (fromSeq : Int) : List SessionEvent :=
  (Table.ordered EventRow.seq (db.events.rows.filter (fun r => decide (r.sessionId = id ∧ fromSeq ≤ r.seq)))).map
    (decodeRow loadsText)

/-- All events stored under an id, in order. -/
def Database.readEvents (db : Database) (id : String) : List SessionEvent :=
  (Table.ordered EventRow.seq (db.events.rows.filter (fun r => decide (r.sessionId = id)))).map (decodeRow loadsText)

/-- `read_from`. -/
def Database.readFrom (db : Database) (id : String) (fromSeq : Int) :
    Except LoadError (Option (SessionHeader × List SessionEvent)) := do
  let header ← db.readHeader id
  return header.map (fun header => (header, db.readEventsFrom loadsText id fromSeq))

/-- `load`. -/
def Database.load (db : Database) (id : String) : Except LoadError (Option Session) :=
  match db.readHeader id with
  | .error e => .error e
  | .ok none => .ok none
  | .ok (some header) =>
    match Session.fromJson { header, events := db.readEvents loadsText id } with
    | .error e => .error (.session e)
    | .ok s => .ok (some s)

/-! ## Live sessions -/

/-- The sessions a store gives out: created under an id, or resumed from some database, and grown by calls of `append`. The agent
loop sets the header's call config. -/
inductive Session.Live : Session → Prop where
  | create (id : String) (createdAt : Rat) (cwd : Option String) : Session.Live (Session.new id { id, createdAt, cwd })
  | resume (db : Database) (id : String) (s : Session) : db.load loadsText id = .ok (some s) → Session.Live s
  | append {s : Session} (c : AppendCall) : Session.Live s → Session.Live (s.append c).2
  | setRequest {s : Session} (request : Option (List (String × Json))) : Session.Live s →
    Session.Live { s with header := { s.header with request } }

/-- What a live session satisfies: its seqs increase, and its header names it and the current format. -/
structure Session.Filed (s : Session) : Prop extends s.Increasing where
  headerId : s.header.id = s.id
  headerVersion : s.header.version = sessionFormatVersion

/-! ## What the tables hold -/

variable {loadsText}

/-- What a load that found a session did: it read a header, and replayed the stored events. -/
theorem load_eq_some_iff {db : Database} {id : String} {s : Session} : db.load loadsText id = .ok (some s) ↔
    ∃ header, db.readHeader id = .ok (some header) ∧
      (Session.new header.id header).seedAll (db.readEvents loadsText id) = .ok s := by
  unfold Database.load
  constructor
  · intro h
    split at h
    · cases h
    · cases h
    next header hheader =>
      split at h
      · cases h
      next hjson =>
        cases h
        exact ⟨header, hheader, hjson⟩
  · rintro ⟨header, hheader, hseed⟩
    have hjson : Session.fromJson { header, events := db.readEvents loadsText id } = .ok s := hseed
    rw [hheader]
    dsimp only
    rw [hjson]

theorem readFrom_of_readHeader {db : Database} {id : String} {header : SessionHeader} (h : db.readHeader id = .ok (some header))
    (fromSeq : Int) : db.readFrom loadsText id fromSeq = .ok (some (header, db.readEventsFrom loadsText id fromSeq)) := by
  unfold Database.readFrom
  rw [h]
  rfl

/-- The rows stored under an id. -/
def Database.rowsOf (db : Database) (id : String) : List EventRow := db.events.rows.filter (fun r => decide (r.sessionId = id))

theorem mem_rowsOf {db : Database} {id : String} {r : EventRow} :
    r ∈ db.rowsOf id ↔ r ∈ db.events.rows ∧ r.sessionId = id := by
  simp [Database.rowsOf]

theorem row_unique {db : Database} {r r' : EventRow} (hr : r ∈ db.events.rows) (hr' : r' ∈ db.events.rows)
    (hid : r.sessionId = r'.sessionId) (hseq : r.seq = r'.seq) : r = r' :=
  List.inj_on_of_nodup_map db.events.unique hr hr' (by simp [EventRow.key, hid, hseq])

theorem rowsOf_nodup (db : Database) (id : String) : ((db.rowsOf id).map EventRow.seq).Nodup := by
  refine List.Nodup.map_on ?_ (db.events.nodup_rows.sublist List.filter_sublist)
  intro r hr r' hr' hseq
  obtain ⟨hr, hid⟩ := mem_rowsOf.mp hr
  obtain ⟨hr', hid'⟩ := mem_rowsOf.mp hr'
  exact row_unique hr hr' (hid.trans hid'.symm) hseq

theorem readEvents_increasing (db : Database) (id : String) :
    (db.readEvents loadsText id).Pairwise (fun x y => x.seq < y.seq) :=
  List.pairwise_map.mpr (Table.ordered_increasing (rowsOf_nodup db id))

theorem encodeRows_spec {id : String} {events : List SessionEvent} {rows : List EventRow}
    (h : events.mapM (encodeRow id) = some rows) : rows.map EventRow.key = events.map (fun e => (id, e.seq)) ∧
      (∀ e ∈ events, ∃ r ∈ rows, encodeRow id e = some r) ∧ ∀ r ∈ rows, ∃ e ∈ events, encodeRow id e = some r := by
  induction events generalizing rows with
  | nil =>
    cases h
    exact ⟨rfl, by simp, by simp⟩
  | cons e events ih =>
    rw [List.mapM_cons] at h
    obtain ⟨r, hr, h⟩ := Option.bind_eq_some_iff.mp h
    obtain ⟨rest, hrest, h⟩ := Option.bind_eq_some_iff.mp h
    cases h
    obtain ⟨hkeys, hall, hback⟩ := ih hrest
    obtain ⟨cell, -, hcell⟩ := Option.map_eq_some_iff.mp hr
    have hkey : r.key = (id, e.seq) := by rw [← hcell]; rfl
    refine ⟨by rw [List.map_cons, List.map_cons, hkeys, hkey], ?_, ?_⟩
    · intro e' he'
      rcases List.mem_cons.mp he' with rfl | he'
      · exact ⟨r, List.mem_cons_self, hr⟩
      · obtain ⟨r', hr', henc⟩ := hall e' he'
        exact ⟨r', List.mem_cons_of_mem r hr', henc⟩
    · intro r' hr'
      rcases List.mem_cons.mp hr' with rfl | hr'
      · exact ⟨e, List.mem_cons_self, hr⟩
      · obtain ⟨e', he', henc⟩ := hback r' hr'
        exact ⟨e', List.mem_cons_of_mem e he', henc⟩

theorem encodeRow_key {id : String} {e : SessionEvent} {r : EventRow} (h : encodeRow id e = some r) :
    r.sessionId = id ∧ r.seq = e.seq := by
  obtain ⟨cell, -, rfl⟩ := Option.map_eq_some_iff.mp h
  exact ⟨rfl, rfl⟩

/-- After a write of events with distinct seqs the tables hold the header row, a row for each event written, and of the old rows
those at other keys. -/
theorem write_spec {db db' : Database} {s : Session} {events : List SessionEvent} (h : db.write s events = some db')
    (hnodup : (events.map (·.seq)).Nodup) : db'.sessions = db.sessions.upsert (headerRow s) ∧
      (∀ e ∈ events, ∃ r ∈ db'.events.rows, encodeRow s.id e = some r) ∧
      ∀ r, r ∈ db'.events.rows ↔ (∃ e ∈ events, encodeRow s.id e = some r) ∨
        (r ∈ db.events.rows ∧ ¬(r.sessionId = s.id ∧ ∃ e ∈ events, e.seq = r.seq)) := by
  obtain ⟨rows, hrows, rfl⟩ := Option.map_eq_some_iff.mp h
  obtain ⟨hkeys, hall, hback⟩ := encodeRows_spec hrows
  have hkeysNodup : (rows.map EventRow.key).Nodup := by
    have hmap : rows.map EventRow.key = (events.map (·.seq)).map (fun n => (s.id, n)) := by
      rw [hkeys, List.map_map]
      rfl
    rw [hmap]
    exact hnodup.map (fun _ _ heq => (Prod.mk.inj heq).2)
  have hmem : ∀ r, r ∈ (db.events.upsertAll rows).rows ↔ (∃ e ∈ events, encodeRow s.id e = some r) ∨
      (r ∈ db.events.rows ∧ ¬(r.sessionId = s.id ∧ ∃ e ∈ events, e.seq = r.seq)) := by
    intro r
    rw [Table.mem_upsertAll hkeysNodup]
    constructor
    · rintro (hr | ⟨hr, hne⟩)
      · exact Or.inl (hback r hr)
      · refine Or.inr ⟨hr, ?_⟩
        rintro ⟨hid, e, he, hseq⟩
        obtain ⟨r', hr', henc⟩ := hall e he
        obtain ⟨hid', hseq'⟩ := encodeRow_key henc
        exact hne r' hr' (by simp [EventRow.key, hid, hid', hseq, hseq'])
    · rintro (⟨e, he, henc⟩ | ⟨hr, hno⟩)
      · obtain ⟨r', hr', henc'⟩ := hall e he
        rw [henc] at henc'
        cases henc'
        exact Or.inl hr'
      · refine Or.inr ⟨hr, fun r' hr' heq => hno ?_⟩
        obtain ⟨e, he, henc⟩ := hback r' hr'
        obtain ⟨hid', hseq'⟩ := encodeRow_key henc
        obtain ⟨hid, hseq⟩ := Prod.mk.inj heq
        exact ⟨hid.trans hid', e, he, (hseq.trans hseq').symm⟩
  refine ⟨rfl, ?_, hmem⟩
  intro e he
  obtain ⟨r, -, henc⟩ := hall e he
  exact ⟨r, (hmem r).mpr (Or.inl ⟨e, he, henc⟩), henc⟩

end Pydsh
