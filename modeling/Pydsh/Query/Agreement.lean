import Pydsh.Persistence.RoundTrip
import Pydsh.Query.Search

/-!
# Live and stored queries

A query reads the live session, or what is stored where there is none. After a flush the two agree exactly if the stored log is the session's
(`live_stored_agree_iff`): a log that can be replayed gives the surface of the live session, whatever replacements it went through, and the
classes and texts are read off the events and the surface.
-/

namespace Pydsh

variable {loadsText : String → Option (List (PyKey × PyValue))}

/-! ## The surface of a log that can be replayed -/

/-- Whether a log can be replayed does not depend on the id and the header. -/
theorem reloads_iff (s : Session) (id : String) (header : SessionHeader) :
    s.Reloads ↔ ((Session.new id header).seedAll s.events).Returns := by
  have hseed := seedAll_named (Session.new s.header.id s.header) id header s.events
  have hnamed : (Session.new s.header.id s.header).named id header = Session.new id header := rfl
  rw [hnamed] at hseed
  rw [hseed, Except.returns_map_iff]
  rfl

/-- A log that can be replayed could be without its last event, and that one too. -/
theorem Session.Reloads.of_append {s s' : Session} {e : SessionEvent} (h : s'.Reloads) (hev : s'.events = s.events ++ [e]) :
    s.Reloads ∧ (s.Replays → (s.seed e).Returns) := by
  rw [reloads_iff s' s.id s.header, hev, seedAll_append] at h
  obtain ⟨s₁, hs₁, hseed⟩ := Except.returns_bind_iff.mp h
  refine ⟨(reloads_iff s s.id s.header).mpr ⟨s₁, hs₁⟩, fun hreplays => ?_⟩
  cases hs₁.symm.trans hreplays
  obtain ⟨s₂, hs₂, -⟩ := Except.returns_bind_iff.mp hseed
  exact ⟨s₂, hs₂⟩

theorem load_replays {db : Database} {id : String} {s : Session} (h : db.load loadsText id = .ok (some s)) : s.Replays := by
  obtain ⟨header, -, hseed⟩ := load_eq_some_iff.mp h
  obtain ⟨hev, -, -, hid, hheader⟩ := seedAll_ok hseed
  unfold Session.Replays
  rw [hev, hid, hheader]
  exact hseed

/-- A live session whose log can be replayed is what its log is replayed to. -/
theorem Session.Live.replays {s : Session} (h : s.Live loadsText) (hreloads : s.Reloads) : s.Replays := by
  induction h with
  | create id createdAt cwd => exact Session.replays_new id _
  | resume db id s hload => exact load_replays hload
  | @append s c hlive ih =>
    rcases append_cases s c with ⟨-, e, happ⟩ | ⟨j, -, -, happ⟩ | ⟨j, first, last, -, -, -, happ⟩ | ⟨j, e, hj, hnone, happ⟩
    · rw [happ] at hreloads ⊢
      exact ih hreloads
    · rw [happ] at hreloads ⊢
      exact (ih (hreloads.of_append (append_ok_events happ).1).1).append happ
    · rw [happ] at hreloads ⊢
      exact (ih (hreloads.of_append (append_ok_events happ).1).1).append happ
    · -- the event that a raising append left in the log cannot be replayed
      rw [happ] at hreloads
      obtain ⟨hbefore, hseed⟩ := hreloads.of_append (s := s) rfl
      obtain ⟨e', he'⟩ := seed_of_replacesNoRun hj hnone
      have hreturns := hseed (ih hbefore)
      rw [he'] at hreturns
      exact absurd hreturns (Except.not_returns_error e')
  | @setRequest s request hlive ih =>
    have hbefore : s.Reloads := 
      (reloads_iff s s.id s.header).mpr ((reloads_iff { s with header := { s.header with request } } s.id s.header).mp hreloads)
    have hreplays : s.Replays := ih hbefore
    have hseed := seedAll_named (Session.new s.id s.header) s.id { s.header with request } s.events
    rw [hreplays] at hseed
    exact hseed

/-! ## The rows that are read -/

/-- The rows at or after a seq. -/
def Database.since (db : Database) (fromSeq : Nat) : Database :=
  { db with events := db.events.restrict (fun r => decide (fromSeq ≤ r.seq)) }

theorem readEvents_since (db : Database) (id : String) (fromSeq : Nat) :
    (db.since fromSeq).readEvents loadsText id = db.readEventsFrom loadsText id fromSeq := by
  unfold Database.readEvents Database.readEventsFrom Database.since Table.restrict
  dsimp only
  rw [List.filter_filter]
  congr 2
  refine List.filter_congr (fun r _ => ?_)
  simp

theorem writeUnsaved_since {db db' : Database} {fromSeq written : Nat} {s : Session}
    (h : writeUnsaved db fromSeq s = some (db', written)) : writeUnsaved (db.since 1) fromSeq s = some (db'.since 1, written) := by
  obtain ⟨db₁, hwrite, heq⟩ := Option.map_eq_some_iff.mp h
  obtain ⟨rfl, rfl⟩ := Prod.mk.inj heq
  obtain ⟨rows, hrows, rfl⟩ := Option.map_eq_some_iff.mp hwrite
  have hpositive : ∀ r ∈ rows, decide (1 ≤ r.seq) = true := by
    intro r hr
    obtain ⟨e, he, henc⟩ := (encodeRows_spec hrows).2.2 r hr
    have hlt : fromSeq < e.seq := by simpa using (List.mem_filter.mp he).2
    have hseq := (encodeRow_key henc).2
    rw [decide_eq_true_eq]
    omega
  unfold writeUnsaved Database.write
  rw [hrows, Option.map_some, Option.map_some]
  unfold Database.since
  rw [Table.restrict_upsertAll db.events hpositive]

/-! ## What a query gives -/

/-- The queries of a session give the same, whether they read the one or the other. -/
structure QueriesAgree (python : QueryTexts) (sessionId : String) (live stored : Except QueryFailure LoadedSession) : Prop where
  session : readSession sessionId live = readSession sessionId stored
  surface : readSurface python sessionId live = readSurface python sessionId stored
  filtered : ∀ filters, filterSessionEvents python sessionId live filters = filterSessionEvents python sessionId stored filters

/-- What is loaded from the store where a header is found: the stored events, and the surface that they are replayed to. -/
theorem loadStored_ok (python : QueryTexts) {db : Database} {id : String} {header : SessionHeader} {rebuilt : Session}
    (hheader : db.readHeader id = .ok (some header))
    (hseed : (Session.new id header).seedAll (db.readEventsFrom loadsText id 1) = .ok rebuilt) :
    loadStored loadsText python db id =
      .ok { header, events := db.readEventsFrom loadsText id 1, surfaceNodes := rebuilt.surfaceNodes } := by
  unfold loadStored
  rw [readFrom_of_readHeader hheader]
  dsimp only
  rw [hseed]

theorem loadStored_error (python : QueryTexts) {db : Database} {id : String} {header : SessionHeader} {e : SessionError}
    (hheader : db.readHeader id = .ok (some header))
    (hseed : (Session.new id header).seedAll (db.readEventsFrom loadsText id 1) = .error e) :
    loadStored loadsText python db id = .error (LoadError.failure (.session e)) := by
  unfold loadStored
  rw [readFrom_of_readHeader hheader]
  dsimp only
  rw [hseed]

/-- What is loaded from the store is the session exactly if its events are read back and its log can be replayed. -/
theorem queriesAgree_iff (python : QueryTexts) {db : Database} {s : Session} (hs : s.Live loadsText)
    (hheader : db.readHeader s.id = .ok (some s.header)) :
    QueriesAgree python s.id (.ok (loadLive s)) (loadStored loadsText python db s.id) ↔
      db.readEventsFrom loadsText s.id 1 = s.events ∧ s.Reloads := by
  constructor
  · intro hagree
    have hsession := hagree.session
    cases hseed : (Session.new s.id s.header).seedAll (db.readEventsFrom loadsText s.id 1) with
    | error e =>
      rw [loadStored_error python hheader hseed] at hsession
      cases hsession
    | ok rebuilt =>
      rw [loadStored_ok python hheader hseed] at hsession
      have hevents : s.events = db.readEventsFrom loadsText s.id 1 := (Prod.mk.inj (Prod.mk.inj (Except.ok.inj hsession)).2).2
      rw [← hevents] at hseed
      exact ⟨hevents.symm, (reloads_iff s s.id s.header).mpr ⟨rebuilt, hseed⟩⟩
  · rintro ⟨hevents, hreloads⟩
    have hreplays : (Session.new s.id s.header).seedAll s.events = .ok s := hs.replays hreloads
    rw [← hevents] at hreplays
    have hsame : loadStored loadsText python db s.id = .ok (loadLive s) := by
      rw [loadStored_ok python hheader hreplays, hevents]
      rfl
    rw [hsame]
    exact ⟨rfl, rfl, fun _ => rfl⟩

/-- After a flush of a live session that returned, live and stored queries agree exactly if the rows the flush skipped read back as the
session's events, the operations it wrote survive, no row of the id that is read lies at another seq, and the log can be replayed. -/
theorem live_stored_agree_iff (python : QueryTexts) {db db' : Database} {fromSeq written : Nat} {s : Session} (hs : s.Live loadsText)
    (h : writeUnsaved db fromSeq s = some (db', written)) :
    QueriesAgree python s.id (.ok (loadLive s)) (loadStored loadsText python db' s.id) ↔
      StoredBelow loadsText (db.since 1) fromSeq s ∧ OpsSurvive loadsText fromSeq s ∧ StoredAlone (db.since 1) s ∧ s.Reloads := by
  have hheader := readHeader_of_writeUnsaved hs.filed h
  have hread : db'.readEventsFrom loadsText s.id 1 = s.events ↔
      StoredBelow loadsText (db.since 1) fromSeq s ∧ OpsSurvive loadsText fromSeq s ∧ StoredAlone (db.since 1) s := by
    rw [← readEvents_eq_iff hs.filed (writeUnsaved_since h), readEvents_since]
    rfl
  rw [queriesAgree_iff python hs hheader, hread, and_assoc, and_assoc]

namespace SameId

/-- The seqs of the events that a session is read to have. -/
def readSeqs (loaded : Except QueryFailure LoadedSession) : Option (List Nat) :=
  (readSession "chat-1" loaded).toOption.map (fun r => r.2.2.map (·.seq))

end SameId

open SameId in
theorem live_stored_agree_iff_earlier :
    QueriesAgree asciiTexts earlier.id (.ok (loadLive earlier)) (loadStored noText asciiTexts (flushed .empty earlier) earlier.id) ↔
      StoredBelow noText (Database.empty.since 1) 0 earlier ∧ OpsSurvive noText 0 earlier ∧
        StoredAlone (Database.empty.since 1) earlier ∧ earlier.Reloads :=
  live_stored_agree_iff asciiTexts (.append _ (.append _ (.append _ (.create "chat-1" 0 none)))) rfl

open SameId in
/-- The new lifetime is flushed over the rows of the earlier one: a stored query shows its message and two of the other's. -/
theorem not_live_stored_agree : later.Live noText ∧
    writeUnsaved (flushed .empty earlier) 0 later = some (flushed (flushed .empty earlier) later, 1) ∧
    readSeqs (.ok (loadLive later)) = some [1] ∧
    readSeqs (loadStored noText asciiTexts (flushed (flushed .empty earlier) later) later.id) = some [1, 2, 3] ∧
    ¬QueriesAgree asciiTexts later.id (.ok (loadLive later))
      (loadStored noText asciiTexts (flushed (flushed .empty earlier) later) later.id) := by
  have hlive : readSeqs (.ok (loadLive later)) = some [1] := by decide +kernel
  have hstored : readSeqs (loadStored noText asciiTexts (flushed (flushed .empty earlier) later) later.id) = some [1, 2, 3] := by
    decide +kernel
  refine ⟨.append _ (.create "chat-1" 0 none), rfl, hlive, hstored, ?_⟩
  intro hagree
  have hsession : readSession "chat-1" (.ok (loadLive later)) =
      readSession "chat-1" (loadStored noText asciiTexts (flushed (flushed .empty earlier) later) later.id) := hagree.session
  have hseqs : readSeqs (.ok (loadLive later)) =
      readSeqs (loadStored noText asciiTexts (flushed (flushed .empty earlier) later) later.id) := by
    rw [readSeqs, readSeqs, hsession]
  rw [hlive, hstored] at hseqs
  cases hseqs

end Pydsh
