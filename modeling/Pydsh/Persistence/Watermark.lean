import Pydsh.Lib.Machine
import Pydsh.Persistence.RoundTrip

/-!
# The watermark of an incremental flush

The backend remembers, under the identity of each session object, the seq up to which its events are stored, and a flush writes
the events above it. A flush waits for the lock, reads the session in a thread, commits or fails, and records the new watermark
when it is back on the loop; appends, drops and creations go on in between. Python reuses the identity of an object that is gone,
and nothing takes its entry out of the table.

The watermark means what it should in every run in which each new object starts with no watermark of a dropped one above its own
seq, and no write replaces an event that another live object's watermark vouches for (`watermark_safe`). An object that inherits
a watermark loses its first events (`reused_identity_loses_events`).
-/

namespace Pydsh

/-! ## The machine -/

/-- A call of `flush`, or of `create`, which writes everything: the object, its session id, and, for the statements below, the
events it had when the call was made. -/
structure FlushCall where
  pid : Nat
  id : String
  whole : Bool
  atStart : List SessionEvent

/-- What the holder of the lock is doing. -/
inductive FlushPhase where
  | idle
  /-- The thread has read the session and is writing. -/
  | writing (f : FlushCall) (snapshot : Session)
  /-- The transaction is committed, and the seq it covered not yet recorded. -/
  | written (f : FlushCall) (seq : Nat)

/-- The live session objects by identity, the database, the table of watermarks, the calls that wait for the lock and the one
that holds it, and the call that returned in the last step. -/
structure Backend where
  objects : Nat → Option Session
  db : Database
  persisted : Nat → Nat
  waiting : List FlushCall
  phase : FlushPhase
  returned : Option FlushCall

/-- What can happen next. -/
inductive BackendAction where
  | create (pid : Nat) (id : String) (createdAt : Rat) (cwd : Option String)
  | resume (pid : Nat) (id : String)
  | append (pid : Nat) (c : AppendCall)
  | drop (pid : Nat)
  | flush (pid : Nat) (whole : Bool)
  | start (n : Nat)
  | commit
  | fail
  | record

/-- The call that holds the lock. -/
def FlushPhase.call? : FlushPhase → Option FlushCall
  | .idle => none
  | .writing f _ => some f
  | .written f _ => some f

/-- The events a call writes of the session it read. -/
def FlushCall.events (f : FlushCall) (persisted : Nat → Nat) (snapshot : Session) : List SessionEvent :=
  if f.whole then snapshot.events else freshEvents snapshot (persisted f.pid)

/-- The seq it returns. -/
def FlushCall.written (f : FlushCall) (persisted : Nat → Nat) (snapshot : Session) : Nat :=
  writtenSeq (f.events persisted snapshot) (if f.whole then 0 else persisted f.pid)

variable (loadsText : String → Option (List (PyKey × PyValue)))

/-- One step; `none` where the action cannot happen. A call of `flush` holds on to its object. -/
def Backend.step (st : Backend) : BackendAction → Option Backend
  | .create pid id createdAt cwd =>
    match st.objects pid with
    | some _ => none
    | none => some { st with
        objects := Function.update st.objects pid (some (Session.new id { id, createdAt, cwd }))
        returned := none }
  | .resume pid id =>
    match st.objects pid, st.db.load loadsText id with
    | none, .ok (some s) => some { st with objects := Function.update st.objects pid (some s), returned := none }
    | _, _ => none
  | .append pid c => (st.objects pid).map fun s =>
    { st with objects := Function.update st.objects pid (some (s.append c).2), returned := none }
  | .drop pid =>
    if st.waiting.any (fun f => f.pid == pid) || st.phase.call?.any (fun f => f.pid == pid) then none
    else some { st with objects := Function.update st.objects pid none, returned := none }
  | .flush pid whole => (st.objects pid).map fun s =>
    { st with waiting := st.waiting ++ [{ pid, id := s.id, whole, atStart := s.events }], returned := none }
  | .start n =>
    match st.phase, st.waiting[n]? with
    | .idle, some f => (st.objects f.pid).map fun s =>
      { st with waiting := st.waiting.eraseIdx n, phase := .writing f s, returned := none }
    | _, _ => none
  | .commit =>
    match st.phase with
    | .writing f s => (st.db.write s (f.events st.persisted s)).map fun db =>
      { st with db, phase := .written f (f.written st.persisted s), returned := none }
    | _ => none
  | .fail =>
    match st.phase with
    | .writing _ _ => some { st with phase := .idle, returned := none }
    | _ => none
  | .record =>
    match st.phase with
    | .written f seq => some { st with persisted := Function.update st.persisted f.pid seq, phase := .idle, returned := some f }
    | _ => none

/-- A process that has just opened a database. -/
def Backend.opened (db : Database) : Backend :=
  { objects := fun _ => none, db, persisted := fun _ => 0, waiting := [], phase := .idle, returned := none }

/-! ## What a watermark promises -/

/-- The event is stored under the id: some row of it was written for the event, or reads back as it. -/
def Database.Stores (db : Database) (id : String) (e : SessionEvent) : Prop :=
  ∃ r ∈ db.events.rows, r.sessionId = id ∧ r.seq = e.seq ∧ (encodeRow id e = some r ∨ decodeRow loadsText r = e)

/-- No event at or below a live object's watermark is missing from the database, and the call that has just returned left every
event its session had when it was made. -/
structure Backend.Safe (st : Backend) : Prop where
  watermark : ∀ pid s, st.objects pid = some s → ∀ e ∈ s.events, e.seq ≤ st.persisted pid → st.db.Stores loadsText s.id e
  flushed : ∀ f, st.returned = some f → ∀ e ∈ f.atStart, st.db.Stores loadsText f.id e

/-- A new object has no watermark above its seq, and a write replaces no event that another live object has at or below its
watermark by a different one. -/
def Backend.Undisturbed (st : Backend) : BackendAction → Prop
  | .create pid _ _ _ => st.persisted pid = 0
  | .resume pid id => ∀ s, st.db.load loadsText id = .ok (some s) → st.persisted pid ≤ s.seq
  | .commit => ∀ f snapshot, st.phase = .writing f snapshot → ∀ pid s, pid ≠ f.pid → st.objects pid = some s →
    s.id = snapshot.id → ∀ e ∈ s.events, e.seq ≤ st.persisted pid → ∀ e' ∈ f.events st.persisted snapshot, e'.seq = e.seq →
    e' = e
  | _ => True

/-! ## Growing sessions -/

/-- The second session is the first with events above its seq. -/
structure Session.Extends (s s' : Session) : Prop where
  events : ∃ es, s'.events = s.events ++ es ∧ ∀ e ∈ es, s.seq < e.seq
  id : s'.id = s.id
  seq : s.seq ≤ s'.seq

theorem Session.Extends.refl (s : Session) : s.Extends s := ⟨⟨[], by simp, by simp⟩, rfl, Nat.le_refl _⟩

theorem Session.Extends.trans {s₁ s₂ s₃ : Session} (h : s₁.Extends s₂) (h' : s₂.Extends s₃) : s₁.Extends s₃ := by
  obtain ⟨⟨es, hes, habove⟩, hid, hseq⟩ := h
  obtain ⟨⟨es', hes', habove'⟩, hid', hseq'⟩ := h'
  refine ⟨⟨es ++ es', by rw [hes', hes, List.append_assoc], ?_⟩, hid'.trans hid, Nat.le_trans hseq hseq'⟩
  intro e he
  rcases List.mem_append.mp he with he | he
  · exact habove e he
  · exact Nat.lt_of_le_of_lt hseq (habove' e he)

theorem Session.extends_append (s : Session) (c : AppendCall) : s.Extends (s.append c).2 := by
  rcases append_log s c with heq | ⟨e, hev, he, hseq, hid, -⟩
  · rw [heq]
    exact .refl s
  · refine ⟨⟨[e], hev, ?_⟩, hid, by omega⟩
    intro e' he'
    rw [List.mem_singleton.mp he', he]
    exact Nat.lt_succ_self _

theorem Session.Extends.mem {s s' : Session} (h : s.Extends s') {e : SessionEvent} (he : e ∈ s.events) : e ∈ s'.events := by
  obtain ⟨⟨es, hes, -⟩, -, -⟩ := h
  rw [hes]
  exact List.mem_append_left es he

theorem Session.Extends.mem_of_le {s s' : Session} (h : s.Extends s') {e : SessionEvent} (he : e ∈ s'.events)
    (hle : e.seq ≤ s.seq) : e ∈ s.events := by
  obtain ⟨⟨es, hes, habove⟩, -, -⟩ := h
  rw [hes] at he
  rcases List.mem_append.mp he with he | he
  · exact he
  · have := habove e he
    omega

variable {loadsText}

/-! ## A write and what was stored before it -/

theorem stores_written {db db' : Database} {s : Session} {events : List SessionEvent} (h : db.write s events = some db')
    (hnodup : (events.map (·.seq)).Nodup) {e : SessionEvent} (he : e ∈ events) : db'.Stores loadsText s.id e := by
  obtain ⟨-, hencodes, -⟩ := write_spec h hnodup
  obtain ⟨r, hr, henc⟩ := hencodes e he
  obtain ⟨hid, hseq⟩ := encodeRow_key henc
  exact ⟨r, hr, hid, hseq, Or.inl henc⟩

/-- What was stored still is, unless the write put a different event in its place. -/
theorem stores_kept {db db' : Database} {s : Session} {events : List SessionEvent} (h : db.write s events = some db')
    (hnodup : (events.map (·.seq)).Nodup) {id : String} {e : SessionEvent} (hstored : db.Stores loadsText id e)
    (hsame : id = s.id → ∀ e' ∈ events, e'.seq = e.seq → e' = e) : db'.Stores loadsText id e := by
  obtain ⟨r, hr, hid, hseq, hrow⟩ := hstored
  by_cases hover : id = s.id ∧ ∃ e' ∈ events, e'.seq = e.seq
  · obtain ⟨rfl, e', he', hseq'⟩ := hover
    have heq := hsame rfl e' he' hseq'
    exact stores_written h hnodup (heq ▸ he')
  · obtain ⟨-, -, hrows⟩ := write_spec h hnodup
    refine ⟨r, (hrows r).mpr (Or.inr ⟨hr, ?_⟩), hid, hseq, hrow⟩
    rintro ⟨hid', e', he', hseq'⟩
    exact hover ⟨hid.symm.trans hid', e', he', hseq'.trans hseq⟩

theorem FlushCall.events_sublist (f : FlushCall) (persisted : Nat → Nat) (snapshot : Session) :
    (f.events persisted snapshot).Sublist snapshot.events := by
  unfold FlushCall.events
  split
  · exact List.Sublist.refl _
  · exact List.filter_sublist

theorem FlushCall.mem_events_or_le (f : FlushCall) (persisted : Nat → Nat) {snapshot : Session} {e : SessionEvent}
    (he : e ∈ snapshot.events) : e ∈ f.events persisted snapshot ∨ e.seq ≤ persisted f.pid := by
  unfold FlushCall.events
  split
  · exact Or.inl he
  · by_cases hlt : persisted f.pid < e.seq
    · exact Or.inl (List.mem_filter.mpr ⟨he, by simpa using hlt⟩)
    · exact Or.inr (Nat.le_of_not_lt hlt)

theorem FlushCall.written_le (f : FlushCall) {persisted : Nat → Nat} {snapshot : Session} (hs : snapshot.Filed)
    (hle : persisted f.pid ≤ snapshot.seq) : f.written persisted snapshot ≤ snapshot.seq := by
  unfold FlushCall.written writtenSeq
  cases hlast : (f.events persisted snapshot).getLast? with
  | none =>
    simp only [Option.map_none, Option.getD_none]
    split
    · exact Nat.zero_le _
    · exact hle
  | some e => exact hs.bounded e ((f.events_sublist persisted snapshot).subset (List.mem_of_getLast? hlast))

/-! ## What a step changes -/

/-- What an action finds, and the state it leaves. -/
inductive Backend.Does (loadsText : String → Option (List (PyKey × PyValue))) (st : Backend) : BackendAction → Backend → Prop where
  | creates {pid : Nat} {id : String} {createdAt : Rat} {cwd : Option String} (hnone : st.objects pid = none) :
      Does loadsText st (.create pid id createdAt cwd)
        { st with objects := Function.update st.objects pid (some (Session.new id { id, createdAt, cwd })), returned := none }
  | resumes {pid : Nat} {id : String} {s : Session} (hnone : st.objects pid = none) (hload : st.db.load loadsText id = .ok (some s)) :
      Does loadsText st (.resume pid id) { st with objects := Function.update st.objects pid (some s), returned := none }
  | appends {pid : Nat} {c : AppendCall} {s : Session} (hs : st.objects pid = some s) : Does loadsText st (.append pid c)
      { st with objects := Function.update st.objects pid (some (s.append c).2), returned := none }
  | drops {pid : Nat} (hwaiting : ∀ f ∈ st.waiting, f.pid ≠ pid) (hphase : ∀ f, st.phase.call? = some f → f.pid ≠ pid) :
      Does loadsText st (.drop pid) { st with objects := Function.update st.objects pid none, returned := none }
  | queues {pid : Nat} {whole : Bool} {s : Session} (hs : st.objects pid = some s) : Does loadsText st (.flush pid whole)
      { st with waiting := st.waiting ++ [{ pid, id := s.id, whole, atStart := s.events }], returned := none }
  | starts {n : Nat} {f : FlushCall} {s : Session} (hf : st.waiting[n]? = some f) (hs : st.objects f.pid = some s) :
      Does loadsText st (.start n) { st with waiting := st.waiting.eraseIdx n, phase := .writing f s, returned := none }
  | commits {f : FlushCall} {s : Session} {db : Database} (hphase : st.phase = .writing f s)
      (hwrite : st.db.write s (f.events st.persisted s) = some db) :
      Does loadsText st .commit { st with db, phase := .written f (f.written st.persisted s), returned := none }
  | fails : Does loadsText st .fail { st with phase := .idle, returned := none }
  | records {f : FlushCall} {seq : Nat} (hphase : st.phase = .written f seq) : Does loadsText st .record
      { st with persisted := Function.update st.persisted f.pid seq, phase := .idle, returned := some f }

theorem Backend.does_of_step {st st' : Backend} {a : BackendAction} (hstep : st.step loadsText a = some st') : st.Does loadsText a st' := by
  cases a with
  | create pid id createdAt cwd =>
    simp only [Backend.step] at hstep
    split at hstep
    · cases hstep
    · rename_i hnone
      obtain rfl := Option.some.inj hstep
      exact .creates hnone
  | resume pid id =>
    simp only [Backend.step] at hstep
    split at hstep
    · rename_i s hnone hload
      obtain rfl := Option.some.inj hstep
      exact .resumes hnone hload
    · cases hstep
  | append pid c =>
    obtain ⟨s, hs, rfl⟩ := Option.map_eq_some_iff.mp hstep
    exact .appends hs
  | drop pid =>
    simp only [Backend.step] at hstep
    split at hstep
    · cases hstep
    · rename_i hfree
      obtain rfl := Option.some.inj hstep
      simp only [Bool.or_eq_true, not_or, List.any_eq_true, not_exists, not_and, beq_iff_eq, Option.any_eq_true] at hfree
      exact .drops hfree.1 hfree.2
  | flush pid whole =>
    obtain ⟨s, hs, rfl⟩ := Option.map_eq_some_iff.mp hstep
    exact .queues hs
  | start n =>
    simp only [Backend.step] at hstep
    split at hstep
    · rename_i hf
      obtain ⟨s, hs, rfl⟩ := Option.map_eq_some_iff.mp hstep
      exact .starts hf hs
    · cases hstep
  | commit =>
    simp only [Backend.step] at hstep
    split at hstep
    · rename_i hphase
      obtain ⟨db, hwrite, rfl⟩ := Option.map_eq_some_iff.mp hstep
      exact .commits hphase hwrite
    · cases hstep
  | fail =>
    simp only [Backend.step] at hstep
    split at hstep
    · obtain rfl := Option.some.inj hstep
      exact .fails
    · cases hstep
  | record =>
    simp only [Backend.step] at hstep
    split at hstep
    · rename_i hphase
      obtain rfl := Option.some.inj hstep
      exact .records hphase
    · cases hstep

theorem Backend.db_step {st st' : Backend} {a : BackendAction} (hcommit : a ≠ .commit) (hstep : st.step loadsText a = some st') :
    st'.db = st.db := by
  cases does_of_step hstep with
  | commits _ _ => exact absurd rfl hcommit
  | creates | resumes | appends | drops | queues | starts | fails | records => rfl

/-- What a step can do to an object: leave it alone, append to it, make it, load it or drop it. -/
inductive Backend.Changes (loadsText : String → Option (List (PyKey × PyValue))) (st : Backend) (pid : Nat) :
    BackendAction → Option Session → Prop where
  | same {a : BackendAction} : Changes loadsText st pid a (st.objects pid)
  | append {s : Session} (c : AppendCall) : st.objects pid = some s →
    Changes loadsText st pid (.append pid c) (some (s.append c).2)
  | create (id : String) (createdAt : Rat) (cwd : Option String) : st.objects pid = none →
    Changes loadsText st pid (.create pid id createdAt cwd) (some (Session.new id { id, createdAt, cwd }))
  | resume {s : Session} (id : String) : st.objects pid = none → st.db.load loadsText id = .ok (some s) →
    Changes loadsText st pid (.resume pid id) (some s)
  | drop : Changes loadsText st pid (.drop pid) none

theorem Backend.objects_step {st st' : Backend} {a : BackendAction} (hstep : st.step loadsText a = some st') (pid : Nat) :
    st.Changes loadsText pid a (st'.objects pid) := by
  have hupdate : ∀ (p : Nat) (content : Option Session), (p = pid → st.Changes loadsText pid a content) →
      st.Changes loadsText pid a (Function.update st.objects p content pid) := by
    intro p content hself
    by_cases hp : p = pid
    · subst hp
      rw [Function.update_self]
      exact hself rfl
    · rw [Function.update_of_ne (Ne.symm hp)]
      exact .same
  cases does_of_step hstep with
  | creates hnone => exact hupdate _ _ (fun hp => by subst hp; exact .create _ _ _ hnone)
  | resumes hnone hload => exact hupdate _ _ (fun hp => by subst hp; exact .resume _ hnone hload)
  | appends hs => exact hupdate _ _ (fun hp => by subst hp; exact .append _ hs)
  | drops _ _ => exact hupdate _ _ (fun hp => by subst hp; exact .drop)
  | queues | starts | commits | fails | records => exact .same

/-! ## The invariant -/

/-- What the holder of the lock has seen and done, where `stored` says which events of an object are stored. -/
def Backend.PhaseOk (stored : Nat → String → SessionEvent → Prop) (st : Backend) : Prop :=
  match st.phase with
  | .idle => True
  | .writing f snapshot => snapshot.Filed ∧ snapshot.id = f.id ∧ (∀ e ∈ f.atStart, e ∈ snapshot.events) ∧
    st.persisted f.pid ≤ snapshot.seq ∧ ∃ s, st.objects f.pid = some s ∧ snapshot.Extends s
  | .written f seq => (∀ e ∈ f.atStart, stored f.pid f.id e) ∧
    ∃ s, st.objects f.pid = some s ∧ s.id = f.id ∧ seq ≤ s.seq ∧ ∀ e ∈ s.events, e.seq ≤ seq → stored f.pid s.id e

/-- A live object is filed, has no watermark above its seq, and what its watermark covers is stored; the calls under way hold on
to their objects. -/
structure Backend.Keeps (stored : Nat → String → SessionEvent → Prop) (st : Backend) : Prop where
  object : ∀ pid s, st.objects pid = some s → s.Filed ∧ st.persisted pid ≤ s.seq ∧
    ∀ e ∈ s.events, e.seq ≤ st.persisted pid → stored pid s.id e
  waiting : ∀ f ∈ st.waiting, ∃ s, st.objects f.pid = some s ∧ s.id = f.id ∧ ∀ e ∈ f.atStart, e ∈ s.events
  phase : st.PhaseOk stored
  returned : ∀ f, st.returned = some f → (∃ s, st.objects f.pid = some s ∧ s.id = f.id) ∧ ∀ e ∈ f.atStart, stored f.pid f.id e

namespace Backend.Keeps

variable {st : Backend} {stored stored' : Nat → String → SessionEvent → Prop}

theorem opened (stored : Nat → String → SessionEvent → Prop) (db : Database) : (Backend.opened db).Keeps stored := by
  refine ⟨?_, ?_, trivial, ?_⟩
  · intro pid s hs
    cases hs
  · intro f hf
    cases hf
  · intro f hf
    cases hf

theorem mono (h : st.Keeps stored) (hmore : ∀ pid s e, st.objects pid = some s → stored pid s.id e → stored' pid s.id e) :
    st.Keeps stored' := by
  refine ⟨?_, h.waiting, ?_, ?_⟩
  · intro pid s hs
    obtain ⟨hfiled, hle, hstored⟩ := h.object pid s hs
    exact ⟨hfiled, hle, fun e he hseq => hmore pid s e hs (hstored e he hseq)⟩
  · have hphase := h.phase
    unfold Backend.PhaseOk at hphase ⊢
    cases hp : st.phase with
    | idle => trivial
    | writing f snapshot =>
      rw [hp] at hphase
      exact hphase
    | written f seq =>
      rw [hp] at hphase
      obtain ⟨hstart, s, hs, hid, hle, hstored⟩ := hphase
      refine ⟨fun e he => ?_, s, hs, hid, hle, fun e he hseq => hmore _ s e hs (hstored e he hseq)⟩
      have hold := hstart e he
      rw [← hid] at hold ⊢
      exact hmore _ s e hs hold
  · intro f hf
    obtain ⟨⟨s, hs, hid⟩, hstored⟩ := h.returned f hf
    refine ⟨⟨s, hs, hid⟩, fun e he => ?_⟩
    have hold := hstored e he
    rw [← hid] at hold ⊢
    exact hmore _ s e hs hold

/-- One identity gets a new content: no object, a new one, or the old one grown. -/
theorem update (h : st.Keeps stored) (pid : Nat) (content : Option Session)
    (hcontent : ∀ s, content = some s → s.Filed ∧ st.persisted pid ≤ s.seq ∧
      ∀ e ∈ s.events, e.seq ≤ st.persisted pid → stored pid s.id e)
    (hcalls : ∀ s, st.objects pid = some s →
      (∃ s', content = some s' ∧ s.Extends s') ∨ ∀ f, f ∈ st.waiting ∨ st.phase.call? = some f → f.pid ≠ pid) :
    { st with objects := Function.update st.objects pid content, returned := none }.Keeps stored := by
  -- the object of a call under way stays, and only grows
  have hgrow : ∀ f s, f ∈ st.waiting ∨ st.phase.call? = some f → st.objects f.pid = some s →
      ∃ s', Function.update st.objects pid content f.pid = some s' ∧ s.Extends s' := by
    intro f s hf hs
    by_cases hpid : f.pid = pid
    · rw [hpid] at hs ⊢
      rcases hcalls s hs with ⟨s', hs', hext⟩ | hnone
      · exact ⟨s', by rw [Function.update_self, hs'], hext⟩
      · exact absurd hpid (hnone f hf)
    · exact ⟨s, by rw [Function.update_of_ne hpid, hs], .refl s⟩
  refine ⟨?_, ?_, ?_, ?_⟩
  · intro p s hs
    by_cases hp : p = pid
    · subst hp
      exact hcontent s (by simpa using hs)
    · exact h.object p s (by simpa [Function.update_of_ne hp] using hs)
  · intro f hf
    obtain ⟨s, hs, hid, hstart⟩ := h.waiting f hf
    obtain ⟨s', hs', hext⟩ := hgrow f s (Or.inl hf) hs
    exact ⟨s', hs', hext.id.trans hid, fun e he => hext.mem (hstart e he)⟩
  · have hphase := h.phase
    unfold Backend.PhaseOk at hphase ⊢
    cases hp : st.phase with
    | idle => trivial
    | writing f snapshot =>
      rw [hp] at hphase
      obtain ⟨hfiled, hid, hstart, hle, s, hs, hext⟩ := hphase
      obtain ⟨s', hs', hext'⟩ := hgrow f s (Or.inr (by rw [hp]; rfl)) hs
      exact ⟨hfiled, hid, hstart, hle, s', hs', hext.trans hext'⟩
    | written f seq =>
      rw [hp] at hphase
      obtain ⟨hstart, s, hs, hid, hle, hstored⟩ := hphase
      obtain ⟨s', hs', hext⟩ := hgrow f s (Or.inr (by rw [hp]; rfl)) hs
      refine ⟨hstart, s', hs', hext.id.trans hid, Nat.le_trans hle hext.seq, fun e he hseq => ?_⟩
      rw [hext.id]
      exact hstored e (hext.mem_of_le he (Nat.le_trans hseq hle)) hseq
  · intro f hf
    cases hf

/-- A transaction commits: what it wrote is stored, and what watermarks cover still is. -/
theorem commit (h : st.Keeps stored) {f : FlushCall} {snapshot : Session} (hp : st.phase = .writing f snapshot) (db : Database)
    (hwritten : ∀ e ∈ f.events st.persisted snapshot, stored' f.pid snapshot.id e)
    (hkept : ∀ pid s, st.objects pid = some s → ∀ e ∈ s.events, e.seq ≤ st.persisted pid → stored pid s.id e →
      stored' pid s.id e) :
    { st with db, phase := .written f (f.written st.persisted snapshot), returned := none }.Keeps stored' := by
  have hphase := h.phase
  unfold Backend.PhaseOk at hphase
  rw [hp] at hphase
  obtain ⟨hfiled, hid, hstart, hle, s, hs, hext⟩ := hphase
  have hall : ∀ e ∈ snapshot.events, stored' f.pid snapshot.id e := by
    intro e he
    rcases f.mem_events_or_le st.persisted he with hw | hbelow
    · exact hwritten e hw
    · have hold := hkept f.pid s hs e (hext.mem he) hbelow ((h.object f.pid s hs).2.2 e (hext.mem he) hbelow)
      rw [hext.id] at hold
      exact hold
  refine ⟨?_, h.waiting, ?_, ?_⟩
  · intro pid s' hs'
    obtain ⟨hfiled', hle', hstored'⟩ := h.object pid s' hs'
    exact ⟨hfiled', hle', fun e he hseq => hkept pid s' hs' e he hseq (hstored' e he hseq)⟩
  · have hwritten := f.written_le hfiled hle
    refine ⟨fun e he => hid ▸ hall e (hstart e he), s, hs, hext.id.trans hid, Nat.le_trans hwritten hext.seq,
      fun e he hseq => ?_⟩
    rw [hext.id]
    exact hall e (hext.mem_of_le he (Nat.le_trans hseq hwritten))
  · intro f' hf'
    cases hf'

/-- A step that is no commit, where a new object has no watermark above its seq and its events are stored. -/
theorem step (h : st.Keeps stored) {a : BackendAction} (hcommit : a ≠ .commit) {st' : Backend}
    (hstep : st.step loadsText a = some st')
    (hnew : ∀ pid s, st.objects pid = none → st'.objects pid = some s → st.persisted pid ≤ s.seq ∧
      ∀ e ∈ s.events, stored pid s.id e) : st'.Keeps stored := by
  cases Backend.does_of_step hstep with
  | @creates pid id createdAt cwd hnone =>
    refine h.update pid _ ?_ (fun s hs => by rw [hnone] at hs; cases hs)
    intro s hs
    cases hs
    have hlive : Session.Live loadsText (Session.new id { id, createdAt, cwd }) := .create id createdAt cwd
    obtain ⟨hle, hstored⟩ := hnew pid _ hnone (Function.update_self ..)
    exact ⟨hlive.filed, hle, fun e he _ => hstored e he⟩
  | @resumes pid id s hnone hload =>
    refine h.update pid _ ?_ (fun s hs => by rw [hnone] at hs; cases hs)
    intro s' hs'
    cases hs'
    obtain ⟨hle, hstored⟩ := hnew pid _ hnone (Function.update_self ..)
    exact ⟨Session.Live.filed (.resume st.db id s hload), hle, fun e he _ => hstored e he⟩
  | @appends pid c s hs =>
    obtain ⟨hfiled, hle, hstored⟩ := h.object pid s hs
    have hext := s.extends_append c
    refine h.update pid _ ?_ (fun s' hs' => ?_)
    · intro s' hs'
      cases hs'
      refine ⟨hfiled.append c, Nat.le_trans hle hext.seq, fun e he hseq => ?_⟩
      rw [hext.id]
      exact hstored e (hext.mem_of_le he (Nat.le_trans hseq hle)) hseq
    · rw [hs] at hs'
      cases hs'
      exact Or.inl ⟨_, rfl, hext⟩
  | drops hwaiting hphase =>
    refine h.update _ _ (fun s hs => by cases hs) (fun s hs => Or.inr ?_)
    rintro f (hf | hf)
    · exact hwaiting f hf
    · exact hphase f hf
  | @queues pid whole s hs =>
    refine ⟨h.object, ?_, h.phase, fun f hf => by cases hf⟩
    intro f hf
    rcases List.mem_append.mp hf with hf | hf
    · exact h.waiting f hf
    · rw [List.mem_singleton.mp hf]
      exact ⟨s, hs, rfl, fun e he => he⟩
  | @starts n f s hf hs =>
    have hmem : f ∈ st.waiting := List.mem_of_getElem? hf
    obtain ⟨s', hs', hid, hstart⟩ := h.waiting f hmem
    rw [hs] at hs'
    cases hs'
    obtain ⟨hfiled, hle, -⟩ := h.object f.pid s hs
    exact ⟨h.object, fun f' hf' => h.waiting f' (List.mem_of_mem_eraseIdx hf'),
      ⟨hfiled, hid, hstart, hle, s, hs, .refl s⟩, fun f' hf' => by cases hf'⟩
  | commits _ _ => exact absurd rfl hcommit
  | fails => exact ⟨h.object, h.waiting, trivial, fun f hf => by cases hf⟩
  | @records f seq hp =>
    have hphase := h.phase
    unfold Backend.PhaseOk at hphase
    rw [hp] at hphase
    obtain ⟨hstart, s, hs, hid, hle, hstored⟩ := hphase
    refine ⟨?_, h.waiting, trivial, fun f' hf' => by cases hf'; exact ⟨⟨s, hs, hid⟩, hstart⟩⟩
    intro pid s' hs'
    obtain ⟨hfiled, hle', hstored'⟩ := h.object pid s' hs'
    by_cases hpid : pid = f.pid
    · subst hpid
      rw [hs] at hs'
      cases hs'
      simp only [Function.update_self]
      exact ⟨hfiled, hle, hstored⟩
    · simp only [Function.update_of_ne hpid]
      exact ⟨hfiled, hle', hstored'⟩

end Backend.Keeps

/-- What is stored is stored of every object. -/
def Backend.Inv (loadsText : String → Option (List (PyKey × PyValue))) (st : Backend) : Prop :=
  st.Keeps (fun _ id e => st.db.Stores loadsText id e)

namespace Backend.Inv

variable {st : Backend}

theorem opened (db : Database) : (Backend.opened db).Inv loadsText := Keeps.opened _ db

theorem safe (h : st.Inv loadsText) : st.Safe loadsText :=
  ⟨fun pid s hs => (Keeps.object h pid s hs).2.2, fun f hf => (Keeps.returned h f hf).2⟩

/-- A transaction that commits replaces no event that a watermark covers. -/
theorem commit (h : st.Inv loadsText) (hok : st.Undisturbed loadsText .commit) {st' : Backend}
    (hstep : st.step loadsText .commit = some st') : st'.Inv loadsText := by
  cases does_of_step hstep with
  | @commits f snapshot db hp hwrite =>
    have hphase := Keeps.phase h
    unfold Backend.PhaseOk at hphase
    rw [hp] at hphase
    obtain ⟨hfiled, -, -, -, s, hs, hext⟩ := hphase
    have hsub := f.events_sublist st.persisted snapshot
    have hnodup := hfiled.seqs_nodup hsub
    refine Keeps.commit h hp db (fun e he => stores_written hwrite hnodup he) (fun pid s' hs' e he hseq hstored => ?_)
    refine stores_kept hwrite hnodup hstored (fun hid e' he' hseq' => ?_)
    by_cases hpid : pid = f.pid
    · -- the session's own log has one event for a seq
      subst hpid
      rw [hs] at hs'
      cases hs'
      exact (Keeps.object h f.pid s hs).1.event_unique (hext.mem (hsub.subset he')) he hseq'
    · exact hok f snapshot hp pid s' hpid hs' hid e he hseq e' he' hseq'

theorem step (h : st.Inv loadsText) {a : BackendAction} (hok : st.Undisturbed loadsText a) {st' : Backend}
    (hstep : st.step loadsText a = some st') : st'.Inv loadsText := by
  by_cases hcommit : a = .commit
  · subst hcommit
    exact h.commit hok hstep
  · have hdb : st'.db = st.db := db_step hcommit hstep
    unfold Backend.Inv
    rw [hdb]
    refine Keeps.step h hcommit hstep (fun pid s hnone hs => ?_)
    have hchanges := objects_step hstep pid
    generalize st'.objects pid = content at hchanges hs
    cases hchanges with
    | same => cases hnone.symm.trans hs
    | append c hold => cases hnone.symm.trans hold
    | drop => cases hs
    | create id createdAt cwd =>
      cases hs
      exact ⟨by simp [show st.persisted pid = 0 from hok], by simp [Session.new]⟩
    | resume id _ hload =>
      cases hs
      obtain ⟨hev, -, hid, -⟩ := load_eq_some hload
      refine ⟨hok s hload, fun e he => ?_⟩
      rw [hev] at he
      obtain ⟨r, hr, hdecode⟩ := mem_readEvents.mp he
      obtain ⟨hr, hrid⟩ := mem_rowsOf.mp hr
      exact ⟨r, hr, hrid.trans hid.symm, congrArg SessionEvent.seq hdecode, Or.inr hdecode⟩

end Backend.Inv

/-- In every run in which no new object has a watermark above its seq and no write replaces what another live object's watermark
covers, every state reached is safe: no event at or below a watermark is missing from the database, and after every flush that
returned each event its session had when it was called is stored. -/
theorem watermark_safe (db : Database) {st : Backend}
    (h : Machine.Reach (Backend.step loadsText) (Backend.Undisturbed loadsText) (Backend.opened db) st) :
    st.Safe loadsText :=
  (h.invariant (Backend.Inv.opened db) (fun _ _ _ hinv hok hstep => hinv.step hok hstep)).safe

namespace ReusedIdentity

open ReplayChain SameId

/-- A session is created as object 1, gets two messages, and is flushed. -/
def one : List BackendAction :=
  [.create 1 "chat-1" 0 none, .append 1 (say "m1" "one"), .append 1 (say "m2" "two"), .flush 1 false, .start 0, .commit, .record]

/-- It is dropped, and the next session object has its identity; it gets a message and is flushed. -/
def two : List BackendAction :=
  one ++ [.drop 1, .create 1 "chat-2" 0 none, .append 1 (say "m3" "three"), .flush 1 false, .start 0, .commit, .record]

/-- Where the backend stands after some actions on a new database. -/
def after (as : List BackendAction) : Backend :=
  (Machine.exec (Backend.step noText) (Backend.opened .empty) as).getD (Backend.opened .empty)

end ReusedIdentity

open ReusedIdentity ReplayChain SameId in
theorem watermark_safe_one : (after one).persisted 1 = 2 ∧ (after one).Safe noText := by
  refine ⟨rfl, watermark_safe .empty ?_⟩
  have hstarted : Machine.Reach (Backend.step noText) (Backend.Undisturbed noText) (Backend.opened .empty)
      (after (one.take 5)) :=
    .next (.start 0) (.next (.flush 1 false) (.next (.append 1 (say "m2" "two")) (.next (.append 1 (say "m1" "one"))
      (.next (.create 1 "chat-1" 0 none) .start rfl rfl) trivial rfl) trivial rfl) trivial rfl) trivial rfl
  refine .next .record (.next .commit hstarted ?_ rfl) trivial rfl
  -- the object that is written is the only one
  intro f snapshot hp pid s hpid hs
  cases hp
  have hobjects : (after (one.take 5)).objects pid = none := by
    have hupdate : ∃ a b c, (after (one.take 5)).objects =
        Function.update (Function.update (Function.update (fun _ => none) 1 a) 1 b) 1 c := ⟨_, _, _, rfl⟩
    obtain ⟨a, b, c, hupdate⟩ := hupdate
    rw [hupdate, Function.update_of_ne hpid, Function.update_of_ne hpid, Function.update_of_ne hpid]
  rw [hobjects] at hs
  cases hs

open ReusedIdentity SameId in
/-- The second session inherits the watermark 2 of the first: its flush returns, and its event 1 is not in the database. -/
theorem reused_identity_loses_events :
    Machine.Reach (Backend.step noText) Machine.anyStep (Backend.opened .empty) (after two) ∧ (after two).persisted 1 = 2 ∧
    ((after two).objects 1).map (fun s => (s.id, s.events.map (·.seq))) = some ("chat-2", [1]) ∧
    (after two).returned.map (fun f => (f.id, f.atStart.map (·.seq))) = some ("chat-2", [1]) ∧
    ((after two).db.rowsOf "chat-2").length = 0 ∧ ¬(after two).Safe noText := by
  have hreturned : (after two).returned.map (fun f => (f.id, f.atStart.map (·.seq))) = some ("chat-2", [1]) := by decide +kernel
  have hrows : ((after two).db.rowsOf "chat-2").length = 0 := by decide +kernel
  have hruns : (Machine.exec (Backend.step noText) (Backend.opened .empty) two).isSome = true := by decide +kernel
  obtain ⟨st, hst⟩ := Option.isSome_iff_exists.mp hruns
  have hafter : after two = st := by rw [after, hst, Option.getD_some]
  refine ⟨hafter ▸ .exec .start hst, by decide +kernel, by decide +kernel, hreturned, hrows, ?_⟩
  intro hsafe
  obtain ⟨f, hf, hcall⟩ := Option.map_eq_some_iff.mp hreturned
  obtain ⟨hid, hseqs⟩ := Prod.mk.inj hcall
  obtain ⟨e, _, he, -, -⟩ := List.map_eq_cons_iff.mp hseqs
  obtain ⟨r, hr, hrid, -⟩ := hsafe.flushed f hf e (by rw [he]; exact List.mem_cons_self)
  have hmem : r ∈ (after two).db.rowsOf "chat-2" := mem_rowsOf.mpr ⟨hr, hrid.trans hid⟩
  rw [List.length_eq_zero_iff.mp hrows] at hmem
  cases hmem

end Pydsh
