import Pydsh.Lib.Machine
import Pydsh.Projection.Cache
import Pydsh.Session.Store
import Pydsh.Sidecar.Feedback

/-!
# The lifetimes of a session id

One `create` call is one lifetime: a session that is removed and made again under its id is another one. The projection cache and
the feedback are kept by session id and outlive both, so each record names its lifetime by fields of the header, and is returned
only where they match. `created_at` is what tells two lifetimes apart, and `create` sets it to 0.0 unless its `meta` has one: two
lifetimes made without it share their identity (`shared_identity`). The fence holds exactly as long as every session that is made
under an id has a time of its own (`lifetime_fence`).
-/

namespace Pydsh

variable {S : Type}

/-- A cold read in progress: the id, the record it took, and the stored header once it has read, with its lifetime. -/
structure ColdReading (S : Type) where
  id : String
  record : Option (CacheRecord S)
  read : Option (SessionHeader × Nat) := none

/-- The store, and what outlives its sessions: the stored header of each id, the cache and the feedback. A lifetime is its place
among the `create` calls that returned: `created` are their headers and `lifetimes` the lifetime of each object. `records` and
`entries` are what was ever written, with the lifetime it was written for. -/
structure LifetimeState (S : Type) where
  store : SessionStore := {}
  lifetimes : List Nat := []
  created : List SessionHeader := []
  stored : Dict String (SessionHeader × Nat) := .empty
  cache : Dict String (CacheRecord S) := .empty
  feedback : FeedbackTable := .empty
  reading : List (ColdReading S) := []
  records : List (Nat × CacheRecord S) := []
  entries : List (Nat × FeedbackEntry) := []

/-- What happens: the calls of the store; a flush of an object; a `write` of the cache for an object, which need not be live any
more; the awaits of a cold read, with one more read where the rows were not used; and the calls of the feedback. -/
inductive LifetimeAction (S : Type) where
  | create (id cwd : Option String) (createdAt : Option Rat)
  | resume (id : String) (loaded : Session)
  | remove (id : String)
  | flush (object : Nat)
  | write (object : Nat) (rows : List (String × Row S))
  | coldRead (id : String)
  | tail (n : Nat)
  | whole (n : Nat)
  | writeBack (n : Nat) (rows : List (String × Row S))
  | putFeedback (object : Nat) (messageId : String) (rating note : PyValue) (version : Option String) (token : String)
  | deleteFeedback (object : Nat) (messageId : String) (version : Option String)

namespace LifetimeState

/-- An object and its lifetime. -/
def object? (st : LifetimeState S) (object : Nat) : Option (Session × Nat) :=
  match st.store.objects[object]?, st.lifetimes[object]? with
  | some s, some n => some (s, n)
  | _, _ => none

/-- The header of the next session that is made. -/
def nextHeader (st : LifetimeState S) (id cwd : Option String) (createdAt : Option Rat) : SessionHeader :=
  { id := st.store.sessionId id, createdAt := createdAt.getD 0, cwd }

/-- A record under an id, for a lifetime. -/
def putRecord (st : LifetimeState S) (id : String) (n : Nat) (record : CacheRecord S) : LifetimeState S :=
  { st with
    cache := st.cache.set id record
    records := (n, record) :: st.records }

/-- What an action does; `none` where it cannot happen. -/
def step (st : LifetimeState S) : LifetimeAction S → Option (LifetimeState S)
  | .create id cwd createdAt =>
    match st.store.create id cwd createdAt with
    | .error _ => some st
    | .ok (_, store) => some { st with
        store
        lifetimes := st.lifetimes ++ [st.created.length]
        created := st.created ++ [st.nextHeader id cwd createdAt] }
  | .resume id loaded =>
    match st.stored.get? id with
    | none => none
    | some (header, n) =>
      match st.store.resumed id (.ok (some { loaded with id, header })) with
      | .error _ => none
      | .ok (_, store) => some { st with store, lifetimes := st.lifetimes ++ [n] }
  | .remove id => some { st with store := st.store.remove id }
  | .flush object => (st.object? object).map (fun (s, n) => { st with stored := st.stored.set s.id (s.header, n) })
  | .write object rows => (st.object? object).map (fun (s, n) => st.putRecord s.id n ⟨identityOf s.header, rows⟩)
  | .coldRead id => some { st with reading := st.reading ++ [{ id, record := st.cache.get? id }] }
  | .tail n =>
    match st.reading[n]? with
    | some { id, record, read := none } =>
      some { st with reading := st.reading.set n { id, record, read := st.stored.get? id } }
    | _ => none
  | .whole n =>
    match st.reading[n]? with
    | some { id, read := some _, .. } =>
      some { st with reading := st.reading.set n { id, record := none, read := st.stored.get? id } }
    | _ => none
  | .writeBack n rows =>
    match st.reading[n]? with
    | some { id, read := some (header, m), .. } =>
      some ({ st with reading := st.reading.eraseIdx n }.putRecord id m ⟨identityOf header, rows⟩)
    | _ => none
  | .putFeedback object messageId rating note version token =>
    (st.object? object).map (fun (s, n) =>
      match st.feedback.put s messageId rating note version token with
      | .error _ => st
      | .ok (entry, feedback) => { st with
          feedback
          -- a call that finds its entry there writes nothing
          entries := if st.feedback.get s messageId = some entry then st.entries else (n, entry) :: st.entries })
  | .deleteFeedback object messageId version =>
    (st.object? object).map (fun (s, _) =>
      match st.feedback.delete s messageId version with
      | .error _ => st
      | .ok feedback => { st with feedback })

/-! ## The law -/

/-- What is returned for a lifetime was written for it: the record that a header of the lifetime gives, the record a cold read uses
for the stored session, and the feedback on its messages. -/
structure Fenced (st : LifetimeState S) : Prop where
  cached : ∀ n header record, st.created[n]? = some header → recordFor st.cache header = some record → (n, record) ∈ st.records
  cold : ∀ r ∈ st.reading, ∀ header n record, r.read = some (header, n) → r.record = some record →
    isRelated (some record) header = true → (n, record) ∈ st.records
  feedback : ∀ object s n messageId entry, st.object? object = some (s, n) → st.feedback.get s messageId = some entry →
    (n, entry) ∈ st.entries

/-- A session that is made has a creation time that no session made before it under its id has. -/
def Dated (st : LifetimeState S) (a : LifetimeAction S) : Prop :=
  match a with
  | .create id _ createdAt => st.store.get (st.store.sessionId id) = none →
      ∀ header ∈ st.created, header.id = st.store.sessionId id → header.createdAt ≠ createdAt.getD 0
  | _ => True

/-! ## What every dated run keeps -/

/-- A header is that of a lifetime, under an id. -/
def Names (st : LifetimeState S) (id : String) (header : SessionHeader) (n : Nat) : Prop :=
  st.created[n]? = some header ∧ header.id = id

/-- A record under an id is of some lifetime of the id, and was written for it. -/
def Recorded (st : LifetimeState S) (id : String) (record : CacheRecord S) : Prop :=
  ∃ header n, st.Names id header n ∧ record.identity = identityOf header ∧ (n, record) ∈ st.records

/-- A row of feedback under an id is of some lifetime of the id, and its entries were written for it. -/
def Rated (st : LifetimeState S) (id : String) (row : FeedbackRow) : Prop :=
  ∃ header n, st.Names id header n ∧ row.identity = lifetimeIdentity header ∧
    ∀ messageId entry, row.entries.get? messageId = some entry → (n, entry) ∈ st.entries

/-- The objects and their lifetimes. -/
structure Lives (st : LifetimeState S) : Prop where
  length : st.lifetimes.length = st.store.objects.length
  objects : ∀ object s n, st.object? object = some (s, n) → st.Names s.id s.header n
  made : ∀ n header, st.created[n]? = some header → ∃ object s, st.object? object = some (s, n) ∧ s.header = header
  version : ∀ header ∈ st.created, header.version = sessionFormatVersion

/-- No two lifetimes of an id have one creation time. -/
def Distinct (st : LifetimeState S) : Prop :=
  ∀ (m n : Nat) (header header' : SessionHeader), st.created[m]? = some header → st.created[n]? = some header' →
    header.id = header'.id → header.createdAt = header'.createdAt → m = n

/-- What outlives the sessions. -/
structure Kept (st : LifetimeState S) : Prop where
  stored : ∀ id header n, st.stored.get? id = some (header, n) → st.Names id header n
  cache : ∀ id record, st.cache.get? id = some record → st.Recorded id record
  taken : ∀ r ∈ st.reading, ∀ record, r.record = some record → st.Recorded r.id record
  read : ∀ r ∈ st.reading, ∀ header n, r.read = some (header, n) → st.Names r.id header n
  feedback : ∀ id row, st.feedback.get? id = some row → st.Rated id row
  early : ∀ kept ∈ st.records, kept.1 < st.created.length

/-- The invariant. -/
structure Inv (st : LifetimeState S) : Prop where
  lives : st.Lives
  kept : st.Kept
  distinct : st.Distinct

variable {st st' : LifetimeState S}

/-- The first lifetime whose header has an identity is the only one. -/
theorem Distinct.eq (h : st.Distinct) {id id' : String} {header header' : SessionHeader} {m n : Nat}
    (hm : st.Names id header m) (hn : st.Names id' header' n) (hid : header.id = header'.id)
    (hcreated : header.createdAt = header'.createdAt) : m = n :=
  h m n header header' hm.1 hn.1 hid hcreated

theorem Distinct.of_identity (h : st.Distinct) {id id' : String} {header header' : SessionHeader} {m n : Nat}
    (hm : st.Names id header m) (hn : st.Names id' header' n) (hid : identityOf header = identityOf header') : m = n := by
  simp only [identityOf, Identity.mk.injEq] at hid
  exact h.eq hm hn hid.1 hid.2.1

theorem Distinct.of_lifetimeIdentity (h : st.Distinct) {id id' : String} {header header' : SessionHeader} {m n : Nat}
    (hm : st.Names id header m) (hn : st.Names id' header' n) (hid : lifetimeIdentity header = lifetimeIdentity header') :
    m = n := by
  simp only [lifetimeIdentity, FeedbackIdentity.mk.injEq] at hid
  exact h.eq hm hn hid.1 hid.2.1

theorem Inv.fenced (h : st.Inv) : st.Fenced := by
  constructor
  · intro n header record hn hrecord
    obtain ⟨hget, hid⟩ := recordFor_eq_some.mp hrecord
    obtain ⟨header', m, hm, hid', hwritten⟩ := h.kept.cache _ _ hget
    obtain rfl := h.distinct.of_identity hm ⟨hn, rfl⟩ (hid'.symm.trans hid)
    exact hwritten
  · intro r hr header n record hread hrecord hrelated
    obtain ⟨header', m, hm, hid', hwritten⟩ := h.kept.taken r hr record hrecord
    have hid : record.identity = identityOf header := by simpa [isRelated] using hrelated
    obtain rfl := h.distinct.of_identity hm (h.kept.read r hr header n hread) (hid'.symm.trans hid)
    exact hwritten
  · intro object s n messageId entry hobject hentry
    obtain ⟨hid, hrow⟩ := st.feedback.row_cases s
    unfold FeedbackTable.get at hentry
    rcases hrow with hempty | hrow
    · rw [hempty] at hentry
      cases hentry
    · obtain ⟨header', m, hm, hid', hentries⟩ := h.kept.feedback _ _ hrow
      obtain rfl := h.distinct.of_lifetimeIdentity hm (h.lives.objects _ _ _ hobject) (hid'.symm.trans hid)
      exact hentries messageId entry hentry

/-! ## The steps -/

theorem Names.lt {id : String} {header : SessionHeader} {n : Nat} (h : st.Names id header n) : n < st.created.length :=
  (List.getElem?_eq_some_iff.mp h.1).1

theorem Kept.grow (h : st.Kept) (store : SessionStore) (lifetimes : List Nat) {created : List SessionHeader}
    (hmore : st.created <+: created) : Kept { st with store, lifetimes, created } := by
  have hnames : ∀ {id header n}, st.Names id header n → Names { st with store, lifetimes, created } id header n := by
    rintro id header n hn
    obtain ⟨more, rfl⟩ := hmore
    exact ⟨(List.getElem?_append_left hn.lt).trans hn.1, hn.2⟩
  have hrecorded : ∀ {id record}, st.Recorded id record → Recorded { st with store, lifetimes, created } id record :=
    fun ⟨header, n, hn, hrest⟩ => ⟨header, n, hnames hn, hrest⟩
  constructor
  · exact fun id header n hstored => hnames (h.stored id header n hstored)
  · exact fun id record hcache => hrecorded (h.cache id record hcache)
  · exact fun r hr record hrecord => hrecorded (h.taken r hr record hrecord)
  · exact fun r hr header n hread => hnames (h.read r hr header n hread)
  · intro id row hrow
    obtain ⟨header, n, hn, hrest⟩ := h.feedback id row hrow
    exact ⟨header, n, hnames hn, hrest⟩
  · exact fun kept hkept => Nat.lt_of_lt_of_le (h.early kept hkept) hmore.length_le

theorem Kept.putRecord (h : st.Kept) {id : String} {header : SessionHeader} {n : Nat} (hn : st.Names id header n)
    (rows : List (String × Row S)) : (st.putRecord id n ⟨identityOf header, rows⟩).Kept := by
  have hrecorded : ∀ {id' record}, st.Recorded id' record → (st.putRecord id n ⟨identityOf header, rows⟩).Recorded id' record :=
    fun ⟨header', m, hm, hid, hwritten⟩ => ⟨header', m, hm, hid, List.mem_cons_of_mem _ hwritten⟩
  constructor
  · exact h.stored
  · intro id' record hcache
    by_cases hid : id' = id
    · subst hid
      have hrecord : ⟨identityOf header, rows⟩ = record := by
        simpa [LifetimeState.putRecord] using hcache
      subst hrecord
      exact ⟨header, n, hn, rfl, List.mem_cons_self⟩
    · exact hrecorded (h.cache id' record (by simpa [LifetimeState.putRecord, Dict.get?_set_of_ne _ _ hid] using hcache))
  · exact fun r hr record hrecord => hrecorded (h.taken r hr record hrecord)
  · exact h.read
  · exact h.feedback
  · intro kept hkept
    rcases List.mem_cons.mp hkept with rfl | hkept
    · exact hn.lt
    · exact h.early kept hkept

theorem Kept.reads (h : st.Kept) {reading : List (ColdReading S)}
    (hreading : ∀ r ∈ reading, r ∈ st.reading ∨ (∀ record, r.record = some record → st.Recorded r.id record) ∧
      ∀ header n, r.read = some (header, n) → st.Names r.id header n) : Kept { st with reading } := by
  refine ⟨h.stored, h.cache, fun r hr record hrecord => ?_, fun r hr header n hread => ?_, h.feedback, h.early⟩
  · rcases hreading r hr with hold | ⟨hnew, -⟩
    · exact h.taken r hold record hrecord
    · exact hnew record hrecord
  · rcases hreading r hr with hold | ⟨-, hnew⟩
    · exact h.read r hold header n hread
    · exact hnew header n hread

theorem Kept.rate (h : st.Kept) {id : String} {row : FeedbackRow} {entries : List (Nat × FeedbackEntry)}
    (hentries : st.entries ⊆ entries) (hrow : Rated { st with entries } id row) :
    Kept { st with feedback := st.feedback.set id row, entries } := by
  refine ⟨h.stored, h.cache, h.taken, h.read, fun id' row' hrow' => ?_, h.early⟩
  by_cases hid : id' = id
  · subst hid
    obtain rfl : row = row' := by simpa using hrow'
    exact hrow
  · obtain ⟨header, n, hn, hid', hold⟩ := h.feedback id' row' (by simpa [Dict.get?_set_of_ne _ _ hid] using hrow')
    exact ⟨header, n, hn, hid', fun messageId entry hentry => hentries (hold messageId entry hentry)⟩

theorem Inv.rated (h : st.Inv) {object : Nat} {s : Session} {n : Nat} (hobject : st.object? object = some (s, n)) :
    (st.feedback.row s).identity = lifetimeIdentity s.header ∧
      ∀ messageId entry, (st.feedback.row s).entries.get? messageId = some entry → (n, entry) ∈ st.entries :=
  ⟨(st.feedback.row_cases s).1, fun messageId entry hentry => h.fenced.feedback object s n messageId entry hobject hentry⟩

theorem getElem?_snoc {α : Type} {xs : List α} {x y : α} {n : Nat} (h : (xs ++ [x])[n]? = some y) :
    xs[n]? = some y ∨ n = xs.length ∧ y = x := by
  rw [List.getElem?_append] at h
  split at h
  · exact Or.inl h
  · obtain ⟨hn, rfl⟩ : n - xs.length = 0 ∧ x = y := by simpa [List.getElem?_singleton] using h
    exact Or.inr ⟨by omega, rfl⟩

theorem object?_adds (st : LifetimeState S) (hlength : st.lifetimes.length = st.store.objects.length) {store : SessionStore}
    {id : String} {object : Nat} {s : Session} (hadds : st.store.Adds store id object s) (n : Nat)
    (created : List SessionHeader) (i : Nat) :
    object? { st with store, lifetimes := st.lifetimes ++ [n], created } i =
      if i = st.store.objects.length then some (s, n) else st.object? i := by
  unfold object?
  rw [hadds.objects]
  rcases Nat.lt_trichotomy i st.store.objects.length with hlt | rfl | hgt
  · rw [List.getElem?_append_left hlt, List.getElem?_append_left (by omega), if_neg (by omega)]
  · rw [if_pos rfl]
    simp [← hlength]
  · rw [if_neg (by omega), List.getElem?_eq_none (by simp only [List.length_append, List.length_singleton]; omega),
      List.getElem?_eq_none (Nat.le_of_lt hgt)]

theorem Lives.adds (h : st.Lives) {store : SessionStore} {id : String} {object : Nat} {s : Session}
    (hadds : st.store.Adds store id object s) {n : Nat} {created : List SessionHeader} (hmore : st.created <+: created)
    (hs : created[n]? = some s.header ∧ s.header.id = s.id)
    (hmade : ∀ m header, created[m]? = some header → st.created[m]? = some header ∨ m = n ∧ header = s.header)
    (hversion : s.header.version = sessionFormatVersion) :
    Lives { st with store, lifetimes := st.lifetimes ++ [n], created } := by
  have hobject := st.object?_adds h.length hadds n created
  constructor
  · simp [hadds.objects, h.length]
  · intro i s' m hi
    rw [hobject] at hi
    split at hi
    · cases hi
      exact hs
    · obtain ⟨hm, hid⟩ := h.objects i s' m hi
      obtain ⟨more, rfl⟩ := hmore
      exact ⟨(List.getElem?_append_left (List.getElem?_eq_some_iff.mp hm).1).trans hm, hid⟩
  · intro m header hm
    rcases hmade m header hm with hold | ⟨rfl, rfl⟩
    · obtain ⟨i, s', hi, hheader⟩ := h.made m header hold
      refine ⟨i, s', ?_, hheader⟩
      rw [hobject, if_neg ?_, hi]
      rintro rfl
      simp [object?] at hi
    · exact ⟨st.store.objects.length, s, by rw [hobject, if_pos rfl], rfl⟩
  · intro header hheader
    obtain ⟨m, hm⟩ := List.mem_iff_getElem?.mp hheader
    rcases hmade m header hm with hold | ⟨-, rfl⟩
    · exact h.version header (List.mem_of_getElem? hold)
    · exact hversion

/-- What a `create` does: nothing where it raises, else one more lifetime with its object. -/
theorem step_create {id cwd : Option String} {createdAt : Option Rat} (hstep : st.step (.create id cwd createdAt) = some st') :
    (st.store.get (st.store.sessionId id) ≠ none ∧ st' = st) ∨
    (st.store.get (st.store.sessionId id) = none ∧ ∃ object store,
      st.store.Adds store (st.store.sessionId id) object (Session.new (st.store.sessionId id) (st.nextHeader id cwd createdAt)) ∧
      st' = { st with
        store
        lifetimes := st.lifetimes ++ [st.created.length]
        created := st.created ++ [st.nextHeader id cwd createdAt] }) := by
  simp only [step] at hstep
  rcases st.store.create_eq id cwd createdAt with ⟨object, hlive, hcreate⟩ | ⟨hfree, object, store, hcreate, hadds⟩
  · rw [hcreate] at hstep
    obtain rfl := Option.some.inj hstep
    exact Or.inl ⟨by simp [hlive], rfl⟩
  · rw [hcreate] at hstep
    obtain rfl := Option.some.inj hstep
    exact Or.inr ⟨hfree, object, store, hadds, rfl⟩

theorem Lives.create (h : st.Lives) {id cwd : Option String} {createdAt : Option Rat}
    (hstep : st.step (.create id cwd createdAt) = some st') : st'.Lives := by
  rcases step_create hstep with ⟨-, rfl⟩ | ⟨-, object, store, hadds, rfl⟩
  · exact h
  · refine h.adds hadds (List.prefix_append _ _) ⟨by simp [Session.new], rfl⟩ (fun m header hm => ?_) rfl
    exact getElem?_snoc hm

theorem Inv.create (h : st.Inv) {id cwd : Option String} {createdAt : Option Rat}
    (hdated : st.Dated (.create id cwd createdAt)) (hstep : st.step (.create id cwd createdAt) = some st') : st'.Inv := by
  have hlives := h.lives.create hstep
  rcases step_create hstep with ⟨-, rfl⟩ | ⟨hfree, object, store, hadds, rfl⟩
  · exact h
  · refine ⟨hlives, h.kept.grow store _ (List.prefix_append _ _), ?_⟩
    have hnew := hdated hfree
    intro m n header header' hm hn hid hcreated
    rcases getElem?_snoc hm with hm | ⟨rfl, rfl⟩ <;> rcases getElem?_snoc hn with hn | ⟨rfl, rfl⟩
    · exact h.distinct m n header header' hm hn hid hcreated
    · exact absurd hcreated (hnew header (List.mem_of_getElem? hm) hid)
    · exact absurd hcreated.symm (hnew header' (List.mem_of_getElem? hn) hid.symm)
    · rfl

theorem Inv.resume (h : st.Inv) {id : String} {loaded : Session} (hstep : st.step (.resume id loaded) = some st') : st'.Inv := by
  simp only [step] at hstep
  split at hstep
  · cases hstep
  · rename_i header n hstored
    obtain ⟨hheader, hid⟩ := h.kept.stored id header n hstored
    rcases st.store.resumed_eq id (.ok (some { loaded with id, header })) with
      ⟨e, hnot, -⟩ | ⟨s, object, store, hs, hresumed, hadds⟩
    · exact absurd rfl (hnot _)
    · cases hs
      rw [hresumed] at hstep
      obtain rfl := Option.some.inj hstep
      exact ⟨h.lives.adds hadds List.prefix_rfl ⟨hheader, hid⟩ (fun m header' hm => Or.inl hm)
          (h.lives.version header (List.mem_of_getElem? hheader)),
        h.kept.grow store _ List.prefix_rfl, h.distinct⟩

theorem Inv.keep (h : st.Inv) (hkept : st'.Kept) (hstore : st'.store = st.store) (hlifetimes : st'.lifetimes = st.lifetimes)
    (hcreated : st'.created = st.created) : st'.Inv := by
  have hobject : ∀ object, st'.object? object = st.object? object := by
    intro object
    simp only [object?, hstore, hlifetimes]
  refine ⟨⟨?_, ?_, ?_, ?_⟩, hkept, ?_⟩
  · rw [hlifetimes, hstore]
    exact h.lives.length
  · intro object s n hs
    rw [hobject] at hs
    simp only [Names, hcreated]
    exact h.lives.objects object s n hs
  · intro n header hn
    simp only [hobject]
    exact h.lives.made n header (hcreated ▸ hn)
  · rw [hcreated]
    exact h.lives.version
  · intro m n header header' hm hn
    exact h.distinct m n header header' (hcreated ▸ hm) (hcreated ▸ hn)

theorem Inv.setReading (h : st.Inv) {n : Nat} {id : String} {record : Option (CacheRecord S)}
    (hrecord : ∀ kept, record = some kept → st.Recorded id kept) :
    Inv { st with reading := st.reading.set n { id, record, read := st.stored.get? id } } := by
  refine h.keep (h.kept.reads (fun r hr => ?_)) rfl rfl rfl
  rcases List.mem_or_eq_of_mem_set hr with hold | rfl
  · exact Or.inl hold
  · exact Or.inr ⟨hrecord, h.kept.stored id⟩

theorem Inv.putFeedback (h : st.Inv) {object : Nat} {messageId token : String} {rating note : PyValue} {version : Option String}
    (hstep : st.step (.putFeedback object messageId rating note version token) = some st') : st'.Inv := by
  obtain ⟨⟨s, n⟩, hobject, rfl⟩ := Option.map_eq_some_iff.mp hstep
  cases hput : st.feedback.put s messageId rating note version token with
  | error e => simpa [hput] using h
  | ok result =>
    obtain ⟨entry, feedback⟩ := result
    obtain ⟨hid, hentries⟩ := h.rated hobject
    rcases FeedbackTable.put_ok hput with ⟨rfl, hsame⟩ | ⟨rfl, hentry⟩
    · simp only [hput, hsame, if_true]
      exact h
    · simp only [hput]
      refine h.keep (h.kept.rate ?_ ⟨s.header, n, h.lives.objects _ _ _ hobject, hid, fun messageId' entry' hget => ?_⟩)
        rfl rfl rfl
      · intro kept hkept
        split
        · exact hkept
        · exact List.mem_cons_of_mem _ hkept
      · have hold : ∀ kept, kept ∈ st.entries → kept ∈
            (if st.feedback.get s messageId = some entry then st.entries else (n, entry) :: st.entries) := by
          intro kept hkept
          split
          · exact hkept
          · exact List.mem_cons_of_mem _ hkept
        rw [Dict.get?_set] at hget
        split at hget
        · cases hget
          split
          · rename_i hsame
            exact hentries messageId entry hsame
          · exact List.mem_cons_self
        · exact hold _ (hentries messageId' entry' hget)

theorem Inv.deleteFeedback (h : st.Inv) {object : Nat} {messageId : String} {version : Option String}
    (hstep : st.step (.deleteFeedback object messageId version) = some st') : st'.Inv := by
  obtain ⟨⟨s, n⟩, hobject, rfl⟩ := Option.map_eq_some_iff.mp hstep
  cases hdelete : st.feedback.delete s messageId version with
  | error e => simpa [hdelete] using h
  | ok feedback =>
    obtain ⟨hid, hentries⟩ := h.rated hobject
    simp only [hdelete]
    rcases FeedbackTable.delete_ok hdelete with rfl | rfl
    · exact h
    · refine h.keep (h.kept.rate (fun _ hkept => hkept) ⟨s.header, n, h.lives.objects _ _ _ hobject, hid, ?_⟩) rfl rfl rfl
      intro messageId' entry hget
      rw [Dict.get?_pop] at hget
      split at hget
      · cases hget
      · exact hentries messageId' entry hget

theorem Inv.step (h : st.Inv) {a : LifetimeAction S} (hdated : st.Dated a) (hstep : st.step a = some st') : st'.Inv := by
  cases a with
  | create id cwd createdAt => exact h.create hdated hstep
  | resume id loaded => exact h.resume hstep
  | remove id =>
    obtain rfl := Option.some.inj hstep
    exact ⟨⟨h.lives.length, h.lives.objects, h.lives.made, h.lives.version⟩, h.kept.grow _ _ List.prefix_rfl, h.distinct⟩
  | flush object =>
    obtain ⟨⟨s, n⟩, hobject, rfl⟩ := Option.map_eq_some_iff.mp hstep
    refine h.keep ⟨fun id header m hstored => ?_, h.kept.cache, h.kept.taken, h.kept.read, h.kept.feedback, h.kept.early⟩
      rfl rfl rfl
    by_cases hid : id = s.id
    · subst hid
      obtain ⟨rfl, rfl⟩ : s.header = header ∧ n = m := by simpa using hstored
      exact h.lives.objects object s n hobject
    · exact h.kept.stored id header m (by simpa [Dict.get?_set_of_ne _ _ hid] using hstored)
  | write object rows =>
    obtain ⟨⟨s, n⟩, hobject, rfl⟩ := Option.map_eq_some_iff.mp hstep
    exact h.keep (h.kept.putRecord (h.lives.objects object s n hobject) rows) rfl rfl rfl
  | coldRead id =>
    obtain rfl := Option.some.inj hstep
    refine h.keep (h.kept.reads (fun r hr => ?_)) rfl rfl rfl
    rcases List.mem_append.mp hr with hold | hnew
    · exact Or.inl hold
    · rw [List.mem_singleton] at hnew
      subst hnew
      refine Or.inr ⟨h.kept.cache id, fun header m hread => ?_⟩
      cases hread
  | tail n =>
    simp only [LifetimeState.step] at hstep
    split at hstep
    · rename_i id record hreading
      obtain rfl := Option.some.inj hstep
      exact h.setReading (h.kept.taken _ (List.mem_of_getElem? hreading))
    · cases hstep
  | whole n =>
    simp only [LifetimeState.step] at hstep
    split at hstep
    · obtain rfl := Option.some.inj hstep
      refine h.setReading (fun kept hkept => ?_)
      cases hkept
    · cases hstep
  | writeBack n rows =>
    simp only [LifetimeState.step] at hstep
    split at hstep
    · rename_i id record header m hreading
      obtain rfl := Option.some.inj hstep
      have hnames := h.kept.read _ (List.mem_of_getElem? hreading) header m rfl
      exact h.keep ((h.kept.reads (fun r hr => Or.inl (List.mem_of_mem_eraseIdx hr))).putRecord hnames rows) rfl rfl rfl
    · cases hstep
  | putFeedback object messageId rating note version token => exact h.putFeedback hstep
  | deleteFeedback object messageId version => exact h.deleteFeedback hstep

theorem Inv.start : Inv ({} : LifetimeState S) := by
  have hobject : ∀ object, ({} : LifetimeState S).object? object = none := fun object => by simp [object?]
  refine ⟨⟨rfl, ?_, ?_, by simp⟩, ⟨?_, ?_, by simp, by simp, ?_, by simp⟩, ?_⟩
  · intro object s n h
    rw [hobject] at h
    cases h
  · simp
  · simp
  · simp
  · simp
  · intro m n header header' hm
    simp at hm

/-- A session that is made with the creation time of an earlier one of its id is served what was written for that one: its object
writes a record. -/
theorem Inv.shared (h : st.Inv) {a : LifetimeAction S} (hstep : st.step a = some st') (hdated : ¬st.Dated a) :
    ∃ b st'', st'.Dated b ∧ st'.step b = some st'' ∧ ¬st''.Fenced := by
  cases a with
  | create id cwd createdAt =>
    simp only [Dated] at hdated
    push Not at hdated
    obtain ⟨hfree, header, hheader, hid, hcreated⟩ := hdated
    obtain ⟨m, hm⟩ := List.mem_iff_getElem?.mp hheader
    have hlt : m < st.created.length := (List.getElem?_eq_some_iff.mp hm).1
    obtain ⟨object, s, hobject, rfl⟩ := h.lives.made m header hm
    rcases step_create hstep with ⟨hlive, -⟩ | ⟨-, made, store, hadds, rfl⟩
    · exact absurd hfree hlive
    · have hobject' : object? { st with
          store
          lifetimes := st.lifetimes ++ [st.created.length]
          created := st.created ++ [st.nextHeader id cwd createdAt] } object = some (s, m) := by
        rw [object?_adds st h.lives.length hadds, if_neg ?_, hobject]
        rintro rfl
        simp [object?] at hobject
      have hsid : s.id = (st.nextHeader id cwd createdAt).id := (h.lives.objects object s m hobject).2.symm.trans hid
      have hidentity : identityOf s.header = identityOf (st.nextHeader id cwd createdAt) := by
        simp only [identityOf, Identity.mk.injEq]
        exact ⟨hid, hcreated, h.lives.version s.header hheader⟩
      have hwrite := congrArg (Option.map (fun (s, m) => putRecord { st with
          store
          lifetimes := st.lifetimes ++ [st.created.length]
          created := st.created ++ [st.nextHeader id cwd createdAt] } s.id m ⟨identityOf s.header, []⟩)) hobject'
      refine ⟨.write object [], _, trivial, hwrite, fun hfenced => ?_⟩
      have hserved := hfenced.cached st.created.length _ ⟨identityOf s.header, []⟩
        (List.getElem?_concat_length) (recordFor_eq_some.mpr ⟨by simp [LifetimeState.putRecord, hsid], hidentity⟩)
      rcases List.mem_cons.mp hserved with heq | hold
      · cases heq
        exact Nat.lt_irrefl _ hlt
      · exact Nat.lt_irrefl _ (h.kept.early _ hold)
  | _ => exact absurd trivial hdated

/-- What the feedback on a message of an object is, with the object's lifetime. -/
def feedbackOf (st : LifetimeState S) (object : Nat) (messageId : String) : Option (Nat × FeedbackEntry) :=
  (st.object? object).bind (fun (s, n) => (st.feedback.get s messageId).map (fun entry => (n, entry)))

end LifetimeState

/-- In every run whose sessions are dated, what is returned for a lifetime was written for it; and the next step keeps that, in
whatever dated steps come after it, exactly when it is dated, too. -/
theorem lifetime_fence {st : LifetimeState S} (h : Machine.Reach LifetimeState.step LifetimeState.Dated {} st) :
    st.Fenced ∧ ∀ a st', st.step a = some st' →
      ((∀ st'', Machine.Reach LifetimeState.step LifetimeState.Dated st' st'' → st''.Fenced) ↔ st.Dated a) := by
  have hinv := h.invariant LifetimeState.Inv.start (fun _ _ _ hinv hdated hstep => hinv.step hdated hstep)
  refine ⟨hinv.fenced, fun a st' hstep => ⟨fun hfenced => ?_, fun hdated st'' hreach => ?_⟩⟩
  · by_contra hdated
    obtain ⟨b, st'', hb, hnext, hnot⟩ := hinv.shared hstep hdated
    exact hnot (hfenced st'' (.next b .start hb hnext))
  · exact (hreach.invariant (hinv.step hdated hstep) (fun _ _ _ hinv hdated hstep => hinv.step hdated hstep)).fenced

namespace LifetimeRuns

/-- A session is made, used and removed, and another one is made under its id. -/
def usedTwice (createdAt createdAt' : Option Rat) : List (LifetimeAction Nat) :=
  [.create (some "chat-1") none createdAt, .write 0 [("count", ⟨1, 4, 4⟩)],
    .putFeedback 0 "m-1" (.str "up") .none none "token-1", .remove "chat-1", .create (some "chat-1") none createdAt']

/-- The rating of the first session. -/
def liked : FeedbackEntry := { messageId := "m-1", rating := some .up, note := none, version := "token-1" }

/-- What the cache shows of a lifetime. -/
def shown (st : LifetimeState Nat) (n : Nat) : Option (Int × List (String × Nat)) :=
  st.created[n]?.bind (fun header =>
    match cachedSnapshot [CountUnit.counter] st.cache header with
    | .ok (some snapshot) => some (snapshot.asOfSeq, snapshot.values)
    | _ => none)

/-- The first session was dated, and is removed. -/
def removed : LifetimeState Nat :=
  { lifetimes := [0]
    created := [{ id := "chat-1", createdAt := 1 }]
    store := { objects := [Session.new "chat-1" { id := "chat-1", createdAt := 1 }], sessions := Dict.empty.pop "chat-1" } }

theorem removed_reach : Machine.Reach LifetimeState.step LifetimeState.Dated {} removed := by
  refine .next (.remove "chat-1") (.next (.create (some "chat-1") none (some 1)) .start ?_ rfl) trivial rfl
  intro _ header hheader
  cases hheader

end LifetimeRuns

open LifetimeRuns in
/-- Another session under the id of a removed one, with a creation time of its own. -/
theorem lifetime_fence_dated :
    ∃ st, removed.step (.create (some "chat-1") none (some 2)) = some st ∧ st.lifetimes = [0, 1] ∧ st.Fenced := by
  have hkeeps := (lifetime_fence removed_reach).2 (.create (some "chat-1") none (some 2)) _ rfl
  refine ⟨_, rfl, rfl, hkeeps.mpr ?_ _ .start⟩
  intro _ header hheader _
  obtain rfl : header = { id := "chat-1", createdAt := 1 } := List.mem_singleton.mp hheader
  decide

open LifetimeRuns in
/-- Two sessions made one after the other under one id, without a creation time: the second is shown the count of the first and
has its rating. -/
theorem shared_identity :
    ∃ st, Machine.Reach LifetimeState.step Machine.anyStep {} st ∧ st.records.map (·.1) = [0] ∧ st.entries = [(0, liked)] ∧
      shown st 1 = some (4, [("count", 4)]) ∧ st.feedbackOf 1 "m-1" = some (1, liked) ∧ ¬st.Fenced := by
  have hwrites : (Machine.exec LifetimeState.step {} (usedTwice none none)).map (fun st => (st.records.map (·.1), st.entries)) =
      some ([0], [(0, liked)]) := by decide +kernel
  have hshown : (Machine.exec LifetimeState.step {} (usedTwice none none)).bind (fun st => shown st 1) =
      some (4, [("count", 4)]) := by decide +kernel
  have hfeedback : (Machine.exec LifetimeState.step {} (usedTwice none none)).bind (fun st => st.feedbackOf 1 "m-1") =
      some (1, liked) := by decide +kernel
  obtain ⟨st, hrun, hst⟩ := Option.map_eq_some_iff.mp hwrites
  obtain ⟨hrecords, hentries⟩ := Prod.mk.injEq .. ▸ hst
  rw [hrun] at hshown hfeedback
  replace hfeedback : st.feedbackOf 1 "m-1" = some (1, liked) := hfeedback
  refine ⟨st, Machine.Reach.start.exec hrun, hrecords, hentries, hshown, hfeedback, fun hfenced => ?_⟩
  obtain ⟨⟨s, n⟩, hobject, hentry⟩ := Option.bind_eq_some_iff.mp hfeedback
  obtain ⟨entry, hget, heq⟩ := Option.map_eq_some_iff.mp hentry
  cases heq
  have hwritten := hfenced.feedback 1 s 1 "m-1" liked hobject hget
  rw [hentries] at hwritten
  cases List.mem_singleton.mp hwritten

end Pydsh
