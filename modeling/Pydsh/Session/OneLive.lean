import Pydsh.Lib.Machine
import Pydsh.Session.Store

/-!
# One live session per id

The calls of a session store in any order: `resume` begins, its load reads the stored session, and it goes on, with other calls
in between. `resume` looks for a live session before it awaits and not again afterwards, so two overlapping resumes of one id put
two objects into callers' hands (`two_live_sessions`); and `create` numbers an automatic id by how many sessions are live, which
after a removal can be an id that is taken. A run keeps the law exactly as long as its steps avoid these two (`one_live_session`).
-/

namespace Pydsh

/-- A `resume` that awaits its load: the id, and what the load gave once it has read. -/
structure Resuming where
  id : String
  loaded : Option Loaded := none

/-- A store in use: what callers obtained as live, object by id, and was not removed since; whether a backend is attached, and what
its `load` gives now; the resumes in flight; and what the last call to end gave its caller. -/
structure StoreState where
  store : SessionStore := {}
  held : List (String × Nat) := []
  attached : Bool := false
  stored : String → Loaded := fun _ => .ok none
  resuming : List Resuming := []
  answer : Option (Except StoreError (String × Nat)) := none

/-- What happens to a store: its calls; the two halves of a load; `attach_persistence`; and what is stored changes, by a flush or
by another process. -/
inductive StoreAction where
  | create (id cwd : Option String) (createdAt : Option Rat)
  | resume (id : String)
  | read (n : Nat)
  | finish (n : Nat)
  | remove (id : String)
  | get (id : String)
  | attach
  | persist (stored : String → Loaded)

namespace StoreState

/-- The live object under an id. -/
def live (st : StoreState) (id : String) : Option Nat := st.store.sessions.get? id

/-- Whether a session could be resumed under an id. -/
def resumable (st : StoreState) (id : String) : Bool :=
  match st.stored id with
  | .ok (some _) => true
  | _ => false

/-- The caller obtains an object. -/
def obtain (st : StoreState) (id : String) (object : Nat) : StoreState :=
  { st with
    held := (id, object) :: st.held
    answer := some (.ok (id, object)) }

/-- The call raises. -/
def raise (st : StoreState) (e : StoreError) : StoreState := { st with answer := some (.error e) }

/-- What an action does; `none` where it cannot happen. -/
def step (st : StoreState) : StoreAction → Option StoreState
  | .create id cwd createdAt =>
    match st.store.create id cwd createdAt with
    | .error e => some (st.raise e)
    | .ok (object, store) => some ({ st with store }.obtain (st.store.sessionId id) object)
  | .resume id =>
    match st.store.resume st.attached id with
    | .error e => some (st.raise e)
    | .ok (some object) => some (st.obtain id object)
    | .ok none => some { st with resuming := st.resuming ++ [{ id }] }
  | .read n =>
    match st.resuming[n]? with
    | some { id, loaded := none } => some { st with resuming := st.resuming.set n { id, loaded := some (st.stored id) } }
    | _ => none
  | .finish n =>
    match st.resuming[n]? with
    | some { id, loaded := some loaded } =>
      let st := { st with resuming := st.resuming.eraseIdx n }
      match st.store.resumed id loaded with
      | .error e => some (st.raise e)
      | .ok (object, store) => some ({ st with store }.obtain id object)
    | _ => none
  | .remove id => some { st with
      store := st.store.remove id
      held := st.held.filter (fun held => held.1 ≠ id) }
  | .get id =>
    match st.store.get id with
    | none => some st
    | some object => some (st.obtain id object)
  | .attach => some { st with attached := true }
  | .persist stored => some { st with stored }

/-! ## The law -/

/-- The objects that callers hold as live under one id are one object. -/
def OneObject (st : StoreState) : Prop := ∀ id object object', (id, object) ∈ st.held → (id, object') ∈ st.held → object = object'

/-- `id` is falsy: `create` makes up an id. -/
def Automatic (id : Option String) : Prop := id.getD "" = ""

/-- A call does what it should: `resume` of a live id gives that object; `create` without an id gives a session, under an id that
no live session had and that no session could be resumed under. -/
def Serves (st : StoreState) (a : StoreAction) (st' : StoreState) : Prop :=
  match a with
  | .resume id => ∀ object, st.live id = some object → st'.answer = some (.ok (id, object))
  | .create id _ _ => Automatic id → ∃ made object, st'.answer = some (.ok (made, object)) ∧ st'.live made = some object ∧
      st.live made = none ∧ st.resumable made = false
  | _ => True

/-- The step avoids both. When a load that gave a session is over, no session is live under its id; when a session is made without
an id and `n` sessions are live, none of them is called `session-(n + 1)`, and none could be resumed under that name. -/
def Avoids (st : StoreState) (a : StoreAction) : Prop :=
  match a with
  | .create id _ _ => Automatic id → st.live (st.store.sessionId none) = none ∧ st.resumable (st.store.sessionId none) = false
  | .finish n => ∀ r ∈ st.resuming[n]?, ∀ s, r.loaded = some (.ok (some s)) → st.live r.id = none
  | _ => True

/-- What every run that avoids both keeps: callers hold what is live, and it was made. -/
structure Inv (st : StoreState) : Prop where
  held_iff : ∀ id object, (id, object) ∈ st.held ↔ st.live id = some object
  made : ∀ id object, st.live id = some object → object < st.store.objects.length

variable {st st' : StoreState}

@[simp] theorem live_obtain (st : StoreState) (id : String) (object : Nat) : (st.obtain id object).live = st.live := rfl

theorem Inv.oneObject (h : st.Inv) : st.OneObject := by
  intro id object object' hobject hobject'
  rw [h.held_iff] at hobject hobject'
  exact Option.some.inj (hobject.symm.trans hobject')

theorem live_adds {store : SessionStore} {id : String} {object : Nat} {s : Session}
    (hadds : st.store.Adds store id object s) (id' : String) :
    ({ st with store } : StoreState).live id' = if id' = id then some object else st.live id' := by
  simp only [live, hadds.sessions, Dict.get?_set]

theorem Inv.adds (h : st.Inv) {store : SessionStore} {id : String} {object : Nat} {s : Session}
    (hadds : st.store.Adds store id object s) (hfree : st.live id = none) : ({ st with store }.obtain id object).Inv := by
  constructor
  · intro id' object'
    rw [live_obtain, live_adds hadds]
    simp only [obtain, List.mem_cons, Prod.mk.injEq, h.held_iff]
    by_cases hid : id' = id
    · simp [hid, hfree, eq_comm]
    · simp [hid]
  · intro id' object' hlive
    have hlen : store.objects.length = st.store.objects.length + 1 := by simp [hadds.objects]
    rw [live_obtain, live_adds hadds] at hlive
    simp only [obtain, hlen]
    split at hlive
    · cases hlive
      rw [hadds.next]
      exact Nat.lt_succ_self _
    · exact Nat.lt_succ_of_lt (h.made id' object' hlive)

theorem Inv.obtains (h : st.Inv) {id : String} {object : Nat} (hlive : st.live id = some object) : (st.obtain id object).Inv := by
  refine ⟨fun id' object' => ?_, h.made⟩
  rw [live_obtain]
  simp only [obtain, List.mem_cons, Prod.mk.injEq, h.held_iff]
  constructor
  · rintro (⟨rfl, rfl⟩ | hheld)
    · exact hlive
    · exact hheld
  · exact Or.inr

theorem Inv.removes (h : st.Inv) (id : String) :
    Inv { st with
      store := st.store.remove id
      held := st.held.filter (fun held => held.1 ≠ id) } := by
  have hpop : ∀ id', (st.store.remove id).sessions.get? id' = if id' = id then none else st.live id' :=
    fun id' => Dict.get?_pop _ _ _
  constructor
  · intro id' object'
    simp only [live, hpop, List.mem_filter, h.held_iff]
    by_cases hid : id' = id <;> simp [hid]
  · intro id' object' hlive
    simp only [live, hpop] at hlive
    split at hlive
    · cases hlive
    · exact h.made id' object' hlive

theorem sessionId_automatic {id : Option String} (h : Automatic id) (store : SessionStore) :
    store.sessionId id = store.sessionId none := by
  unfold Automatic at h
  unfold SessionStore.sessionId
  cases id with
  | none => rfl
  | some id =>
    obtain rfl : id = "" := h
    rfl

/-- What one step is about: a step that avoids both keeps the invariant, and the step keeps the law exactly when it avoids both. -/
structure Settles (st : StoreState) (a : StoreAction) (st' : StoreState) : Prop where
  inv : st.Avoids a → st'.Inv
  exact : st'.OneObject ∧ st.Serves a st' ↔ st.Avoids a

theorem Settles.of_inv {a : StoreAction} (hinv : st'.Inv) (hiff : st.Serves a st' ↔ st.Avoids a) : st.Settles a st' :=
  ⟨fun _ => hinv, ⟨fun h => hiff.mp h.2, fun h => ⟨hinv.oneObject, hiff.mpr h⟩⟩⟩

theorem Inv.create (h : st.Inv) {id cwd : Option String} {createdAt : Option Rat}
    (hstep : st.step (.create id cwd createdAt) = some st') : st.Settles (.create id cwd createdAt) st' := by
  simp only [step] at hstep
  rcases st.store.create_eq id cwd createdAt with ⟨object, hlive, hcreate⟩ | ⟨hfree, object, store, hcreate, hadds⟩
  · rw [hcreate] at hstep
    obtain rfl := Option.some.inj hstep
    refine .of_inv ⟨h.held_iff, h.made⟩ ⟨fun hserves hauto => ?_, fun havoids hauto => ?_⟩
    · obtain ⟨made, object', hanswer, -⟩ := hserves hauto
      cases hanswer
    · have hnone := (havoids hauto).1
      rw [← sessionId_automatic hauto] at hnone
      cases hlive.symm.trans hnone
  · rw [hcreate] at hstep
    obtain rfl := Option.some.inj hstep
    refine .of_inv (h.adds hadds hfree) ⟨fun hserves hauto => ?_, fun havoids hauto => ?_⟩
    · obtain ⟨made, object', hanswer, -, hmade, hresumable⟩ := hserves hauto
      cases hanswer
      rw [← sessionId_automatic hauto]
      exact ⟨hmade, hresumable⟩
    · have hresumable := (havoids hauto).2
      rw [← sessionId_automatic hauto] at hresumable
      refine ⟨_, _, rfl, ?_, hfree, hresumable⟩
      rw [live_obtain, live_adds hadds, if_pos rfl]

theorem Inv.resume (h : st.Inv) {id : String} (hstep : st.step (.resume id) = some st') : st.Settles (.resume id) st' := by
  simp only [step, SessionStore.resume] at hstep
  cases hlive : st.store.sessions.get? id with
  | some object =>
    rw [hlive] at hstep
    obtain rfl := Option.some.inj hstep
    refine .of_inv (h.obtains hlive) ⟨fun _ => trivial, fun _ object' hobject' => ?_⟩
    cases hlive.symm.trans hobject'
    rfl
  | none =>
    have hserves : ∀ st'', st.Serves (.resume id) st'' := fun _ object hobject => by cases hlive.symm.trans hobject
    rw [hlive] at hstep
    cases hattached : st.attached with
    | true =>
      rw [hattached] at hstep
      obtain rfl := Option.some.inj hstep
      exact .of_inv ⟨h.held_iff, h.made⟩ ⟨fun _ => trivial, fun _ => hserves _⟩
    | false =>
      rw [hattached] at hstep
      obtain rfl := Option.some.inj hstep
      exact .of_inv ⟨h.held_iff, h.made⟩ ⟨fun _ => trivial, fun _ => hserves _⟩

/-- Where a session is live when a load of its id is over, there are two. -/
theorem Inv.two_objects (h : st.Inv) {store : SessionStore} {id : String} {object old : Nat} {s : Session}
    (hadds : st.store.Adds store id object s) (hlive : st.live id = some old) :
    ¬OneObject ({ st with store }.obtain id object) := by
  intro hone
  have hheld := (h.held_iff id old).mpr hlive
  have heq : object = old := hone id object old List.mem_cons_self (List.mem_cons_of_mem _ hheld)
  have hlt := h.made id old hlive
  rw [← heq, hadds.next] at hlt
  exact Nat.lt_irrefl _ hlt

theorem Inv.finish (h : st.Inv) {n : Nat} (hstep : st.step (.finish n) = some st') : st.Settles (.finish n) st' := by
  simp only [step] at hstep
  split at hstep
  · rename_i id loaded hresuming
    have hinv : Inv { st with resuming := st.resuming.eraseIdx n } := ⟨h.held_iff, h.made⟩
    have havoids : st.Avoids (.finish n) ↔ ∀ s, loaded = .ok (some s) → st.live id = none := by
      constructor
      · exact fun havoids s hs => havoids _ hresuming s (congrArg some hs)
      · intro hfree r hr s hs
        cases hresuming.symm.trans hr
        exact hfree s (Option.some.inj hs)
    rcases st.store.resumed_eq id loaded with ⟨e, hnone, hresumed⟩ | ⟨s, object, store, rfl, hresumed, hadds⟩
    · rw [hresumed] at hstep
      obtain rfl := Option.some.inj hstep
      exact .of_inv ⟨h.held_iff, h.made⟩ ⟨fun _ => havoids.mpr (fun s hs => absurd hs (hnone s)), fun _ => trivial⟩
    · rw [hresumed] at hstep
      obtain rfl := Option.some.inj hstep
      cases hlive : st.live id with
      | none => exact .of_inv (hinv.adds hadds hlive) ⟨fun _ => havoids.mpr (fun _ _ => hlive), fun _ => trivial⟩
      | some old =>
        have hnot : ¬st.Avoids (.finish n) := by
          rw [havoids, hlive]
          exact fun hfree => nomatch hfree s rfl
        exact ⟨fun hyes => absurd hyes hnot, ⟨fun hone => absurd hone.1 (hinv.two_objects hadds hlive), fun hyes => absurd hyes hnot⟩⟩
  · cases hstep

theorem Inv.step (h : st.Inv) {a : StoreAction} (hstep : st.step a = some st') : st.Settles a st' := by
  have hkept : ∀ {a}, st'.Inv → st.Serves a st' → st.Avoids a → st.Settles a st' :=
    fun hinv hserves havoids => .of_inv hinv ⟨fun _ => havoids, fun _ => hserves⟩
  cases a with
  | create id cwd createdAt => exact h.create hstep
  | resume id => exact h.resume hstep
  | finish n => exact h.finish hstep
  | read n =>
    simp only [StoreState.step] at hstep
    split at hstep
    · obtain rfl := Option.some.inj hstep
      exact hkept ⟨h.held_iff, h.made⟩ trivial trivial
    · cases hstep
  | remove id =>
    obtain rfl := Option.some.inj hstep
    exact hkept (h.removes id) trivial trivial
  | get id =>
    simp only [StoreState.step] at hstep
    split at hstep
    · obtain rfl := Option.some.inj hstep
      exact hkept h trivial trivial
    · rename_i object hlive
      obtain rfl := Option.some.inj hstep
      exact hkept (h.obtains hlive) trivial trivial
  | attach =>
    obtain rfl := Option.some.inj hstep
    exact hkept ⟨h.held_iff, h.made⟩ trivial trivial
  | persist stored =>
    obtain rfl := Option.some.inj hstep
    exact hkept ⟨h.held_iff, h.made⟩ trivial trivial

end StoreState

/-- In every run of a store whose steps avoid both, callers hold one object for an id, and the next step keeps that and does what it
should exactly when it avoids both, too. -/
theorem one_live_session {st : StoreState} (h : Machine.Reach StoreState.step StoreState.Avoids {} st) :
    st.OneObject ∧ ∀ a st', st.step a = some st' → (st'.OneObject ∧ st.Serves a st' ↔ st.Avoids a) := by
  have hstart : StoreState.Inv {} := by
    constructor
    · intro id object
      simp [StoreState.live, Dict.get?_empty]
    · intro id object hlive
      simp [StoreState.live, Dict.get?_empty] at hlive
  have hinv := h.invariant hstart (fun _ _ _ hinv hok hstep => (hinv.step hstep).inv hok)
  exact ⟨hinv.oneObject, fun a st' hstep => (hinv.step hstep).exact⟩

namespace StoreRuns

/-- One stored session. -/
def stored : String → Loaded := fun id =>
  if id = "chat-1" then .ok (some (Session.new "chat-1" { id := "chat-1" })) else .ok none

/-- Two resumes of it that overlap. -/
def resumedTwice : List StoreAction :=
  [.persist stored, .attach, .resume "chat-1", .resume "chat-1", .read 0, .finish 0, .read 0, .finish 0]

/-- Two new sessions, the first of which is removed. -/
def removedFirst : List StoreAction := [.create none none none, .create none none none, .remove "session-1"]

/-- A call that raised. -/
def refused : Except StoreError (String × Nat) → Bool
  | .ok _ => false
  | .error _ => true

/-- A backend with the stored session is attached, and a resume of it is over its read. -/
def reading : StoreState :=
  { attached := true
    stored
    resuming := [{ id := "chat-1", loaded := some (stored "chat-1") }] }

theorem reading_reach : Machine.Reach StoreState.step StoreState.Avoids {} reading :=
  .next (.read 0) (.next (.resume "chat-1") (.next .attach (.next (.persist stored) .start trivial rfl) trivial rfl) trivial rfl)
    trivial rfl

end StoreRuns

open StoreRuns in
/-- A resume that goes on while no session is live under its id. -/
theorem one_live_session_resumed :
    ∃ st, reading.step (.finish 0) = some st ∧ st.held = [("chat-1", 0)] ∧ st.OneObject := by
  have hfinish := (one_live_session reading_reach).2 (.finish 0) _ rfl
  refine ⟨_, rfl, rfl, (hfinish.mpr ?_).1⟩
  intro r hr s hs
  cases hr
  rfl

open StoreRuns in
/-- After two overlapping resumes of one stored session callers hold two objects for its id; and with one of two new sessions
removed, `create` without an id raises. -/
theorem two_live_sessions :
    (∃ st, Machine.Reach StoreState.step Machine.anyStep {} st ∧ ("chat-1", 0) ∈ st.held ∧ ("chat-1", 1) ∈ st.held ∧
      ¬st.OneObject) ∧
    ∃ st st', Machine.Reach StoreState.step Machine.anyStep {} st ∧ st.step (.create none none none) = some st' ∧
      st'.answer.any refused = true ∧ ¬st.Serves (.create none none none) st' := by
  constructor
  · have hheld : (Machine.exec StoreState.step {} resumedTwice).map (·.held) = some [("chat-1", 1), ("chat-1", 0)] := by
      decide +kernel
    obtain ⟨st, hrun, hst⟩ := Option.map_eq_some_iff.mp hheld
    refine ⟨st, Machine.Reach.start.exec hrun, by simp [hst], by simp [hst], fun hone => ?_⟩
    have := hone "chat-1" 0 1 (by simp [hst]) (by simp [hst])
    cases this
  · have hrefused : ((Machine.exec StoreState.step {} removedFirst).bind (fun st => st.step (.create none none none))).map
        (·.answer.any refused) = some true := by decide +kernel
    obtain ⟨st', hboth, hst'⟩ := Option.map_eq_some_iff.mp hrefused
    obtain ⟨st, hrun, hstep⟩ := Option.bind_eq_some_iff.mp hboth
    refine ⟨st, st', Machine.Reach.start.exec hrun, hstep, hst', fun hserves => ?_⟩
    obtain ⟨made, object, hanswer, -⟩ := hserves rfl
    rw [hanswer] at hst'
    cases hst'

end Pydsh
