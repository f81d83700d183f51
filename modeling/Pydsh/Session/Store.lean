import Pydsh.Lib.Dict
import Pydsh.Persistence.Sqlite

/-!
# The session store

`session/store.py`: the live sessions by id. `resume` suspends while the backend loads, so it is two functions here, what runs
before the await and what runs after it. Python holds a session by reference; `objects` are the `Session` objects made so far,
and an object is its place among them.
-/

namespace Pydsh

/-- What the store's calls raise. -/
inductive StoreError where
  /-- `session ... already exists`. -/
  | alreadyExists (id : String)
  /-- `cannot resume session ...: no persistence backend is attached`. -/
  | noBackend (id : String)
  /-- `no persisted session ... to resume`. -/
  | notPersisted (id : String)
  /-- What the backend's `load` raised. -/
  | load (error : LoadError)

/-- What `load` of a backend gives for an id: `none` for no session. -/
abbrev Loaded : Type := Except LoadError (Option Session)

/-- The objects and `_sessions`. -/
structure SessionStore where
  objects : List Session := []
  sessions : Dict String Nat := .empty

namespace SessionStore

/-- A new object. -/
def alloc (st : SessionStore) (s : Session) : SessionStore := { st with objects := st.objects ++ [s] }

/-- `id or f"session-{len(self._sessions) + 1}"`. -/
def sessionId (st : SessionStore) (id : Option String) : String :=
  match id with
  | none => "session-" ++ toString (st.sessions.size + 1)
  | some id => if id.isEmpty then "session-" ++ toString (st.sessions.size + 1) else id

/-- `create`, with the `created_at` of its `meta`, if there is one: the object, and the store that has it. -/
def create (st : SessionStore) (id : Option String) (cwd : Option String) (createdAt : Option Rat) :
    Except StoreError (Nat × SessionStore) :=
  let sessionId := st.sessionId id
  match st.sessions.get? sessionId with
  | some _ => .error (.alreadyExists sessionId)
  | none =>
    let header : SessionHeader := { id := sessionId, createdAt := createdAt.getD 0, cwd }
    let object := st.objects.length
    let st := st.alloc (Session.new sessionId header)
    .ok (object, { st with sessions := st.sessions.set sessionId object })

/-- `resume` up to its await: the live object, or `none` where it goes on to load. -/
def resume (st : SessionStore) (attached : Bool) (id : String) : Except StoreError (Option Nat) :=
  match st.sessions.get? id with
  | some live => .ok (some live)
  | none => if attached then .ok none else .error (.noBackend id)

/-- `resume` from its await on, with what `load` gave. -/
def resumed (st : SessionStore) (id : String) : Loaded → Except StoreError (Nat × SessionStore)
  | .error e => .error (.load e)
  | .ok none => .error (.notPersisted id)
  | .ok (some session) =>
    let object := st.objects.length
    let st := st.alloc session
    .ok (object, { st with sessions := st.sessions.set id object })

/-- `remove`, and what a fiber that created a session does when it unloads. -/
def remove (st : SessionStore) (id : String) : SessionStore := { st with sessions := st.sessions.pop id }

/-- `get`. -/
def get (st : SessionStore) (id : String) : Option Nat := st.sessions.get? id

/-! ## What the calls do -/

/-- The store has one more object, live under an id. -/
structure Adds (st st' : SessionStore) (id : String) (object : Nat) (s : Session) : Prop where
  next : object = st.objects.length
  objects : st'.objects = st.objects ++ [s]
  sessions : st'.sessions = st.sessions.set id object

/-- `create` raises exactly when the id is live; else the new session is live under it. -/
theorem create_eq (st : SessionStore) (id cwd : Option String) (createdAt : Option Rat) :
    (∃ object, st.get (st.sessionId id) = some object ∧
      st.create id cwd createdAt = .error (.alreadyExists (st.sessionId id))) ∨
    (st.get (st.sessionId id) = none ∧ ∃ object st', st.create id cwd createdAt = .ok (object, st') ∧
      st.Adds st' (st.sessionId id) object
        (Session.new (st.sessionId id) { id := st.sessionId id, createdAt := createdAt.getD 0, cwd })) := by
  unfold create get
  cases hlive : st.sessions.get? (st.sessionId id) with
  | some object => exact Or.inl ⟨object, rfl, by simp only [hlive]⟩
  | none =>
    simp only [hlive]
    exact Or.inr ⟨trivial, _, _, rfl, rfl, rfl, rfl⟩

/-- A load that gave a session makes it live, whatever is live under its id. -/
theorem resumed_eq (st : SessionStore) (id : String) (loaded : Loaded) :
    (∃ e, (∀ s, loaded ≠ .ok (some s)) ∧ st.resumed id loaded = .error e) ∨
    ∃ s object st', loaded = .ok (some s) ∧ st.resumed id loaded = .ok (object, st') ∧ st.Adds st' id object s := by
  rcases loaded with e | _ | s
  · exact Or.inl ⟨_, nofun, rfl⟩
  · exact Or.inl ⟨_, nofun, rfl⟩
  · exact Or.inr ⟨s, _, _, rfl, rfl, rfl, rfl, rfl⟩

end SessionStore

end Pydsh
