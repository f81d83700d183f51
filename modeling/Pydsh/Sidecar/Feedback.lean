import Pydsh.Compaction.Basic
import Pydsh.Lib.Dict

/-!
# Message feedback

`sidecar/feedback.py`: an opinion about a message, held beside the log. One row per session id holds the entries by message; a
row of another lifetime is read as an empty one. A write is compared against the version of the entry it replaces. Each session
id has its own lock, so a call is one step here; the token of a new version is an argument.
-/

namespace Pydsh

/-- What a rating may be, beside nothing. -/
inductive Rating where
  | up | down
  deriving DecidableEq

/-- `FeedbackError`, with the values its message quotes. -/
inductive FeedbackError where
  | noteBlank
  | noteTooLarge
  | ratingInvalid (rating : PyValue)
  | versionMismatch (messageId : String) (stored given : Option String)

/-- The code a client routes on. -/
def FeedbackError.code : FeedbackError → String
  | .noteBlank => "note-blank"
  | .noteTooLarge => "note-too-large"
  | .ratingInvalid _ => "rating-invalid"
  | .versionMismatch .. => "version-mismatch"

/-- `DEFAULT_MAX_NOTE_BYTES`. -/
def maxNoteBytes : Nat := 4096

/-- What `lifetime_identity` gives. -/
structure FeedbackIdentity where
  id : String
  createdAt : Rat
  cwd : Option String
  deriving DecidableEq

/-- `lifetime_identity`. -/
def lifetimeIdentity (header : SessionHeader) : FeedbackIdentity := ⟨header.id, header.createdAt, header.cwd⟩

/-- The feedback on one message. -/
structure FeedbackEntry where
  messageId : String
  rating : Option Rating
  note : Option String
  version : String
  deriving DecidableEq

/-- The row of a session: its identity witness and the entries by message. -/
structure FeedbackRow where
  identity : FeedbackIdentity
  entries : Dict String FeedbackEntry

/-- `_check_note`. -/
def checkNote : PyValue → Except FeedbackError (Option String)
  | .none => .ok none
  | .str note =>
    if pyStrip note = "" then .error .noteBlank
    else if maxNoteBytes < note.utf8ByteSize then .error .noteTooLarge
    else .ok (some note)
  | _ => .error .noteBlank

/-- `_check_rating`. -/
def checkRating : PyValue → Except FeedbackError (Option Rating)
  | .none => .ok none
  | .str "up" => .ok (some .up)
  | .str "down" => .ok (some .down)
  | rating => .error (.ratingInvalid rating)

/-- The table `sessions` of the domain. -/
abbrev FeedbackTable : Type := Dict String FeedbackRow

namespace FeedbackTable

/-- `_row`: the session's row, or an empty one if the fence does not match. -/
def row (table : FeedbackTable) (s : Session) : FeedbackRow :=
  match table.get? s.id with
  | none => { identity := lifetimeIdentity s.header, entries := .empty }
  | some stored =>
    if stored.identity ≠ lifetimeIdentity s.header then { identity := lifetimeIdentity s.header, entries := .empty }
    else stored

/-- `list`: every rating on the session's messages. -/
def list (table : FeedbackTable) (s : Session) : Dict String FeedbackEntry := (table.row s).entries

/-- `get`. -/
def get (table : FeedbackTable) (s : Session) (messageId : String) : Option FeedbackEntry := (table.row s).entries.get? messageId

/-- The end of `put`: the entry in the session's row. -/
def putEntry (table : FeedbackTable) (s : Session) (entry : FeedbackEntry) : FeedbackTable :=
  let row := table.row s
  table.set s.id { row with entries := row.entries.set entry.messageId entry }

/-- `put`: the entry it returns, and the table. -/
def put (table : FeedbackTable) (s : Session) (messageId : String) (rating note : PyValue) (version : Option String)
    (token : String) : Except FeedbackError (FeedbackEntry × FeedbackTable) := do
  let rating ← checkRating rating
  let note ← checkNote note
  let entry : FeedbackEntry := { messageId, rating, note, version := token }
  match table.get s messageId with
  | none =>
    if version ≠ none then .error (.versionMismatch messageId none version)
    else .ok (entry, table.putEntry s entry)
  | some existing =>
    if version ≠ some existing.version then .error (.versionMismatch messageId (some existing.version) version)
    -- a write that changes nothing keeps the version
    else if existing.rating = rating ∧ existing.note = note then .ok (existing, table)
    else .ok (entry, table.putEntry s entry)

/-- `delete`: absent is success, present is version-checked. -/
def delete (table : FeedbackTable) (s : Session) (messageId : String) (version : Option String) :
    Except FeedbackError FeedbackTable :=
  let row := table.row s
  match row.entries.get? messageId with
  | none => .ok table
  | some existing =>
    if version ≠ some existing.version then .error (.versionMismatch messageId (some existing.version) version)
    else .ok (table.set s.id { row with entries := row.entries.pop messageId })

/-! ## What the calls do -/

/-- A row that is read has the session's identity, and an entry in it was stored under the session's id in a row of this
identity. -/
theorem row_cases (table : FeedbackTable) (s : Session) :
    (table.row s).identity = lifetimeIdentity s.header ∧
      ((table.row s).entries = .empty ∨ table.get? s.id = some (table.row s)) := by
  unfold row
  cases hstored : table.get? s.id with
  | none => exact ⟨rfl, Or.inl rfl⟩
  | some stored =>
    by_cases hid : stored.identity = lifetimeIdentity s.header
    · simp only [ne_eq, hid, not_true_eq_false, if_false]
      exact ⟨trivial, Or.inr trivial⟩
    · simp only [ne_eq, hid, not_false_eq_true, if_true]
      exact ⟨trivial, Or.inl trivial⟩

/-- `put` finds its entry there and leaves the table alone, or puts the entry into the session's row. -/
theorem put_ok {table table' : FeedbackTable} {s : Session} {messageId token : String} {rating note : PyValue}
    {version : Option String} {entry : FeedbackEntry}
    (h : table.put s messageId rating note version token = .ok (entry, table')) :
    (table' = table ∧ table.get s messageId = some entry) ∨ (table' = table.putEntry s entry ∧ entry.messageId = messageId) := by
  unfold put at h
  cases hrating : checkRating rating with
  | error e =>
    rw [hrating] at h
    cases h
  | ok rating =>
    cases hnote : checkNote note with
    | error e =>
      rw [hrating, hnote] at h
      cases h
    | ok note =>
      rw [hrating, hnote] at h
      simp only [bind, Except.bind] at h
      split at h
      · split at h
        · cases h
        · cases h
          exact Or.inr ⟨rfl, rfl⟩
      · rename_i existing hexisting
        split at h
        · cases h
        · split at h
          · cases h
            exact Or.inl ⟨rfl, hexisting⟩
          · cases h
            exact Or.inr ⟨rfl, rfl⟩

/-- `delete` leaves the table alone, or takes an entry out of the session's row. -/
theorem delete_ok {table table' : FeedbackTable} {s : Session} {messageId : String} {version : Option String}
    (h : table.delete s messageId version = .ok table') :
    table' = table ∨
      table' = table.set s.id { table.row s with entries := (table.row s).entries.pop messageId } := by
  simp only [delete] at h
  split at h
  · cases h
    exact Or.inl rfl
  · split at h
    · cases h
    · cases h
      exact Or.inr rfl

end FeedbackTable

end Pydsh
