import Pydsh.Lib.Machine
import Pydsh.Lib.Versioned
import Pydsh.Sidecar.Feedback

/-!
# Feedback written at once

The calls of `MessageFeedback` for one session in any order. A call opens the domain if it sees none, and a write then takes the lock of
its session, compares and awaits the table. So writes replace what their callers had seen, as long as all of them write to one domain:
two first calls that overlap open two domains of the same stored rows, and what the first one wrote is not in the second
(`not_feedback_swaps`).
-/

namespace Pydsh

/-! ## Compare and write -/

/-- `put` in the lock, of a checked rating and note: the entry it returns, and the row it writes, if it does. -/
def FeedbackRow.put (row : FeedbackRow) (messageId : String) (rating : Option Rating) (note : Option String) (version : Option String)
    (token : String) : Except FeedbackError (FeedbackEntry × Option FeedbackRow) :=
  let entry : FeedbackEntry := { messageId, rating, note, version := token }
  let written : FeedbackRow := { row with entries := row.entries.set messageId entry }
  match row.entries.get? messageId with
  | none => if version ≠ none then .error (.versionMismatch messageId none version) else .ok (entry, some written)
  | some existing =>
    if version ≠ some existing.version then .error (.versionMismatch messageId (some existing.version) version)
    else if existing.rating = rating ∧ existing.note = note then .ok (existing, none)
    else .ok (entry, some written)

/-- `delete` in the lock: the row it writes, if it does. -/
def FeedbackRow.delete (row : FeedbackRow) (messageId : String) (version : Option String) : Except FeedbackError (Option FeedbackRow) :=
  match row.entries.get? messageId with
  | none => .ok none
  | some existing =>
    if version ≠ some existing.version then .error (.versionMismatch messageId (some existing.version) version)
    else .ok (some { row with entries := row.entries.pop messageId })

/-- The table after a write of the session's row, if there is one. -/
def FeedbackTable.write (table : FeedbackTable) (s : Session) : Option FeedbackRow → FeedbackTable
  | some row => table.set s.id row
  | none => table

/-- A `put` that nothing comes between is its checks, its compare and its write. -/
theorem FeedbackTable.put_eq (table : FeedbackTable) (s : Session) (messageId : String) (rating note : PyValue) (version : Option String)
    (token : String) : table.put s messageId rating note version token = (do
      let rating ← checkRating rating
      let note ← checkNote note
      let (entry, row) ← (table.row s).put messageId rating note version token
      return (entry, table.write s row)) := by
  unfold FeedbackTable.put FeedbackTable.get FeedbackRow.put
  cases checkRating rating with
  | error e => rfl
  | ok rating =>
    cases checkNote note with
    | error e => rfl
    | ok note =>
      simp only [bind, Except.bind, pure, Except.pure]
      cases (table.row s).entries.get? messageId with
      | none =>
        dsimp only
        split <;> rfl
      | some existing =>
        dsimp only
        split
        · rfl
        · split <;> rfl

/-- And so is a `delete`. -/
theorem FeedbackTable.delete_eq (table : FeedbackTable) (s : Session) (messageId : String) (version : Option String) :
    table.delete s messageId version = ((table.row s).delete messageId version).map (table.write s) := by
  unfold FeedbackTable.delete FeedbackRow.delete
  dsimp only
  cases (table.row s).entries.get? messageId with
  | none => rfl
  | some existing =>
    dsimp only
    split <;> rfl

/-! ## Calls -/

/-- A call: a read, or a write that has not been checked. -/
inductive FeedbackRequest where
  | read (messageId : String)
  | put (messageId : String) (rating note : PyValue) (version : Option String)
  | delete (messageId : String) (version : Option String)

/-- A write that waits for the lock. -/
inductive FeedbackWrite where
  | put (messageId : String) (rating : Option Rating) (note : Option String) (version : Option String)
  | delete (messageId : String) (version : Option String)

/-- A write that passed the checks before the lock, or the message that is read. -/
def FeedbackRequest.checked : FeedbackRequest → Except FeedbackError (String ⊕ FeedbackWrite)
  | .read messageId => .ok (.inl messageId)
  | .put messageId rating note version => do
    let rating ← checkRating rating
    let note ← checkNote note
    return .inr (.put messageId rating note version)
  | .delete messageId version => .ok (.inr (.delete messageId version))

namespace FeedbackWrite

/-- The message that is written about. -/
def messageId : FeedbackWrite → String
  | .put messageId .. => messageId
  | .delete messageId _ => messageId

/-- The version token that is held. -/
def version : FeedbackWrite → Option String
  | .put _ _ _ version => version
  | .delete _ version => version

/-- What is done in the lock: the entry that is there then, and the row that is to be written, if one is. -/
def run (write : FeedbackWrite) (row : FeedbackRow) (token : String) :
    Except FeedbackError (Option FeedbackEntry × Option FeedbackRow) :=
  match write with
  | .put messageId rating note version => (row.put messageId rating note version token).map (fun (entry, row) => (some entry, row))
  | .delete messageId version => (row.delete messageId version).map (fun row => (none, row))

end FeedbackWrite

/-- A write that is to be made: it held the version of the entry there is, or none where there is none; it changes that entry only, and its
rating or its note, and gives it the token. -/
theorem FeedbackWrite.run_writes {write : FeedbackWrite} {row row' : FeedbackRow} {token : String} {entry : Option FeedbackEntry}
    (h : write.run row token = .ok (entry, some row')) :
    row'.identity = row.identity ∧ row'.entries.get? write.messageId = entry ∧
      (∀ messageId, messageId ≠ write.messageId → row'.entries.get? messageId = row.entries.get? messageId) ∧
      write.version = (row.entries.get? write.messageId).map FeedbackEntry.version ∧
      (∀ e ∈ row.entries.get? write.messageId, ∀ e' ∈ entry, e.rating ≠ e'.rating ∨ e.note ≠ e'.note) ∧
      ∀ e' ∈ entry, e'.version = token := by
  cases write with
  | put messageId rating note version =>
    simp only [FeedbackWrite.run, FeedbackRow.put] at h
    simp only [FeedbackWrite.messageId, FeedbackWrite.version]
    cases hexisting : row.entries.get? messageId with
    | none =>
      simp only [hexisting] at h
      split at h
      · cases h
      next hversion =>
        cases h
        exact ⟨rfl, by simp, fun other hother => by simp [Dict.get?_set, hother], by simpa using hversion, fun e he => (by cases he),
          fun e' he' => (by cases he'; rfl)⟩
    | some existing =>
      simp only [hexisting] at h
      split at h
      · cases h
      next hversion =>
        split at h
        · cases h
        next hreal =>
          cases h
          refine ⟨rfl, by simp, fun other hother => by simp [Dict.get?_set, hother], by simpa using hversion, fun e he e' he' => ?_,
            fun e' he' => (by cases he'; rfl)⟩
          cases he
          cases he'
          exact Decidable.not_and_iff_or_not.mp hreal
  | delete messageId version =>
    simp only [FeedbackWrite.run, FeedbackRow.delete] at h
    simp only [FeedbackWrite.messageId, FeedbackWrite.version]
    cases hexisting : row.entries.get? messageId with
    | none =>
      simp only [hexisting] at h
      cases h
    | some existing =>
      simp only [hexisting] at h
      split at h
      · cases h
      next hversion =>
        cases h
        exact ⟨rfl, by simp, fun other hother => by simp [Dict.get?_pop, hother], by simpa using hversion,
          fun e he e' he' => (by cases he'), fun e' he' => (by cases he')⟩

/-- What a call gave its caller; `entry` is what there is of the message then. -/
inductive FeedbackAnswer where
  | entry (entry : Option FeedbackEntry)
  | refused (error : FeedbackError)
  | raised

/-- A change of a message's entry, by a call. -/
structure FeedbackChange where
  call : Nat
  messageId : String
  swap : Swap FeedbackEntry String

/-- Where a call is: at the open of the domain, with the rows that were loaded; at the lock; at the write of a row to a domain, with
whether the medium has it; or over. -/
inductive FeedbackPhase where
  | opening (request : FeedbackRequest) (loaded : Option FeedbackTable)
  | locking (write : FeedbackWrite)
  | writing (domain : Nat) (row : FeedbackRow) (change : FeedbackChange) (landed : Bool)
  | done (answer : FeedbackAnswer)

/-- A domain that was opened: its memory, and what it was when it was opened. -/
structure FeedbackDomain where
  opened : FeedbackTable
  memory : FeedbackTable

/-- What is stored; the domains opened so far and `_domain`; who has the lock of the session; the calls; and the changes made so far. -/
structure FeedbackState where
  disk : FeedbackTable
  domains : List FeedbackDomain := []
  current : Option Nat := none
  lock : Option Nat := none
  calls : Nat → Option FeedbackPhase := fun _ => none
  changes : List FeedbackChange := []

/-- What happens: a call begins; its `load_all` reads and its open returns; it gets the lock, with the token it would draw; the medium has
its row, and its write returns; a call is cancelled or raises; and the rows of other sessions, and what is stored, change. -/
inductive FeedbackAction where
  | call (n : Nat) (request : FeedbackRequest)
  | loads (n : Nat)
  | opened (n : Nat)
  | acquire (n : Nat) (token : String)
  | lands (n : Nat)
  | returns (n : Nat)
  | fails (n : Nat)
  | foreign (domain : Nat) (id : String) (row : FeedbackRow)
  | stored (table : FeedbackTable)

namespace FeedbackState

/-- A call comes to a phase. -/
def enter (st : FeedbackState) (n : Nat) (phase : FeedbackPhase) : FeedbackState :=
  { st with calls := Function.update st.calls n (some phase) }

/-- The memory of `_domain`. -/
def memory (st : FeedbackState) : FeedbackTable :=
  match st.current.bind (fun d => st.domains[d]?) with
  | some domain => domain.memory
  | none => .empty

/-- A call once the domain is open, up to its lock. -/
def start (st : FeedbackState) (s : Session) (n : Nat) (request : FeedbackRequest) : FeedbackState :=
  match request.checked with
  | .error e => st.enter n (.done (.refused e))
  | .ok (.inl messageId) => st.enter n (.done (.entry (st.memory.get s messageId)))
  | .ok (.inr write) => st.enter n (.locking write)

/-- A row comes into the memory of a domain. -/
def remember (st : FeedbackState) (d : Nat) (id : String) (row : FeedbackRow) : FeedbackState :=
  { st with domains := st.domains.modify d (fun domain => { domain with memory := domain.memory.set id row }) }

/-- A call in the lock, up to its await. -/
def compare (st : FeedbackState) (s : Session) (n d : Nat) (write : FeedbackWrite) (token : String) : FeedbackState :=
  let row := st.memory.row s
  match write.run row token with
  | .error e => st.enter n (.done (.refused e))
  | .ok (entry, none) => st.enter n (.done (.entry entry))
  | .ok (entry, some row') =>
    let swap : Swap FeedbackEntry String := { given := write.version, before := row.entries.get? write.messageId, after := entry }
    { st.enter n (.writing d row' { call := n, messageId := write.messageId, swap } false) with lock := some n }

/-- One action; `none` where it cannot come. -/
def step (s : Session) (st : FeedbackState) : FeedbackAction → Option FeedbackState
  | .call n request =>
    match st.calls n, st.current with
    | none, none => some (st.enter n (.opening request none))
    | none, some _ => some (st.start s n request)
    | _, _ => none
  | .loads n =>
    match st.calls n with
    | some (.opening request none) => some (st.enter n (.opening request (some st.disk)))
    | _ => none
  | .opened n =>
    match st.calls n with
    | some (.opening request (some loaded)) =>
      some (start { st with
        domains := st.domains ++ [{ opened := loaded, memory := loaded }]
        current := some st.domains.length } s n request)
    | _ => none
  | .acquire n token =>
    match st.calls n, st.lock, st.current with
    | some (.locking write), none, some d => some (st.compare s n d write token)
    | _, _, _ => none
  | .lands n =>
    match st.calls n with
    | some (.writing d row change false) =>
      some { st.enter n (.writing d row change true) with disk := st.disk.set s.id row }
    | _ => none
  | .returns n =>
    match st.calls n with
    | some (.writing d row change true) =>
      some { (st.enter n (.done (.entry change.swap.after))).remember d s.id row with
        lock := none
        changes := st.changes ++ [change] }
    | _ => none
  | .fails n =>
    match st.calls n with
    | some (.writing ..) => some { st.enter n (.done .raised) with lock := none }
    | some (.opening ..) => some (st.enter n (.done .raised))
    | some (.locking _) => some (st.enter n (.done .raised))
    | _ => none
  | .foreign d id row => if id = s.id then none else some (st.remember d id row)
  | .stored table => some { st with disk := table }

/-! ## What is to hold -/

/-- The entry of a message, as a call reads it. -/
def entry (st : FeedbackState) (s : Session) (messageId : String) : Option FeedbackEntry := st.memory.get s messageId

/-- The entry of a message when the domain was opened. -/
def first (st : FeedbackState) (s : Session) (messageId : String) : Option FeedbackEntry :=
  match st.current.bind (fun d => st.domains[d]?) with
  | some domain => domain.opened.get s messageId
  | none => none

/-- The changes of a message. -/
def swaps (st : FeedbackState) (messageId : String) : List (Swap FeedbackEntry String) :=
  (st.changes.filter (fun change => decide (change.messageId = messageId))).map FeedbackChange.swap

/-- Feedback is compare-and-swap: of the changes of a message no two were given one version; a change that was given none found no entry;
each was given the version of what the one before it left; what there is of a message was left by the last one; a change of an entry
changes its rating or its note; and the call of a change is over and returned what it left, so that one that was refused, raised or is
not over made none. -/
structure ComparesAndSwaps (st : FeedbackState) (s : Session) : Prop where
  once : ∀ messageId, (st.swaps messageId).Pairwise (fun swap swap' => ∀ version, swap.given = some version → swap'.given ≠ some version)
  created : ∀ messageId, ∀ swap ∈ st.swaps messageId, swap.given = none → swap.before = none
  seen : ∀ messageId i swap swap', (st.swaps messageId)[i]? = some swap → (st.swaps messageId)[i + 1]? = some swap' →
    swap'.given = swap.after.map FeedbackEntry.version
  left : ∀ messageId, st.entry s messageId = ((st.swaps messageId).getLast?.map Swap.after).getD (st.first s messageId)
  real : ∀ change ∈ st.changes, ∀ e ∈ change.swap.before, ∀ e' ∈ change.swap.after, e.rating ≠ e'.rating ∨ e.note ≠ e'.note
  answered : ∀ change ∈ st.changes, st.calls change.call = some (.done (.entry change.swap.after))

/-- No entry of the session's row, and none that was replaced, has the token; and a domain is opened only while there is none. -/
def Sound (s : Session) (st : FeedbackState) : FeedbackAction → Prop
  | .acquire _ token =>
    (∀ entry ∈ (st.memory.row s).entries.entries, entry.2.version ≠ token) ∧
      ∀ change ∈ st.changes, ∀ e ∈ change.swap.before, e.version ≠ token
  | .opened _ => st.current = none
  | _ => True

/-! ## The invariant -/

/-- A row that is to be written for a change, over the row that there is. -/
structure Pending (row₀ row : FeedbackRow) (change : FeedbackChange) (changes : List FeedbackChange) : Prop where
  identity : row.identity = row₀.identity
  before : change.swap.before = row₀.entries.get? change.messageId
  after : row.entries.get? change.messageId = change.swap.after
  others : ∀ messageId, messageId ≠ change.messageId → row.entries.get? messageId = row₀.entries.get? messageId
  given : change.swap.given = change.swap.before.map FeedbackEntry.version
  real : ∀ e ∈ change.swap.before, ∀ e' ∈ change.swap.after, e.rating ≠ e'.rating ∨ e.note ≠ e'.note
  fresh : ∀ e' ∈ change.swap.after, ∀ old ∈ changes ++ [change], ∀ e ∈ old.swap.before, e.version ≠ e'.version

/-- There is one domain at most, and a write that is awaited has the lock and was compared to what the domain has still. -/
structure Inv (st : FeedbackState) (s : Session) : Prop where
  unopened : st.current = none → st.domains = [] ∧ st.changes = []
  one : ∀ d, st.current = some d → d < st.domains.length
  held : ∀ n d row change landed, st.calls n = some (.writing d row change landed) → st.lock = some n ∧ st.current = some d ∧
    change.call = n ∧ Pending (st.memory.row s) row change st.changes
  chain : ∀ messageId, Swaps FeedbackEntry.version (st.first s messageId) (st.swaps messageId) (st.entry s messageId)
  real : ∀ change ∈ st.changes, ∀ e ∈ change.swap.before, ∀ e' ∈ change.swap.after, e.rating ≠ e'.rating ∨ e.note ≠ e'.note
  answered : ∀ change ∈ st.changes, st.calls change.call = some (.done (.entry change.swap.after))

theorem Inv.start (disk : FeedbackTable) (s : Session) : Inv { disk } s where
  unopened _ := ⟨rfl, rfl⟩
  one _ h := by cases h
  held _ _ _ _ _ h := by cases h
  chain _ := .nil
  real _ h := by cases h
  answered _ h := by cases h

theorem Inv.comparesAndSwaps {st : FeedbackState} {s : Session} (h : st.Inv s) : st.ComparesAndSwaps s where
  once messageId := (h.chain messageId).once
  created messageId swap hswap hnone := by
    have hseen := (h.chain messageId).seen swap hswap
    rw [hnone] at hseen
    exact Option.map_eq_none_iff.mp hseen.symm
  seen messageId i swap swap' hi hi' := by
    rw [(h.chain messageId).seen swap' (List.mem_of_getElem? hi'), (h.chain messageId).linked hi hi']
  left messageId := (h.chain messageId).left
  real := h.real
  answered := h.answered

section Rules

variable {st : FeedbackState} {s : Session}

theorem row_set_self {table : FeedbackTable} {row : FeedbackRow} (h : row.identity = lifetimeIdentity s.header) :
    (FeedbackTable.row (table.set s.id row) s) = row := by
  simp [FeedbackTable.row, h]

theorem row_set_of_ne (table : FeedbackTable) {id : String} (row : FeedbackRow) (h : id ≠ s.id) :
    (FeedbackTable.row (table.set id row) s) = table.row s := by
  simp [FeedbackTable.row, Dict.get?_set, Ne.symm h]

theorem memory_remember {d : Nat} (hd : st.current = some d) (hlt : d < st.domains.length) (id : String) (row : FeedbackRow) :
    (st.remember d id row).memory = st.memory.set id row := by
  simp [memory, remember, hd, List.getElem?_eq_getElem hlt]

theorem row_remember_of_ne {id : String} (h : id ≠ s.id) (d : Nat) (row : FeedbackRow) :
    (st.remember d id row).memory.row s = st.memory.row s := by
  unfold memory remember
  cases hcurrent : st.current with
  | none => rfl
  | some d' =>
    cases hdomain : st.domains[d']? with
    | none =>
      dsimp only [Option.bind]
      rw [List.getElem?_modify, hdomain]
      rfl
    | some domain =>
      by_cases hd : d = d'
      · subst hd
        simp [hdomain, row_set_of_ne _ row h]
      · simp [hdomain, hd]

theorem first_remember (d : Nat) (id : String) (row : FeedbackRow) (messageId : String) :
    (st.remember d id row).first s messageId = st.first s messageId := by
  unfold first remember
  cases hcurrent : st.current with
  | none => rfl
  | some d' =>
    cases hdomain : st.domains[d']? with
    | none =>
      dsimp only [Option.bind]
      rw [List.getElem?_modify, hdomain]
      rfl
    | some domain =>
      by_cases hd : d = d'
      · subst hd
        simp [hdomain]
      · simp [hdomain, hd]

/-- A change is of a call that is over, which a step of another leaves as it is. -/
theorem Inv.answered_enter (h : st.Inv s) {n : Nat} (hlive : ∀ answer, st.calls n ≠ some (.done answer)) (phase : FeedbackPhase)
    {change : FeedbackChange} (hchange : change ∈ st.changes) :
    (st.enter n phase).calls change.call = some (.done (.entry change.swap.after)) := by
  have hdone := h.answered change hchange
  have hne : change.call ≠ n := by
    intro heq
    exact hlive _ (heq ▸ hdone)
  dsimp only [FeedbackState.enter]
  rwa [Function.update_of_ne hne]

theorem Inv.not_writing_enter (h : st.Inv s) {n : Nat} (hlock : st.lock = some n) {phase : FeedbackPhase}
    (hphase : ∀ d row change landed, phase ≠ .writing d row change landed) (m d : Nat) (row : FeedbackRow) (change : FeedbackChange)
    (landed : Bool) : (st.enter n phase).calls m ≠ some (.writing d row change landed) := by
  intro hm
  dsimp only [FeedbackState.enter] at hm
  by_cases hmn : m = n
  · rw [hmn, Function.update_self] at hm
    exact hphase d row change landed (Option.some.inj hm)
  · rw [Function.update_of_ne hmn] at hm
    obtain ⟨hholder, -⟩ := h.held m d row change landed hm
    rw [hlock] at hholder
    exact hmn (Option.some.inj hholder).symm

/-- A call that has no lock, and is not over, comes to a phase in which it awaits no write. -/
theorem Inv.enter (h : st.Inv s) {n : Nat} {phase : FeedbackPhase} (hlive : ∀ answer, st.calls n ≠ some (.done answer))
    (hphase : ∀ d row change landed, phase ≠ .writing d row change landed) : (st.enter n phase).Inv s := by
  refine ⟨h.unopened, h.one, fun m d row change landed hm => ?_, h.chain, h.real, fun change hchange => ?_⟩
  · dsimp only [FeedbackState.enter] at hm
    by_cases hmn : m = n
    · rw [hmn, Function.update_self] at hm
      exact absurd (Option.some.inj hm) (hphase d row change landed)
    · rw [Function.update_of_ne hmn] at hm
      exact h.held m d row change landed hm
  · exact h.answered_enter hlive phase hchange

theorem Inv.started (h : st.Inv s) {n : Nat} (hlive : ∀ answer, st.calls n ≠ some (.done answer)) (request : FeedbackRequest) :
    (st.start s n request).Inv s := by
  unfold FeedbackState.start
  split
  · exact h.enter hlive (fun _ _ _ _ heq => by cases heq)
  · exact h.enter hlive (fun _ _ _ _ heq => by cases heq)
  · exact h.enter hlive (fun _ _ _ _ heq => by cases heq)

theorem Inv.opened (h : st.Inv s) (hnone : st.current = none) (loaded : FeedbackTable) :
    Inv { st with
      domains := st.domains ++ [{ opened := loaded, memory := loaded }]
      current := some st.domains.length } s := by
  obtain ⟨hdomains, hchanges⟩ := h.unopened hnone
  refine ⟨fun heq => (by cases heq), fun d hd => ?_, fun m d row change landed hm => ?_, fun messageId => ?_, h.real, h.answered⟩
  · obtain rfl := Option.some.inj hd
    simp
  · obtain ⟨-, hcurrent, -⟩ := h.held m d row change landed hm
    rw [hnone] at hcurrent
    cases hcurrent
  · have hswaps : FeedbackState.swaps { st with
        domains := st.domains ++ [{ opened := loaded, memory := loaded }]
        current := some st.domains.length } messageId = [] := by simp [FeedbackState.swaps, hchanges]
    rw [hswaps]
    have hentry : FeedbackState.entry { st with
        domains := st.domains ++ [{ opened := loaded, memory := loaded }]
        current := some st.domains.length } s messageId = loaded.get s messageId := by simp [FeedbackState.entry, memory]
    have hfirst : FeedbackState.first { st with
        domains := st.domains ++ [{ opened := loaded, memory := loaded }]
        current := some st.domains.length } s messageId = loaded.get s messageId := by simp [FeedbackState.first]
    rw [hentry, hfirst]
    exact .nil

theorem Inv.compared (h : st.Inv s) {n d : Nat} {write : FeedbackWrite} (hcall : st.calls n = some (.locking write))
    (hlock : st.lock = none) (hcurrent : st.current = some d) {token : String}
    (hnew : ∀ entry ∈ (st.memory.row s).entries.entries, entry.2.version ≠ token)
    (hold : ∀ change ∈ st.changes, ∀ e ∈ change.swap.before, e.version ≠ token) : (st.compare s n d write token).Inv s := by
  have hlive : ∀ answer, st.calls n ≠ some (.done answer) := by
    intro answer heq
    rw [hcall] at heq
    cases heq
  unfold FeedbackState.compare
  dsimp only
  split
  · exact h.enter hlive (fun _ _ _ _ heq => by cases heq)
  · exact h.enter hlive (fun _ _ _ _ heq => by cases heq)
  next entry row' hrun =>
    obtain ⟨hidentity, hafter, hothers, hgiven, hreal, hversion⟩ := FeedbackWrite.run_writes hrun
    refine ⟨h.unopened, h.one, fun m d' row change landed hm => ?_, h.chain, h.real, fun change hchange => ?_⟩
    · dsimp only [FeedbackState.enter] at hm ⊢
      by_cases hmn : m = n
      · rw [hmn, Function.update_self] at hm
        cases hm
        refine ⟨by rw [hmn], hcurrent, hmn.symm, hidentity, rfl, hafter, hothers, hgiven, hreal, fun e' he' old hmem e he => ?_⟩
        rw [hversion e' he']
        rcases List.mem_append.mp hmem with hbefore | hself
        · exact hold old hbefore e he
        · rw [List.mem_singleton.mp hself] at he
          exact hnew _ (Dict.get?_eq_some.mp he)
      · rw [Function.update_of_ne hmn] at hm
        obtain ⟨hholder, -⟩ := h.held m d' row change landed hm
        rw [hlock] at hholder
        cases hholder
    · exact h.answered_enter hlive _ hchange

theorem Inv.returned (h : st.Inv s) {n d : Nat} {row : FeedbackRow} {change : FeedbackChange}
    (hcall : st.calls n = some (.writing d row change true)) :
    Inv { (st.enter n (.done (.entry change.swap.after))).remember d s.id row with
      lock := none
      changes := st.changes ++ [change] } s := by
  obtain ⟨hlock, hcurrent, hn, hpending⟩ := h.held n d row change true hcall
  have hrow : row.identity = lifetimeIdentity s.header := hpending.identity.trans (st.memory.row_cases s).1
  have hremembered : ((st.enter n (.done (.entry change.swap.after))).remember d s.id row).memory = st.memory.set s.id row :=
    memory_remember hcurrent (h.one d hcurrent) s.id row
  have hmemory : FeedbackState.memory { (st.enter n (.done (.entry change.swap.after))).remember d s.id row with
      lock := none
      changes := st.changes ++ [change] } = st.memory.set s.id row := hremembered
  refine ⟨fun hnone => ?_, fun d' hd' => ?_, fun m d' row' change' landed hm => ?_, fun messageId => ?_, fun change' hchange' => ?_,
    fun change' hchange' => ?_⟩
  · have hnone' : st.current = none := hnone
    rw [hcurrent] at hnone'
    cases hnone'
  · have hlt := h.one d' hd'
    simpa [remember, FeedbackState.enter] using hlt
  · exact absurd hm (h.not_writing_enter hlock (fun _ _ _ _ heq => by cases heq) m d' row' change' landed)
  · have hkept : ((st.enter n (.done (.entry change.swap.after))).remember d s.id row).first s messageId = st.first s messageId :=
      first_remember d s.id row messageId
    have hfirst : FeedbackState.first { (st.enter n (.done (.entry change.swap.after))).remember d s.id row with
        lock := none
        changes := st.changes ++ [change] } s messageId = st.first s messageId := hkept
    have hchain := h.chain messageId
    rw [FeedbackState.entry, hmemory, FeedbackTable.get, row_set_self hrow, hfirst]
    by_cases hsame : change.messageId = messageId
    · have hswaps : FeedbackState.swaps { (st.enter n (.done (.entry change.swap.after))).remember d s.id row with
          lock := none
          changes := st.changes ++ [change] } messageId = st.swaps messageId ++ [change.swap] := by
        simp [FeedbackState.swaps, hsame]
      rw [hswaps, ← hsame, hpending.after]
      rw [← hsame, FeedbackState.entry, FeedbackTable.get, ← hpending.before] at hchain
      refine .snoc hchain hpending.given (fun e he old hold => ?_)
      rcases List.mem_append.mp hold with hbefore | hself
      · obtain ⟨other, hother, rfl⟩ := List.mem_map.mp hbefore
        exact hpending.fresh e he other (List.mem_append_left _ (List.mem_of_mem_filter hother))
      · rw [List.mem_singleton.mp hself]
        exact hpending.fresh e he change (List.mem_append_right _ (List.mem_singleton_self _))
    · have hswaps : FeedbackState.swaps { (st.enter n (.done (.entry change.swap.after))).remember d s.id row with
          lock := none
          changes := st.changes ++ [change] } messageId = st.swaps messageId := by
        simp [FeedbackState.swaps, hsame]
      rw [hswaps, hpending.others messageId (Ne.symm hsame)]
      exact hchain
  · rcases List.mem_append.mp hchange' with hold | hnew
    · exact h.real change' hold
    · rw [List.mem_singleton.mp hnew]
      exact hpending.real
  · rcases List.mem_append.mp hchange' with hold | hnew
    · exact h.answered_enter (by simp [hcall]) _ hold
    · dsimp only [FeedbackState.enter, remember]
      rw [List.mem_singleton.mp hnew, hn, Function.update_self]

/-- A call that awaits its write has its row on the medium, or raises. -/
theorem Inv.left_lock (h : st.Inv s) {n d : Nat} {row : FeedbackRow} {change : FeedbackChange} {landed : Bool}
    (hcall : st.calls n = some (.writing d row change landed)) : Inv { st.enter n (.done .raised) with lock := none } s := by
  obtain ⟨hlock, -⟩ := h.held n d row change landed hcall
  refine ⟨h.unopened, h.one, fun m d' row' change' landed' hm => ?_, h.chain, h.real, fun change' hchange' => ?_⟩
  · exact absurd hm (h.not_writing_enter hlock (fun _ _ _ _ heq => by cases heq) m d' row' change' landed')
  · exact h.answered_enter (by simp [hcall]) _ hchange'

theorem Inv.landed (h : st.Inv s) {n d : Nat} {row : FeedbackRow} {change : FeedbackChange}
    (hcall : st.calls n = some (.writing d row change false)) (disk : FeedbackTable) :
    Inv { st.enter n (.writing d row change true) with disk } s := by
  refine ⟨h.unopened, h.one, fun m d' row' change' landed' hm => ?_, h.chain, h.real, fun change' hchange' => ?_⟩
  · dsimp only [FeedbackState.enter] at hm
    by_cases hmn : m = n
    · rw [hmn, Function.update_self] at hm
      cases hm
      exact hmn ▸ h.held n d row change false hcall
    · rw [Function.update_of_ne hmn] at hm
      exact h.held m d' row' change' landed' hm
  · exact h.answered_enter (by simp [hcall]) _ hchange'

theorem Inv.foreign (h : st.Inv s) (d : Nat) {id : String} (hid : id ≠ s.id) (row : FeedbackRow) : (st.remember d id row).Inv s := by
  refine ⟨fun hnone => ?_, fun d' hd' => ?_, fun m d' row' change landed hm => ?_, fun messageId => ?_, h.real, h.answered⟩
  · obtain ⟨hdomains, hchanges⟩ := h.unopened hnone
    exact ⟨by simp [remember, hdomains], hchanges⟩
  · have hlt := h.one d' hd'
    simpa [remember] using hlt
  · rw [row_remember_of_ne hid]
    exact h.held m d' row' change landed hm
  · rw [first_remember, FeedbackState.entry, FeedbackTable.get, row_remember_of_ne hid]
    exact h.chain messageId

theorem Inv.step {st' : FeedbackState} (h : st.Inv s) {a : FeedbackAction} (hsound : st.Sound s a) (hstep : st.step s a = some st') :
    st'.Inv s := by
  cases a with
  | call n request =>
    simp only [FeedbackState.step] at hstep
    split at hstep
    next hcall _ =>
      obtain rfl := Option.some.inj hstep
      exact h.enter (by simp [hcall]) (fun _ _ _ _ heq => by cases heq)
    next hcall _ =>
      obtain rfl := Option.some.inj hstep
      exact h.started (by simp [hcall]) request
    next => cases hstep
  | loads n =>
    simp only [FeedbackState.step] at hstep
    split at hstep
    next hcall =>
      obtain rfl := Option.some.inj hstep
      exact h.enter (by simp [hcall]) (fun _ _ _ _ heq => by cases heq)
    next => cases hstep
  | opened n =>
    simp only [FeedbackState.step] at hstep
    split at hstep
    next request loaded hcall =>
      obtain rfl := Option.some.inj hstep
      exact (h.opened hsound loaded).started (by simp [hcall]) request
    next => cases hstep
  | acquire n token =>
    simp only [FeedbackState.step] at hstep
    split at hstep
    next hcall hlock hcurrent =>
      obtain rfl := Option.some.inj hstep
      exact h.compared hcall hlock hcurrent hsound.1 hsound.2
    next => cases hstep
  | lands n =>
    simp only [FeedbackState.step] at hstep
    split at hstep
    next hcall =>
      obtain rfl := Option.some.inj hstep
      exact h.landed hcall _
    next => cases hstep
  | returns n =>
    simp only [FeedbackState.step] at hstep
    split at hstep
    next hcall =>
      obtain rfl := Option.some.inj hstep
      exact h.returned hcall
    next => cases hstep
  | fails n =>
    simp only [FeedbackState.step] at hstep
    split at hstep
    next hcall =>
      obtain rfl := Option.some.inj hstep
      exact h.left_lock hcall
    next hcall =>
      obtain rfl := Option.some.inj hstep
      exact h.enter (by simp [hcall]) (fun _ _ _ _ heq => by cases heq)
    next hcall =>
      obtain rfl := Option.some.inj hstep
      exact h.enter (by simp [hcall]) (fun _ _ _ _ heq => by cases heq)
    next => cases hstep
  | foreign d id row =>
    simp only [FeedbackState.step] at hstep
    split at hstep
    next => cases hstep
    next hid =>
      obtain rfl := Option.some.inj hstep
      exact h.foreign d hid row
  | stored table =>
    obtain rfl := Option.some.inj hstep
    exact ⟨h.unopened, h.one, h.held, h.chain, h.real, h.answered⟩

end Rules

end FeedbackState

open FeedbackState

/-- In every run in which no token is drawn twice and a domain is opened only while there is none, feedback is compare-and-swap. -/
theorem feedback_swaps {s : Session} {disk : FeedbackTable} {st : FeedbackState}
    (h : Machine.Reach (FeedbackState.step s) (Sound s) { disk } st) : st.ComparesAndSwaps s := by
  have hinv : st.Inv s := h.invariant (P := fun st => Inv st s) (.start disk s) (fun _ _ _ hinv hsound hstep => hinv.step hsound hstep)
  exact hinv.comparesAndSwaps

namespace FeedbackRuns

/-- A session. -/
def chat : Session := .new "chat-1" { id := "chat-1", createdAt := 0, cwd := none }

/-- Two creates without a token, the second begun before the first is written. -/
def up : FeedbackRequest := .put "m1" (.str "up") .none none

def down : FeedbackRequest := .put "m1" (.str "down") .none none

end FeedbackRuns

open FeedbackRuns in
/-- Of two creates one is refused. -/
theorem feedback_swaps_two : ∃ st, Machine.Reach (FeedbackState.step chat) (Sound chat) { disk := .empty } st ∧
    (st.entry chat "m1").map FeedbackEntry.version = some "0a1b" ∧ st.ComparesAndSwaps chat := by
  have hreach : ∃ st, Machine.Reach (FeedbackState.step chat) (Sound chat) { disk := .empty } st ∧
      (st.entry chat "m1").map FeedbackEntry.version = some "0a1b" :=
    ⟨_, .next (.acquire 1 "2c3d") (.next (.returns 0) (.next (.lands 0) (.next (.acquire 0 "0a1b") (.next (.call 1 down)
      (.next (.opened 0) (.next (.loads 0) (.next (.call 0 up) .start trivial rfl) trivial rfl) rfl rfl) trivial rfl)
      ⟨fun _ h => (by cases h), fun _ h => (by cases h)⟩ rfl) trivial rfl) trivial rfl)
      ⟨by decide, by decide⟩ rfl, rfl⟩
  obtain ⟨st, hst, hentry⟩ := hreach
  exact ⟨st, hst, hentry, feedback_swaps hst⟩

open FeedbackRuns in
/-- Two first calls that overlap: the second create succeeds over the entry that the first one made. -/
theorem not_feedback_swaps : ∃ st, Machine.Reach (FeedbackState.step chat) Machine.anyStep { disk := .empty } st ∧
    ¬st.ComparesAndSwaps chat := by
  have hrun : ∃ st, Machine.exec (FeedbackState.step chat) { disk := .empty } [.call 0 up, .call 1 down, .loads 0, .loads 1, .opened 0,
      .acquire 0 "0a1b", .lands 0, .returns 0, .opened 1, .acquire 1 "2c3d", .lands 1, .returns 1] = some st ∧
      ((st.swaps "m1").map (fun swap => (swap.given, swap.after.map FeedbackEntry.version))) =
        [(none, some "0a1b"), (none, some "2c3d")] := ⟨_, rfl, rfl⟩
  obtain ⟨st, hst, hswaps⟩ := hrun
  refine ⟨st, Machine.Reach.start.exec hst, fun hlaw => ?_⟩
  obtain ⟨first, rest, hfirst, hmade, hrest⟩ := List.map_eq_cons_iff.mp hswaps
  obtain ⟨second, rest', hsecond, hmade', -⟩ := List.map_eq_cons_iff.mp hrest
  have hseen := hlaw.seen "m1" 0 first second (by simp [hfirst]) (by simp [hfirst, hsecond])
  simp only [Prod.mk.injEq] at hmade hmade'
  rw [hmade'.1, hmade.2] at hseen
  cases hseen

end Pydsh
