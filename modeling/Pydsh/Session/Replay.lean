import Pydsh.Session.Append
import Mathlib.Data.List.Range

/-!
# The log alone gives the session back

`append` and `_seed` rebuild the surface on two paths: one from the arguments of a live call, the other from the operation a
stored event carries. They agree step by step (`append_ok_seed`), so replaying the log of a session whose appends all returned
gives exactly that session (`replay_eq_live`), whatever chain of replacements its surface went through.

`WellFormed` is what every session keeps, raising appends included: the seqs of the log are `1, ..., seq`, and the surface is a
list of distinct nodes, each the seq of a surface event of the log.
-/

namespace Pydsh

/-! ## Replaying what an append wrote -/

/-- An append that returned is replayed to the same session: the stored event carries all that the call did. -/
theorem append_ok_seed {s s' : Session} {c : AppendCall} {e : SessionEvent} (h : s.append c = (.ok e, s')) :
    s.seed e = .ok s' := by
  have hmax : max s.seq (s.seq + 1) = s.seq + 1 := by omega
  obtain ⟨j, hj, rfl, ⟨hr, rfl⟩ | ⟨hr, first, last, hrun, rfl⟩⟩ := append_ok_cases h
  · have hop : (c.event s j).surfaceOp.isReplace = false := by
      simp only [AppendCall.event]
      split
      · exact hr
      · rfl
    simp only [Session.seed, hop, AppendCall.event_type, AppendCall.event_seq, hmax, Bool.false_eq_true, if_false,
      Session.addEvent]
    by_cases ht : c.eventType.isSurface = true <;> simp [ht, Session.commit]
  · have hop : (c.event s j).surfaceOp = c.surfaceOp := by simp [AppendCall.event, hj.surface hr]
    simp only [Session.seed, hop, hr, AppendCall.event_seq, hmax, if_true]
    exact applyReplaceOp_of_namesRun (s.commit (c.event s j)) hrun (s.seq + 1)

@[simp] theorem Session.addEvent_seq (s : Session) (e : SessionEvent) : (s.addEvent e).seq = s.seq + 1 := by
  unfold Session.addEvent
  split <;> rfl

/-- An append that returned put its event, and only it, at the end of the log, and left id and header alone. -/
theorem append_ok_events {s s' : Session} {c : AppendCall} {e : SessionEvent} (h : s.append c = (.ok e, s')) :
    s'.events = s.events ++ [e] ∧ s'.id = s.id ∧ s'.header = s.header := by
  obtain ⟨j, -, rfl, ⟨-, rfl⟩ | ⟨-, first, last, -, rfl⟩⟩ := append_ok_cases h
  · unfold Session.addEvent
    split <;> exact ⟨rfl, rfl, rfl⟩
  · exact ⟨rfl, rfl, rfl⟩

/-- Replaying the session's log on the empty session with its id and header gives the session. -/
def Session.Replays (s : Session) : Prop := (Session.new s.id s.header).seedAll s.events = .ok s

theorem Session.replays_new (id : String) (header : SessionHeader) : (Session.new id header).Replays := rfl

/-- A session that replays still does after an append that returned. -/
theorem Session.Replays.append {s s' : Session} (hs : s.Replays) {c : AppendCall} {e : SessionEvent}
    (h : s.append c = (.ok e, s')) : s'.Replays := by
  obtain ⟨hev, hid, hh⟩ := append_ok_events h
  unfold Session.Replays at hs ⊢
  rw [hev, hid, hh, seedAll_append, hs]
  simp only [Except.bind, Session.seedAll, append_ok_seed h, bind]

/-- The session under another id. -/
def Session.withId (s : Session) (id : String) : Session := { s with id }

/-- The session under another id and with another header. -/
def Session.named (s : Session) (id : String) (header : SessionHeader) : Session := { s with id, header }

theorem seed_named (s : Session) (id : String) (header : SessionHeader) (e : SessionEvent) :
    (s.named id header).seed e = (s.seed e).map (fun s' => s'.named id header) := by
  unfold Session.seed
  split
  · unfold Session.applyReplaceOp
    split
    · rfl
    · split
      · rfl
      · simp only [Session.applySurfaceReplace, Session.named]
        split
        · split <;> rfl
        · rfl
        · rfl
  · split <;> rfl

theorem seedAll_named (s : Session) (id : String) (header : SessionHeader) (es : List SessionEvent) :
    (s.named id header).seedAll es = (s.seedAll es).map (fun s' => s'.named id header) := by
  induction es generalizing s with
  | nil => rfl
  | cons e es ih =>
    simp only [Session.seedAll, seed_named]
    cases s.seed e with
    | error err => rfl
    | ok s' => exact ih s'

theorem messagesAt_withId (s : Session) (id : String) (seqs : List Nat) :
    (s.withId id).messagesAt seqs = s.messagesAt seqs := by
  induction seqs with
  | nil => rfl
  | cons seq seqs ih =>
    have heq : (s.withId id).eventAt seq = s.eventAt seq := rfl
    simp only [Session.messagesAt, ih, heq]

/-- `from_json` of a session that replays is the session, under the id its header names. -/
theorem Session.Replays.fromJson {s : Session} (hs : s.Replays) :
    Session.fromJson s.toJson = .ok (s.withId s.header.id) := by
  have h := seedAll_named (Session.new s.id s.header) s.header.id s.header s.events
  rw [hs] at h
  exact h

/-- What a seed that returned did: its event is at the end of the log, the seq covers it, id and header are the same. -/
theorem seed_ok {s s' : Session} {e : SessionEvent} (h : s.seed e = .ok s') :
    s'.events = s.events ++ [e] ∧ s'.seq = max s.seq e.seq ∧ s'.id = s.id ∧ s'.header = s.header := by
  unfold Session.seed at h
  split at h
  · unfold Session.applyReplaceOp at h
    split at h
    · cases h
    · split at h
      · cases h
      · simp only [Session.applySurfaceReplace] at h
        split at h
        · split at h <;> cases h
          exact ⟨rfl, rfl, rfl, rfl⟩
        · cases h
        · cases h
  · split at h <;> cases h <;> exact ⟨rfl, rfl, rfl, rfl⟩

/-- What a replay that returned did: its events are at the end of the log, the seq covers them, id and header are the same. -/
theorem seedAll_ok {s s' : Session} {es : List SessionEvent} (h : s.seedAll es = .ok s') :
    s'.events = s.events ++ es ∧ s.seq ≤ s'.seq ∧ (∀ e ∈ es, e.seq ≤ s'.seq) ∧ s'.id = s.id ∧ s'.header = s.header := by
  induction es generalizing s with
  | nil =>
    cases h
    exact ⟨(List.append_nil _).symm, Nat.le_refl _, by simp, rfl, rfl⟩
  | cons e es ih =>
    unfold Session.seedAll at h
    cases hseed : s.seed e with
    | error err => rw [hseed] at h; cases h
    | ok s₁ =>
      rw [hseed] at h
      obtain ⟨hev, hseq, hid, hh⟩ := seed_ok hseed
      obtain ⟨hev', hle, hes, hid', hh'⟩ := ih h
      refine ⟨by rw [hev', hev, List.append_assoc, List.singleton_append], by omega, ?_, hid'.trans hid, hh'.trans hh⟩
      intro e' he'
      rcases List.mem_cons.mp he' with rfl | he'
      · omega
      · exact hes e' he'

/-- An append that raised with its event in the log left an event that cannot be replayed. -/
theorem seed_of_replacesNoRun {s : Session} {c : AppendCall} {j : Json} (hj : c.Admits j) (h : c.ReplacesNoRun s) :
    ∃ e, s.seed (c.event s j) = .error e := by
  obtain ⟨hr, -, hno⟩ := h
  have hop : (c.event s j).surfaceOp = c.surfaceOp := by simp [AppendCall.event, hj.surface hr]
  have hmax : max s.seq (s.seq + 1) = s.seq + 1 := by omega
  obtain ⟨e, he⟩ := applyReplaceOp_of_not_namesRun (s.commit (c.event s j)) hno (s.seq + 1)
  refine ⟨e, ?_⟩
  simp only [Session.seed, hop, hr, AppendCall.event_seq, hmax, if_true]
  exact he

/-! ## What every session keeps -/

/-- The seqs of the log are `1, ..., seq`; the surface holds distinct nodes, each the seq of a surface event of the log. -/
structure Session.WellFormed (s : Session) : Prop where
  dense : s.events.map (·.seq) = List.range' 1 s.seq
  nodup : s.surfaceNodes.Nodup
  surface : ∀ n ∈ s.surfaceNodes, ∃ e ∈ s.events, e.seq = n ∧ e.type.isSurface = true

namespace Session.WellFormed

variable {s : Session}

theorem new (id : String) (header : SessionHeader) : (Session.new id header).WellFormed :=
  ⟨rfl, List.nodup_nil, by simp [Session.new]⟩

theorem seq_mem (h : s.WellFormed) {n : Nat} : n ∈ s.events.map (·.seq) ↔ 1 ≤ n ∧ n ≤ s.seq := by
  rw [h.dense, List.mem_range'_1]
  omega

theorem surface_le (h : s.WellFormed) {n : Nat} (hn : n ∈ s.surfaceNodes) : 1 ≤ n ∧ n ≤ s.seq := by
  obtain ⟨e, he, rfl, -⟩ := h.surface n hn
  exact h.seq_mem.mp (List.mem_map_of_mem he)

theorem next_not_mem (h : s.WellFormed) : s.seq + 1 ∉ s.surfaceNodes := by
  intro hn
  have := (h.surface_le hn).2
  omega

theorem commit (h : s.WellFormed) {e : SessionEvent} (he : e.seq = s.seq + 1) : (s.commit e).WellFormed := by
  refine ⟨?_, h.nodup, ?_⟩
  · simp only [Session.commit_events, Session.commit_seq, List.map_append, h.dense, List.map_cons, List.map_nil, he]
    rw [List.range'_concat]
    simp [Nat.add_comm]
  · intro n hn
    obtain ⟨e', he', hrest⟩ := h.surface n hn
    exact ⟨e', by simp [he'], hrest⟩

/-- A node at the end of the surface, for a surface event of the log that has none yet. -/
theorem addNode (h : s.WellFormed) {e : SessionEvent} (he : e ∈ s.events) (ht : e.type.isSurface = true)
    (hnew : e.seq ∉ s.surfaceNodes) : { s with surfaceNodes := s.surfaceNodes ++ [e.seq] }.WellFormed := by
  refine ⟨h.dense, ?_, ?_⟩
  · simpa [List.nodup_append] using ⟨h.nodup, fun a ha hae => hnew (hae ▸ ha)⟩
  · intro n hn
    rcases List.mem_append.mp hn with hn | hn
    · exact h.surface n hn
    · exact ⟨e, he, (List.mem_singleton.mp hn).symm, ht⟩

/-- A run of the surface replaced by a surface event of the log that has no node yet. -/
theorem replace (h : s.WellFormed) {first last : Nat} (hle : first ≤ last) {e : SessionEvent} (he : e ∈ s.events)
    (ht : e.type.isSurface = true) (hnew : e.seq ∉ s.surfaceNodes) (gen : Nat) (reps : List Replacement) :
    { s with
      surfaceNodes := Splice.splice s.surfaceNodes first last e.seq
      replaceGeneration := gen
      replacements := reps }.WellFormed := by
  refine ⟨h.dense, Splice.nodup_splice hle h.nodup hnew, ?_⟩
  intro n hn
  rcases Splice.mem_of_mem_splice hn with rfl | hn
  · exact ⟨e, he, rfl, ht⟩
  · exact h.surface n hn

/-- Every append keeps a session well-formed, whether it returns or raises. -/
theorem append (h : s.WellFormed) (c : AppendCall) : (s.append c).2.WellFormed := by
  rcases append_cases s c with ⟨-, e, happ⟩ | ⟨j, -, -, happ⟩ | ⟨j, first, last, hj, hr, hrun, happ⟩ | ⟨j, e, -, -, happ⟩
  · rw [happ]
    exact h
  · rw [happ]
    have hc : (s.commit (c.event s j)).WellFormed := h.commit rfl
    unfold Session.addEvent
    split
    · rename_i ht
      exact hc.addNode (by simp) ht h.next_not_mem
    · exact hc
  · rw [happ]
    have hc : (s.commit (c.event s j)).WellFormed := h.commit rfl
    obtain ⟨-, -, -, -, -, -, hle⟩ := hrun
    exact hc.replace hle (by simp) (hj.surface hr) h.next_not_mem _ _
  · rw [happ]
    exact h.commit rfl

end Session.WellFormed

theorem Session.Reachable.wellFormed {s : Session} (h : s.Reachable) : s.WellFormed := by
  induction h with
  | new id header => exact .new id header
  | append c _ ih => exact ih.append c

/-! ## Increasing seqs -/

/-- The seqs of the log increase, and none is above the session's. It holds of a session whose log has gaps, too. -/
structure Session.Increasing (s : Session) : Prop where
  increasing : s.events.Pairwise (fun x y => x.seq < y.seq)
  bounded : ∀ e ∈ s.events, e.seq ≤ s.seq

namespace Session.Increasing

variable {s s' : Session}

theorem new (id : String) (header : SessionHeader) : (Session.new id header).Increasing :=
  ⟨List.Pairwise.nil, by simp [Session.new]⟩

theorem addEvent (h : s.Increasing) {e : SessionEvent} (hev : s'.events = s.events ++ [e]) (he : e.seq = s.seq + 1)
    (hseq : s'.seq = s.seq + 1) : s'.Increasing := by
  refine ⟨?_, ?_⟩
  · rw [hev, List.pairwise_append]
    refine ⟨h.increasing, List.pairwise_singleton _ _, ?_⟩
    intro x hx y hy
    rw [List.mem_singleton.mp hy, he]
    have := h.bounded x hx
    omega
  · intro x hx
    rw [hev] at hx
    rcases List.mem_append.mp hx with hx | hx
    · have := h.bounded x hx
      omega
    · rw [List.mem_singleton.mp hx]
      omega

theorem event_unique (h : s.Increasing) {e e' : SessionEvent} (he : e ∈ s.events) (he' : e' ∈ s.events)
    (hseq : e.seq = e'.seq) : e = e' := by
  have hnodup : (s.events.map (·.seq)).Nodup := (List.pairwise_map.mpr h.increasing).imp Nat.ne_of_lt
  exact List.inj_on_of_nodup_map hnodup he he' hseq

theorem seqs_nodup (h : s.Increasing) {events : List SessionEvent} (hsub : events.Sublist s.events) :
    (events.map (·.seq)).Nodup :=
  ((List.pairwise_map.mpr h.increasing).imp Nat.ne_of_lt).sublist (hsub.map _)

end Session.Increasing

/-- What a call of `append` leaves of a session, whether it returns or raises: the same log, or one more event with the next
seq; and the same id and header. -/
theorem append_log (s : Session) (c : AppendCall) : (s.append c).2 = s ∨ ∃ e, (s.append c).2.events = s.events ++ [e] ∧
    e.seq = s.seq + 1 ∧ (s.append c).2.seq = s.seq + 1 ∧ (s.append c).2.id = s.id ∧ (s.append c).2.header = s.header := by
  rcases append_cases s c with ⟨-, e, happ⟩ | ⟨j, -, -, happ⟩ | ⟨j, first, last, -, -, -, happ⟩ | ⟨j, e, -, -, happ⟩
  · rw [happ]
    exact Or.inl rfl
  · obtain ⟨hev, hid, hh⟩ := append_ok_events happ
    rw [happ]
    exact Or.inr ⟨_, hev, rfl, Session.addEvent_seq s _, hid, hh⟩
  · obtain ⟨hev, hid, hh⟩ := append_ok_events happ
    rw [happ]
    exact Or.inr ⟨_, hev, rfl, rfl, hid, hh⟩
  · rw [happ]
    exact Or.inr ⟨c.event s j, rfl, rfl, rfl, rfl, rfl⟩

theorem Session.Increasing.append {s : Session} (h : s.Increasing) (c : AppendCall) : (s.append c).2.Increasing := by
  rcases append_log s c with heq | ⟨e, hev, he, hseq, -⟩
  · rw [heq]
    exact h
  · exact h.addEvent hev he hseq

/-! ## Runs of appends that returned -/

/-- The second session comes from the first by calls of `append` that all returned, each with an event that satisfies `P`. -/
inductive Session.Grows (P : SessionEvent → Prop) (s : Session) : Session → Prop where
  | refl : Session.Grows P s s
  | append {s₁ s₂ : Session} {c : AppendCall} {e : SessionEvent} : Session.Grows P s s₁ → s₁.append c = (.ok e, s₂) → P e →
      Session.Grows P s s₂

namespace Session.Grows

variable {P Q : SessionEvent → Prop} {s s₁ s₂ : Session}

theorem trans (h₁ : Session.Grows P s s₁) (h₂ : Session.Grows P s₁ s₂) : Session.Grows P s s₂ := by
  induction h₂ with
  | refl => exact h₁
  | append _ happ he ih => exact .append ih happ he

theorem replays (h : Session.Grows P s s₁) (hs : s.Replays) : s₁.Replays := by
  induction h with
  | refl => exact hs
  | append _ happ _ ih => exact ih.append happ

theorem wellFormed (h : Session.Grows P s s₁) (hs : s.WellFormed) : s₁.WellFormed := by
  induction h with
  | refl => exact hs
  | @append s₁ s₂ c e _ happ _ ih =>
    have h' := ih.append c
    rwa [happ] at h'

/-- The log is the old one with events that satisfy `P` after it. -/
theorem events (h : Session.Grows P s s₁) : ∃ es, s₁.events = s.events ++ es ∧ ∀ e ∈ es, P e := by
  induction h with
  | refl => exact ⟨[], by simp, by simp⟩
  | append _ happ he ih =>
    obtain ⟨es, hes, hP⟩ := ih
    refine ⟨es ++ [_], by rw [(append_ok_events happ).1, hes, List.append_assoc], ?_⟩
    intro e' he'
    rcases List.mem_append.mp he' with he' | he'
    · exact hP e' he'
    · rw [List.mem_singleton.mp he']
      exact he

end Session.Grows

theorem Session.WellFormed.seq_le {P : SessionEvent → Prop} {s s' : Session} (hs : s.WellFormed) (hs' : s'.WellFormed)
    (h : s.Grows P s') : s.seq ≤ s'.seq := by
  obtain ⟨es, hevents, -⟩ := h.events
  have hbefore := congrArg List.length hs.dense
  have hafter := congrArg List.length hs'.dense
  rw [List.length_map, List.length_range'] at hbefore hafter
  rw [hevents, List.length_append] at hafter
  omega

/-! ## Replay equals live -/

/-- Some calls of `append` in order, stopped at the first that raises. -/
def Session.runAppends (s : Session) : List AppendCall → Except SessionError Session
  | [] => .ok s
  | c :: cs =>
    match s.append c with
    | (.error e, _) => .error e
    | (.ok _, s') => s'.runAppends cs

/-- A property of sessions that every append that returns keeps holds after a run of them. -/
theorem Session.runAppends_induct {P : Session → Prop}
    (step : ∀ s c e s', P s → s.append c = (.ok e, s') → P s') {s s' : Session} (hs : P s) {cs : List AppendCall}
    (h : s.runAppends cs = .ok s') : P s' := by
  induction cs generalizing s with
  | nil => cases h; exact hs
  | cons c cs ih =>
    unfold Session.runAppends at h
    split at h
    · cases h
    · rename_i e s₁ happ
      exact ih (step s c e s₁ hs happ) h

/-- Replay equals live: after any calls of `append` that all returned, loading the session's snapshot gives a session with the
same events, with seqs `1, ..., n`, the same surface, generation and replacement record, and the same derived messages. -/
theorem replay_eq_live (id : String) (header : SessionHeader) (cs : List AppendCall) (s : Session)
    (h : (Session.new id header).runAppends cs = .ok s) :
    ∃ s', Session.fromJson s.toJson = .ok s' ∧ s'.events = s.events ∧ s'.seq = s.seq ∧
      s'.events.map (·.seq) = List.range' 1 s.events.length ∧ s'.surfaceNodes = s.surfaceNodes ∧
      s'.replaceGeneration = s.replaceGeneration ∧ s'.replacements = s.replacements ∧
      s'.deriveMessages = s.deriveMessages := by
  have hrep : s.Replays := Session.runAppends_induct (P := Session.Replays) (fun _ _ _ _ hs happ => hs.append happ)
    (Session.replays_new id header) h
  have hwf : s.WellFormed := Session.runAppends_induct (P := Session.WellFormed)
    (fun s c e s' hs happ => by simpa [happ] using hs.append c) (.new id header) h
  have hlen : s.events.length = s.seq := by
    have := congrArg List.length hwf.dense
    simpa using this
  refine ⟨_, hrep.fromJson, rfl, rfl, ?_, rfl, rfl, rfl, ?_⟩
  · rw [hlen]
    exact hwf.dense
  · exact messagesAt_withId s s.header.id s.surfaceNodes

namespace ReplayChain

/-- A message of a user. -/
def say (id text : String) : AppendCall :=
  { eventType := .userMessage, data := (createUserMessage id [.text text]).toJson.loads }

/-- A summary that takes the place of a run of the surface. -/
def summarise (id : String) (start stop : Nat) : AppendCall :=
  { say id "a summary" with surfaceOp := .replace start stop, sourceEventSeqs := [start, stop] }

/-- Messages 1 to 3; 4 replaces 1 to 2; 5 is log-only; message 6; and 7 replaces the run from the replacement node 4 to 6. -/
def calls : List AppendCall :=
  [say "m1" "one", say "m2" "two", say "m3" "three", summarise "m4" 1 2,
    { eventType := .turnStart, data := (Json.obj []).loads }, say "m6" "six", summarise "m7" 4 6]

/-- The session the calls make. -/
def live : Session :=
  (calls.foldl (fun s c => (s.append c).2) (Session.new "chat-1" { id := "chat-1" }))

end ReplayChain

open ReplayChain in
theorem replay_eq_live_chain : live.surfaceNodes = [7] ∧ live.replacements = [⟨4, [1, 2]⟩, ⟨7, [4, 3, 6]⟩] ∧
    ∃ s', Session.fromJson live.toJson = .ok s' ∧ s'.events = live.events ∧ s'.seq = live.seq ∧
      s'.events.map (·.seq) = List.range' 1 live.events.length ∧ s'.surfaceNodes = live.surfaceNodes ∧
      s'.replaceGeneration = live.replaceGeneration ∧ s'.replacements = live.replacements ∧
      s'.deriveMessages = live.deriveMessages :=
  ⟨rfl, rfl, replay_eq_live "chat-1" { id := "chat-1" } calls live rfl⟩

end Pydsh
