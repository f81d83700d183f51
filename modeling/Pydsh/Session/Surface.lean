import Pydsh.Session.Pairing

/-!
# What appends add to the surface

`Adds log` says that a session grew by some events, each surface event of them at the end of the surface; `Tells entries` says
it by the messages these events carry. What a session derives and whether its surface is balanced after that follow from what
they were before, and from the entries alone (`Tells.deriveMessages`, `Tells.balanced`).
-/

namespace Pydsh

/-! ## Growing sessions -/

/-- No node of the surface is above the seq of the session. -/
def Session.Tidy (s : Session) : Prop := ∀ n ∈ s.surfaceNodes, n ≤ s.seq

theorem Session.WellFormed.tidy {s : Session} (hs : s.WellFormed) : s.Tidy := fun _ hn => (hs.surface_le hn).2

theorem Session.Tidy.append {s : Session} (hs : s.Tidy) (c : AppendCall) : (s.append c).2.Tidy := by
  rcases append_cases s c with ⟨-, e, happ⟩ | ⟨j, -, -, happ⟩ | ⟨j, first, last, -, -, -, happ⟩ | ⟨j, e, -, -, happ⟩
  · rw [happ]
    exact hs
  · rw [happ]
    intro n hn
    have hnode : n ∈ s.surfaceNodes ∨ n = s.seq + 1 := by
      unfold Session.addEvent at hn
      split at hn
      · simpa using hn
      · exact Or.inl hn
    rw [Session.addEvent_seq]
    rcases hnode with hnode | rfl
    · exact Nat.le_succ_of_le (hs n hnode)
    · exact Nat.le_refl _
  · rw [happ]
    intro n hn
    rcases Splice.mem_of_mem_splice hn with rfl | hn
    · exact Nat.le_refl _
    · exact Nat.le_succ_of_le (hs n hn)
  · rw [happ]
    exact fun n hn => Nat.le_succ_of_le (hs n hn)

theorem Session.Tidy.seed {s s' : Session} (hs : s.Tidy) {e : SessionEvent} (h : s.seed e = .ok s') : s'.Tidy := by
  have hseq : s'.seq = max s.seq e.seq := (seed_ok h).2.1
  intro n hn
  have hnode : n ∈ s.surfaceNodes ∨ n = e.seq := by
    unfold Session.seed at h
    split at h
    · unfold Session.applyReplaceOp at h
      split at h
      · cases h
      · split at h
        · cases h
        · simp only [Session.applySurfaceReplace] at h
          split at h
          · split at h <;> cases h
            exact (Splice.mem_of_mem_splice hn).symm
          · cases h
          · cases h
    · split at h <;> cases h
      · simpa using hn
      · exact Or.inl hn
  rcases hnode with hnode | rfl
  · have := hs n hnode
    omega
  · omega

theorem Session.Tidy.seedAll {s s' : Session} (hs : s.Tidy) {es : List SessionEvent} (h : s.seedAll es = .ok s') :
    s'.Tidy := by
  induction es generalizing s with
  | nil =>
    cases h
    exact hs
  | cons e es ih =>
    unfold Session.seedAll at h
    cases hseed : s.seed e with
    | error err => rw [hseed] at h; cases h
    | ok s₁ =>
      rw [hseed] at h
      exact ih (hs.seed hseed) h

/-- The second session is the first with some events at the end of its log, the surface events of them at the end of its
surface. -/
structure Session.Adds (s s' : Session) (log : List SessionEvent) : Prop where
  events : s'.events = s.events ++ log
  surface : s'.surfaceNodes = s.surfaceNodes ++ (log.filter (fun e => e.type.isSurface)).map (·.seq)
  increasing : log.Pairwise (fun x y => x.seq < y.seq)
  above : ∀ e ∈ log, s.seq < e.seq ∧ e.seq ≤ s'.seq
  seq : s.seq ≤ s'.seq

namespace Session.Adds

variable {s s₁ s₂ s' : Session} {log log₁ log₂ : List SessionEvent}

theorem refl (s : Session) : s.Adds s [] :=
  ⟨by simp, by simp, .nil, by simp, Nat.le_refl _⟩

theorem trans (h₁ : s.Adds s₁ log₁) (h₂ : s₁.Adds s₂ log₂) : s.Adds s₂ (log₁ ++ log₂) := by
  refine ⟨?_, ?_, ?_, ?_, Nat.le_trans h₁.seq h₂.seq⟩
  · rw [h₂.events, h₁.events, List.append_assoc]
  · rw [h₂.surface, h₁.surface, List.filter_append, List.map_append, List.append_assoc]
  · rw [List.pairwise_append]
    refine ⟨h₁.increasing, h₂.increasing, fun x hx y hy => ?_⟩
    exact Nat.lt_of_le_of_lt (h₁.above x hx).2 (h₂.above y hy).1
  · intro e he
    have hseq₁ := h₁.seq
    have hseq₂ := h₂.seq
    rcases List.mem_append.mp he with he | he
    · have := h₁.above e he
      omega
    · have := h₂.above e he
      omega

theorem addEvent (s : Session) {e : SessionEvent} (he : e.seq = s.seq + 1) : s.Adds (s.addEvent e) [e] := by
  refine ⟨by simp, ?_, List.pairwise_singleton _ _, ?_, by simp⟩
  · unfold Session.addEvent
    by_cases ht : e.type.isSurface = true <;> simp [ht]
  · intro x hx
    rw [List.mem_singleton.mp hx, Session.addEvent_seq, he]
    omega

theorem eventAt_old (h : s.Adds s' log) {n : Nat} (hn : n ≤ s.seq) : s'.eventAt n = s.eventAt n := by
  have hnone : log.reverse.find? (fun e => e.seq == n) = none := by
    rw [List.find?_eq_none]
    intro e he hseq
    have habove := (h.above e (List.mem_reverse.mp he)).1
    have : e.seq = n := by simpa using hseq
    omega
  unfold Session.eventAt
  rw [h.events, List.reverse_append, List.find?_append, hnone, Option.none_or]

theorem eventAt_new (h : s.Adds s' log) {e : SessionEvent} (he : e ∈ log) : s'.eventAt e.seq = some e := by
  have hfound : log.reverse.find? (fun x => x.seq == e.seq) = some e := by
    cases hfind : log.reverse.find? (fun x => x.seq == e.seq) with
    | none =>
      have := List.find?_eq_none.mp hfind e (List.mem_reverse.mpr he)
      simp at this
    | some x =>
      have hx : x ∈ log := List.mem_reverse.mp (List.mem_of_find?_eq_some hfind)
      have hseq : x.seq = e.seq := by simpa using List.find?_some hfind
      have hnodup : (log.map (·.seq)).Nodup := (List.pairwise_map.mpr h.increasing).imp Nat.ne_of_lt
      rw [List.inj_on_of_nodup_map hnodup hx he hseq]
  unfold Session.eventAt
  rw [h.events, List.reverse_append, List.find?_append, hfound, Option.some_or]

theorem tidy (h : s.Adds s' log) (hs : s.Tidy) : s'.Tidy := by
  intro n hn
  rw [h.surface] at hn
  rcases List.mem_append.mp hn with hn | hn
  · exact Nat.le_trans (hs n hn) h.seq
  · obtain ⟨e, he, rfl⟩ := List.mem_map.mp hn
    exact (h.above e (List.mem_filter.mp he).1).2

theorem drop_events (h : s.Adds s' log) : s'.events.drop s.events.length = log := by
  rw [h.events, List.drop_left]

end Session.Adds

/-! ## The messages they carry -/

/-- A message of the conversation: the type of the event that carries it, and the message. -/
structure Entry where
  type : EventType
  message : Message

/-- The event carries the message. -/
structure SessionEvent.Carries (e : SessionEvent) (entry : Entry) : Prop where
  type : e.type = entry.type
  message : deriveEventMessage e = .ok entry.message.toJson

/-- The second session is the first with some more events, whose surface events carry the entries, in order. -/
def Session.Tells (s s' : Session) (entries : List Entry) : Prop :=
  ∃ log, s.Adds s' log ∧ List.Forall₂ SessionEvent.Carries (log.filter (fun e => e.type.isSurface)) entries

namespace Session.Tells

variable {s s₁ s₂ s' : Session} {entries entries₁ entries₂ : List Entry}

theorem refl (s : Session) : s.Tells s [] := ⟨[], .refl s, .nil⟩

theorem trans (h₁ : s.Tells s₁ entries₁) (h₂ : s₁.Tells s₂ entries₂) : s.Tells s₂ (entries₁ ++ entries₂) := by
  obtain ⟨log₁, hadds₁, hcarries₁⟩ := h₁
  obtain ⟨log₂, hadds₂, hcarries₂⟩ := h₂
  refine ⟨log₁ ++ log₂, hadds₁.trans hadds₂, ?_⟩
  rw [List.filter_append]
  exact List.rel_append hcarries₁ hcarries₂

theorem append_logOnly (s : Session) {c : AppendCall} {j : Json} (hdata : c.data = j.loads)
    (hknown : c.eventType.isKnown = true) (hlog : c.eventType.isSurface = false) (hr : c.surfaceOp.isReplace = false) :
    ∃ e s', s.append c = (.ok e, s') ∧ s.Tells s' [] := by
  have hadm : c.Admits j := ⟨by simp [hr], hknown, by rw [hdata]; exact validateLosslessJson_loads j⟩
  refine ⟨_, _, append_of_not_replace s hadm hr, _, .addEvent s rfl, ?_⟩
  simp [hlog]

theorem append_surface (s : Session) {c : AppendCall} {j : Json} (hdata : c.data = j.loads)
    (hsurface : c.eventType.isSurface = true) (hr : c.surfaceOp.isReplace = false) {m : Message}
    (hm : ∀ e : SessionEvent, e.type = c.eventType → e.data = j → deriveEventMessage e = .ok m.toJson) :
    ∃ e s', s.append c = (.ok e, s') ∧ s.Tells s' [⟨c.eventType, m⟩] := by
  have hadm : c.Admits j :=
    ⟨fun _ => hsurface, EventType.isKnown_of_isSurface hsurface, by rw [hdata]; exact validateLosslessJson_loads j⟩
  refine ⟨_, _, append_of_not_replace s hadm hr, _, .addEvent s rfl, ?_⟩
  simp only [List.filter_cons, AppendCall.event_type, hsurface, if_true, List.filter_nil]
  exact .cons ⟨rfl, hm _ rfl rfl⟩ .nil

/-- Any append of a log-only type tells nothing, whether it returns or raises. -/
theorem append_other (s : Session) {c : AppendCall} (hlog : c.eventType.isSurface = false) : s.Tells (s.append c).2 [] := by
  rcases append_cases s c with ⟨-, e, happ⟩ | ⟨j, -, -, happ⟩ | ⟨j, first, last, hj, hr, -, -⟩ | ⟨j, e, hj, ⟨hr, -⟩, -⟩
  · rw [happ]
    exact .refl s
  · rw [happ]
    exact ⟨_, .addEvent s rfl, by simp [hlog]⟩
  · rw [hj.surface hr] at hlog
    cases hlog
  · rw [hj.surface hr] at hlog
    cases hlog

theorem tidy (h : s.Tells s' entries) (hs : s.Tidy) : s'.Tidy := by
  obtain ⟨log, hadds, -⟩ := h
  exact hadds.tidy hs

end Session.Tells

/-! ## What the session derives -/

theorem messagesAt_append (s : Session) (xs ys : List Nat) :
    s.messagesAt (xs ++ ys) = (do
      let before ← s.messagesAt xs
      let after ← s.messagesAt ys
      return before ++ after) := by
  induction xs with
  | nil =>
    simp only [List.nil_append, Session.messagesAt]
    cases s.messagesAt ys <;> rfl
  | cons x xs ih =>
    simp only [List.cons_append, Session.messagesAt, ih]
    cases s.eventAt x with
    | none => rfl
    | some event =>
      simp only [bind, Except.bind]
      cases deriveEventMessage event with
      | error e => rfl
      | ok message =>
        cases s.messagesAt xs with
        | error e => rfl
        | ok before =>
          cases s.messagesAt ys with
          | error e => rfl
          | ok after => cases message <;> rfl

theorem messagesAt_congr {s s' : Session} {nodes : List Nat} (h : ∀ n ∈ nodes, s'.eventAt n = s.eventAt n) :
    s'.messagesAt nodes = s.messagesAt nodes := by
  induction nodes with
  | nil => rfl
  | cons n nodes ih =>
    simp only [Session.messagesAt, h n List.mem_cons_self, ih (fun m hm => h m (List.mem_cons_of_mem n hm))]

theorem messagesAt_carries {s : Session} {events : List SessionEvent} {entries : List Entry}
    (hat : ∀ e ∈ events, s.eventAt e.seq = some e) (h : List.Forall₂ SessionEvent.Carries events entries) :
    s.messagesAt (events.map (·.seq)) = .ok (entries.map (·.message.toJson)) := by
  induction h with
  | nil => rfl
  | @cons e entry events entries hcarries _ ih =>
    have ih := ih (fun x hx => hat x (List.mem_cons_of_mem e hx))
    simp only [List.map_cons, Session.messagesAt, hat e List.mem_cons_self, hcarries.message, ih, bind, Except.bind]
    rfl

/-- What the session derives afterwards: what it did before, and the messages told. -/
theorem Session.Tells.deriveMessages {s s' : Session} {entries : List Entry} (h : s.Tells s' entries) (hs : s.Tidy) :
    s'.deriveMessages = s.deriveMessages.map (fun ms => ms ++ entries.map (·.message.toJson)) := by
  obtain ⟨log, hadds, hcarries⟩ := h
  have hold : s'.messagesAt s.surfaceNodes = s.messagesAt s.surfaceNodes :=
    messagesAt_congr (fun n hn => hadds.eventAt_old (hs n hn))
  have hnew := messagesAt_carries (fun e he => hadds.eventAt_new (List.mem_filter.mp he).1) hcarries
  unfold Session.deriveMessages
  rw [hadds.surface, messagesAt_append, hold, hnew]
  cases s.messagesAt s.surfaceNodes <;> rfl

/-! ## Whether the surface is balanced -/

/-- The last cut of the surface is balanced: no tool call is outstanding, and no tool result answers nothing. -/
def Session.balanced (s : Session) : Bool :=
  match surfaceBalance s with
  | .ok flags => flags.getLastD false
  | .error _ => false

/-- The walk over some nodes goes from one count of outstanding calls to another, without raising. -/
def Session.Walks (s : Session) : List Nat → Int → Int → Prop
  | [], k, k' => k = k'
  | n :: ns, k, k' => ∃ e d, s.eventAt n = some e ∧ outstandingDelta e = .ok d ∧ 0 ≤ k + d ∧ s.Walks ns (k + d) k'

theorem Session.Walks.append {s : Session} {xs ys : List Nat} {k k₁ k₂ : Int} (h₁ : s.Walks xs k k₁)
    (h₂ : s.Walks ys k₁ k₂) : s.Walks (xs ++ ys) k k₂ := by
  induction xs generalizing k with
  | nil =>
    cases h₁
    exact h₂
  | cons x xs ih =>
    obtain ⟨e, d, he, hd, hle, hrest⟩ := h₁
    exact ⟨e, d, he, hd, hle, ih hrest⟩

theorem Session.Walks.congr {s s' : Session} {nodes : List Nat} {k k' : Int} (h : s.Walks nodes k k')
    (hat : ∀ n ∈ nodes, s'.eventAt n = s.eventAt n) : s'.Walks nodes k k' := by
  induction nodes generalizing k with
  | nil => exact h
  | cons n nodes ih =>
    obtain ⟨e, d, he, hd, hle, hrest⟩ := h
    exact ⟨e, d, (hat n List.mem_cons_self).trans he, hd, hle, ih hrest (fun m hm => hat m (List.mem_cons_of_mem n hm))⟩

/-- The walk that computes the flags is the walk that counts: its last flag says whether the count is zero. -/
theorem walkBalance_eq_ok_iff {s : Session} {nodes : List Nat} {k : Int} {last : Bool} :
    (∃ flags, walkBalance s nodes k = .ok flags ∧ flags.getLastD (k == 0) = last) ↔ ∃ k', s.Walks nodes k k' ∧ (k' == 0) = last := by
  induction nodes generalizing k with
  | nil =>
    constructor
    · rintro ⟨flags, hflags, rfl⟩
      cases hflags
      exact ⟨k, rfl, rfl⟩
    · rintro ⟨k', rfl, hlast⟩
      exact ⟨[], rfl, hlast⟩
  | cons n nodes ih =>
    constructor
    · rintro ⟨flags, hflags, hlast⟩
      simp only [walkBalance] at hflags
      cases he : s.eventAt n with
      | none => simp [he] at hflags
      | some e =>
        cases hd : outstandingDelta e with
        | error err => simp [he, hd, bind, Except.bind] at hflags
        | ok d =>
          simp only [he, hd, bind, Except.bind] at hflags
          split at hflags
          · cases hflags
          · rename_i hneg
            cases hrest : walkBalance s nodes (k + d) with
            | error err => simp [hrest] at hflags
            | ok rest =>
              simp only [hrest, pure, Except.pure, Except.ok.injEq] at hflags
              subst hflags
              obtain ⟨k', hwalks, hzero⟩ := ih.mp ⟨rest, hrest, by rwa [List.getLastD_cons] at hlast⟩
              exact ⟨k', ⟨e, d, he, hd, by omega, hwalks⟩, hzero⟩
    · rintro ⟨k', ⟨e, d, he, hd, hle, hwalks⟩, hzero⟩
      obtain ⟨rest, hrest, hlast⟩ := ih.mpr ⟨k', hwalks, hzero⟩
      have hneg : ¬k + d < 0 := by omega
      refine ⟨(k + d == 0) :: rest, ?_, by rwa [List.getLastD_cons]⟩
      simp only [walkBalance, he, hd, bind, Except.bind, if_neg hneg, hrest]
      rfl

theorem Session.balanced_iff {s : Session} : s.balanced = true ↔ s.Walks s.surfaceNodes 0 0 := by
  have hiff := @walkBalance_eq_ok_iff s s.surfaceNodes 0 true
  have hleft : s.balanced = true ↔ ∃ flags, walkBalance s s.surfaceNodes 0 = .ok flags ∧ flags.getLastD (0 == (0 : Int)) = true := by
    simp only [Session.balanced, surfaceBalance, bind, Except.bind]
    cases walkBalance s s.surfaceNodes 0 with
    | error e => simp
    | ok flags => simp [pure, Except.pure, List.getLastD_cons, -List.getLastD_eq_getLast?]
  rw [hleft, hiff]
  constructor
  · rintro ⟨k', hwalks, hzero⟩
    have : k' = 0 := by simpa using hzero
    rwa [this] at hwalks
  · intro hwalks
    exact ⟨0, hwalks, rfl⟩

/-- How an entry changes the count of outstanding calls. -/
def Entry.delta (entry : Entry) : Int :=
  match entry.type with
  | .assistantMessage => (entry.message.content.filterMap ContentBlock.call?).length
  | .toolResult => -1
  | _ => 0

/-- The count of outstanding calls goes from one value to another over some entries, and is never negative. -/
def Entry.Walk : List Entry → Int → Int → Prop
  | [], k, k' => k = k'
  | entry :: entries, k, k' => 0 ≤ k + entry.delta ∧ Entry.Walk entries (k + entry.delta) k'

theorem Entry.Walk.append {xs ys : List Entry} {k k₁ k₂ : Int} (h₁ : Entry.Walk xs k k₁) (h₂ : Entry.Walk ys k₁ k₂) :
    Entry.Walk (xs ++ ys) k k₂ := by
  induction xs generalizing k with
  | nil =>
    cases h₁
    exact h₂
  | cons x xs ih => exact ⟨h₁.1, ih h₁.2⟩

theorem countP_isToolCall (blocks : List ContentBlock) :
    (ContentBlock.toPyList blocks).countP PyValue.isToolCall = (blocks.filterMap ContentBlock.call?).length := by
  induction blocks with
  | nil => rfl
  | cons b blocks ih =>
    cases b <;>
      simp [ContentBlock.toPyList, ContentBlock.toPy, ContentBlock.call?, PyValue.isToolCall, List.countP_cons,
        List.filterMap_cons, ih]

/-- The count over an event that carries an entry is the entry's. -/
theorem SessionEvent.Carries.outstandingDelta {e : SessionEvent} {entry : Entry} (h : e.Carries entry) :
    Pydsh.outstandingDelta e = .ok entry.delta := by
  have hmessage := h.message
  have htype := h.type
  unfold Pydsh.outstandingDelta Entry.delta
  rw [← htype]
  cases ht : e.type with
  | assistantMessage =>
    simp only [deriveEventMessage, ht] at hmessage
    cases hdata : e.data with
    | obj kvs =>
      simp only [hdata, Except.ok.injEq] at hmessage
      simp only [SessionEvent.message, hdata, hmessage, decodePayload_message, PyValue.content, Message.toPy,
        countP_isToolCall]
    | _ => simp [hdata] at hmessage
  | _ => rfl

/-- The walk over events that carry entries is the walk over the entries. -/
theorem Session.Walks.carries {s : Session} {events : List SessionEvent} {entries : List Entry} {k k' : Int}
    (hat : ∀ e ∈ events, s.eventAt e.seq = some e) (h : List.Forall₂ SessionEvent.Carries events entries)
    (hwalk : Entry.Walk entries k k') : s.Walks (events.map (·.seq)) k k' := by
  induction h generalizing k with
  | nil => exact hwalk
  | @cons e entry events entries hcarries _ ih =>
    exact ⟨e, entry.delta, hat e List.mem_cons_self, hcarries.outstandingDelta, hwalk.1,
      ih (fun x hx => hat x (List.mem_cons_of_mem e hx)) hwalk.2⟩

/-- A balanced surface stays balanced when entries are told that answer all their calls. -/
theorem Session.Tells.balanced {s s' : Session} {entries : List Entry} (h : s.Tells s' entries) (hs : s.Tidy)
    (hbalanced : s.balanced = true) (hwalk : Entry.Walk entries 0 0) : s'.balanced = true := by
  obtain ⟨log, hadds, hcarries⟩ := h
  rw [Session.balanced_iff] at hbalanced ⊢
  rw [hadds.surface]
  refine Session.Walks.append (hbalanced.congr (fun n hn => hadds.eventAt_old (hs n hn))) ?_
  exact .carries (fun e he => hadds.eventAt_new (List.mem_filter.mp he).1) hcarries hwalk

end Pydsh
