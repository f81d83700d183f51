import Pydsh.Cancel.Fusing

/-!
# What becomes of listeners

The listeners that abort a fused signal are there from its fusing on, until the signal is disposed. So what any action does to them is said
by the signals it makes and the ones it disposes (`AgentsState.step_moves`), whatever the order the actions come in.
-/

namespace Pydsh

namespace Signals

/-- Listeners abort signals there are, and a signal is detached from what aborts it. -/
structure Linked (g : Signals) : Prop where
  targets : ∀ s, ∀ l ∈ (g.at_ s).listeners, ∀ fused, l.Targets fused → fused < g.fresh
  detachers : ∀ s, ∀ entry ∈ (g.at_ s).detachers, entry.2.Targets s

/-- No listener is added that aborts a signal there was, and none is taken away that aborts one, but of the signals that are gone. -/
structure Keeps (gone : Nat → Prop) (g g' : Signals) : Prop where
  linked : g'.Linked
  fresh : g.fresh ≤ g'.fresh
  added : ∀ s, ∀ l ∈ (g'.at_ s).listeners, l ∈ (g.at_ s).listeners ∨ ∀ fused, l.Targets fused → g.fresh ≤ fused
  kept : ∀ s, ∀ l ∈ (g.at_ s).listeners, ∀ fused, l.Targets fused → ¬gone fused → l ∈ (g'.at_ s).listeners

variable {g g' g'' : Signals} {gone : Nat → Prop} {s : Nat}

theorem Keeps.trans (h : Keeps gone g g') (h' : Keeps gone g' g'') : Keeps gone g g'' where
  linked := h'.linked
  fresh := Nat.le_trans h.fresh h'.fresh
  added s l hl := by
    rcases h'.added s l hl with hold | hnew
    · exact h.added s l hold
    · exact Or.inr (fun fused htarget => Nat.le_trans h.fresh (hnew fused htarget))
  kept s l hl fused htarget hgone := h'.kept s l (h.kept s l hl fused htarget hgone) fused htarget hgone

/-- A listener that is there at the end for a signal that was there before, was there before; and one that was there is there, unless its
signal is gone. -/
theorem Keeps.iff (h : Keeps gone g g') {fused : Nat} (hfused : fused < g.fresh) (hgone : ¬gone fused) (s : Nat) :
    (∃ l ∈ (g'.at_ s).listeners, l.Targets fused) ↔ ∃ l ∈ (g.at_ s).listeners, l.Targets fused := by
  constructor
  · rintro ⟨l, hl, htarget⟩
    rcases h.added s l hl with hold | hnew
    · exact ⟨l, hold, htarget⟩
    · exact absurd hfused (Nat.not_lt.mpr (hnew fused htarget))
  · rintro ⟨l, hl, htarget⟩
    exact ⟨l, h.kept s l hl fused htarget hgone, htarget⟩

theorem Linked.keeps (h : g.Linked) (hfresh : g.fresh ≤ g'.fresh) (hlisteners : ∀ s, (g'.at_ s).listeners = (g.at_ s).listeners)
    (hdetachers : ∀ s, (g'.at_ s).detachers = (g.at_ s).detachers) : Keeps gone g g' where
  linked.targets s l hl fused htarget := Nat.lt_of_lt_of_le (h.targets s l (hlisteners s ▸ hl) fused htarget) hfresh
  linked.detachers s entry hentry := h.detachers s entry (hdetachers s ▸ hentry)
  fresh := hfresh
  added s _ hl := Or.inl (hlisteners s ▸ hl)
  kept s _ hl _ _ _ := (hlisteners s).symm ▸ hl

theorem Linked.keeps_modify (h : g.Linked) {f : CancelSignal → CancelSignal}
    (hadded : ∀ l ∈ (f (g.at_ s)).listeners, l ∈ (g.at_ s).listeners ∨ ∀ fused, ¬l.Targets fused)
    (hkept : ∀ l ∈ (g.at_ s).listeners, ∀ fused, l.Targets fused → ¬gone fused → l ∈ (f (g.at_ s)).listeners)
    (hdetachers : ∀ entry ∈ (f (g.at_ s)).detachers, entry ∈ (g.at_ s).detachers) : Keeps gone g (g.modify s f) := by
  have hlisteners : ∀ s', ∀ l ∈ ((g.modify s f).at_ s').listeners, l ∈ (g.at_ s').listeners ∨ ∀ fused, ¬l.Targets fused := by
    intro s' l hl
    by_cases hs : s' = s
    · rw [hs, modify_self] at hl
      exact hs ▸ hadded l hl
    · rw [modify_of_ne _ _ _ _ hs] at hl
      exact Or.inl hl
  refine ⟨⟨fun s' l hl fused htarget => ?_, fun s' entry hentry => ?_⟩, Nat.le_refl _, fun s' l hl => ?_,
    fun s' l hl fused htarget hgone => ?_⟩
  · rcases hlisteners s' l hl with hold | hnone
    · exact h.targets s' l hold fused htarget
    · exact absurd htarget (hnone fused)
  · by_cases hs : s' = s
    · rw [hs, modify_self] at hentry
      exact hs ▸ h.detachers s entry (hdetachers entry hentry)
    · rw [modify_of_ne _ _ _ _ hs] at hentry
      exact h.detachers s' entry hentry
  · exact (hlisteners s' l hl).imp_right (fun hnone fused htarget => absurd htarget (hnone fused))
  · by_cases hs : s' = s
    · subst hs
      rw [modify_self]
      exact hkept l hl fused htarget hgone
    · rwa [modify_of_ne _ _ _ _ hs]

theorem Linked.keeps_listen (h : g.Linked) (s code : Nat) : Keeps gone g (g.modify s (fun signal => signal.listen (.code code))) := by
  refine h.keeps_modify (fun l hl => ?_) (fun l hl _ _ _ => List.mem_append_left _ hl) (fun _ hentry => hentry)
  rcases List.mem_append.mp hl with hold | hnew
  · exact Or.inl hold
  · rw [List.mem_singleton.mp hnew]
    exact Or.inr (fun fused htarget => by cases htarget)

theorem Linked.keeps_detach (h : g.Linked) (s code : Nat) : Keeps gone g (g.detach s code) := by
  refine h.keeps_modify (fun l hl => Or.inl (List.eraseP_sublist.subset hl)) (fun l hl fused htarget _ => ?_) (fun _ hentry => hentry)
  refine (List.mem_eraseP_of_neg ?_).mpr hl
  rw [htarget]
  simp

theorem Linked.keeps_dispose (h : g.Linked) (s : Nat) (hgone : gone s) : Keeps gone g (g.dispose s) := by
  have hloop : ∀ (detachers : List (Nat × Listener)) (g : Signals), g.Linked → (∀ entry ∈ detachers, entry.2.Targets s) →
      Keeps gone g (detachers.foldl
        (fun g entry => g.modify entry.1 (fun signal => { signal with listeners := signal.listeners.erase entry.2 })) g) := by
    intro detachers
    induction detachers with
    | nil => exact fun g hg _ => hg.keeps (Nat.le_refl _) (fun _ => rfl) (fun _ => rfl)
    | cons entry detachers ih =>
      intro g hg hentries
      have hfirst : Keeps gone g (g.modify entry.1 (fun signal => { signal with listeners := signal.listeners.erase entry.2 })) := by
        refine hg.keeps_modify (fun l hl => Or.inl (List.erase_sublist.subset hl)) (fun l hl fused htarget hlive => ?_)
          (fun _ hentry => hentry)
        refine (List.mem_erase_of_ne ?_).mpr hl
        intro heq
        have hsame : fused = s := Callback.fused.inj (htarget.symm.trans (heq ▸ hentries entry List.mem_cons_self))
        exact hlive (hsame ▸ hgone)
      exact hfirst.trans (ih _ hfirst.linked (fun entry hentry => hentries entry (List.mem_cons_of_mem _ hentry)))
  have hdetached := hloop (g.at_ s).detachers g h (h.detachers s)
  exact hdetached.trans (hdetached.linked.keeps_modify (fun _ hl => Or.inl hl) (fun _ hl _ _ _ => hl) (fun _ hentry => by cases hentry))

/-! ## Fusing -/

/-- What was attached of the sources. -/
structure Attached (fused : Nat) (sources : List (Option Nat)) (g g' : Signals) : Prop where
  fresh : g'.fresh = g.fresh
  aborted : ∀ s, s ≠ fused → (g'.at_ s).aborted = (g.at_ s).aborted
  old : ∀ s, ∀ l ∈ (g.at_ s).listeners, l ∈ (g'.at_ s).listeners
  new : ∀ s, ∀ l ∈ (g'.at_ s).listeners,
    l ∈ (g.at_ s).listeners ∨ l.Targets fused ∧ (s ≠ fused → some s ∈ sources ∧ (g.at_ s).aborted = false)
  attached : ∀ s, s ≠ fused → some s ∈ sources → (g.at_ s).aborted = false → ∃ l ∈ (g'.at_ s).listeners, l.Targets fused
  detachers : ∀ s, ∀ entry ∈ (g'.at_ s).detachers, entry ∈ (g.at_ s).detachers ∨ s = fused ∧ entry.2.Targets fused

theorem attach_attached (fused : Nat) (g : Signals) (source : Option Nat) : Attached fused [source] g (attach fused g source) := by
  have hmark : ∀ (signal : CancelSignal) (reason : PyValue), (signal.mark reason).listeners = signal.listeners ∧
      (signal.mark reason).detachers = signal.detachers := by
    intro signal reason
    unfold CancelSignal.mark
    split <;> exact ⟨rfl, rfl⟩
  cases source with
  | none =>
    exact ⟨rfl, fun _ _ => rfl, fun _ _ hl => hl, fun _ _ hl => Or.inl hl, fun s _ hs => by simp at hs, fun _ _ hentry => Or.inl hentry⟩
  | some source =>
    unfold Signals.attach
    dsimp only
    by_cases haborted : (g.at_ source).aborted = true
    · rw [if_pos haborted]
      have hkept : ∀ s, ((g.modify fused (fun signal => (signal.reached [(g.at_ source).reason]).mark (g.at_ source).reason)).at_ s).listeners =
          (g.at_ s).listeners ∧ ((g.modify fused (fun signal =>
            (signal.reached [(g.at_ source).reason]).mark (g.at_ source).reason)).at_ s).detachers = (g.at_ s).detachers := by
        intro s
        by_cases hs : s = fused
        · rw [hs, modify_self]
          exact hmark _ _
        · rw [modify_of_ne _ _ _ _ hs]
          exact ⟨rfl, rfl⟩
      refine ⟨rfl, fun s hs => by rw [modify_of_ne _ _ _ _ hs], fun s l hl => (hkept s).1.symm ▸ hl,
        fun s l hl => Or.inl ((hkept s).1 ▸ hl), fun s hs hsource hlive => ?_, fun s entry hentry => Or.inl ((hkept s).2 ▸ hentry)⟩
      obtain rfl : s = source := Option.some.inj (List.mem_singleton.mp hsource)
      rw [haborted] at hlive
      cases hlive
    · rw [if_neg haborted]
      have hlive : (g.at_ source).aborted = false := by simpa using haborted
      -- the listener is put on the source first, and the detacher on the fused signal then
      have hlisten : ∀ s, ((g.modify source (fun signal => signal.listen (.fused fused))).at_ s).aborted = (g.at_ s).aborted ∧
          ((g.modify source (fun signal => signal.listen (.fused fused))).at_ s).detachers = (g.at_ s).detachers ∧
          ((g.modify source (fun signal => signal.listen (.fused fused))).at_ s).listeners =
            (g.at_ s).listeners ++ if s = source then [⟨(g.at_ source).added, .fused fused⟩] else [] := by
        intro s
        by_cases hs : s = source
        · rw [hs, modify_self, if_pos rfl]
          exact ⟨rfl, rfl, rfl⟩
        · rw [modify_of_ne _ _ _ _ hs, if_neg hs, List.append_nil]
          exact ⟨rfl, rfl, rfl⟩
      have hlisteners : ∀ s, (((g.modify source (fun signal => signal.listen (.fused fused))).modify fused
          (fun signal => { signal with detachers := signal.detachers ++ [(source, ⟨(g.at_ source).added, .fused fused⟩)] })).at_ s).listeners =
          (g.at_ s).listeners ++ if s = source then [⟨(g.at_ source).added, .fused fused⟩] else [] := by
        intro s
        by_cases hs : s = fused
        · rw [hs, modify_self]
          exact (hlisten fused).2.2
        · rw [modify_of_ne _ _ _ _ hs]
          exact (hlisten s).2.2
      refine ⟨rfl, fun s hs => ?_, fun s l hl => ?_, fun s l hl => ?_, fun s _ hsource _ => ?_, fun s entry hentry => ?_⟩
      · rw [modify_of_ne _ _ _ _ hs]
        exact (hlisten s).1
      · rw [hlisteners]
        exact List.mem_append_left _ hl
      · rw [hlisteners] at hl
        rcases List.mem_append.mp hl with hold | hnew
        · exact Or.inl hold
        · split at hnew
          next heq =>
            subst heq
            rw [List.mem_singleton.mp hnew]
            exact Or.inr ⟨rfl, fun _ => ⟨List.mem_singleton_self _, hlive⟩⟩
          next => cases hnew
      · obtain rfl : s = source := Option.some.inj (List.mem_singleton.mp hsource)
        refine ⟨⟨(g.at_ s).added, .fused fused⟩, ?_, rfl⟩
        rw [hlisteners, if_pos rfl]
        exact List.mem_append_right _ (List.mem_singleton_self _)
      · by_cases hs : s = fused
        · rw [hs, modify_self] at hentry
          rcases List.mem_append.mp hentry with hold | hnew
          · exact Or.inl (hs ▸ (hlisten fused).2.1 ▸ hold)
          · rw [List.mem_singleton.mp hnew]
            exact Or.inr ⟨hs, rfl⟩
        · rw [modify_of_ne _ _ _ _ hs, (hlisten s).2.1] at hentry
          exact Or.inl hentry

theorem Attached.trans {fused : Nat} {sources sources' : List (Option Nat)} (h : Attached fused sources g g')
    (h' : Attached fused sources' g' g'') : Attached fused (sources ++ sources') g g'' where
  fresh := h'.fresh.trans h.fresh
  aborted s hs := (h'.aborted s hs).trans (h.aborted s hs)
  old s l hl := h'.old s l (h.old s l hl)
  new s l hl := by
    rcases h'.new s l hl with hmid | ⟨htarget, hsource⟩
    · rcases h.new s l hmid with hold | ⟨htarget, hsource⟩
      · exact Or.inl hold
      · exact Or.inr ⟨htarget, fun hs => ⟨List.mem_append_left _ (hsource hs).1, (hsource hs).2⟩⟩
    · exact Or.inr ⟨htarget, fun hs => ⟨List.mem_append_right _ (hsource hs).1, h.aborted s hs ▸ (hsource hs).2⟩⟩
  attached s hs hsource hlive := by
    rcases List.mem_append.mp hsource with hfirst | hrest
    · obtain ⟨l, hl, htarget⟩ := h.attached s hs hfirst hlive
      exact ⟨l, h'.old s l hl, htarget⟩
    · exact h'.attached s hs hrest ((h.aborted s hs).trans hlive)
  detachers s entry hentry := by
    rcases h'.detachers s entry hentry with hmid | hnew
    · exact h.detachers s entry hmid
    · exact Or.inr hnew

theorem foldl_attached (fused : Nat) (sources : List (Option Nat)) (g : Signals) :
    Attached fused sources g (sources.foldl (attach fused) g) := by
  induction sources generalizing g with
  | nil =>
    exact ⟨rfl, fun _ _ => rfl, fun _ _ hl => hl, fun _ _ hl => Or.inl hl, fun _ _ hs => (by cases hs), fun _ _ hentry => Or.inl hentry⟩
  | cons source sources ih => exact (attach_attached fused g source).trans (ih _)

/-- A fused signal is attached to its sources that are not aborted, and to no other signal. -/
theorem any_attached (g : Signals) (sources : List (Option Nat)) : Attached g.fresh sources g.create (g.any sources) :=
  foldl_attached g.fresh sources g.create

@[simp] theorem any_fresh (g : Signals) (sources : List (Option Nat)) : (g.any sources).fresh = g.fresh + 1 :=
  (any_attached g sources).fresh

theorem Linked.keeps_any (h : g.Linked) (sources : List (Option Nat)) : Keeps gone g (g.any sources) := by
  have hattached := any_attached g sources
  refine ⟨⟨fun s l hl fused htarget => ?_, fun s entry hentry => ?_⟩, by rw [any_fresh]; exact Nat.le_succ _, fun s l hl => ?_,
    fun s l hl _ _ _ => hattached.old s l hl⟩
  · rw [any_fresh]
    rcases hattached.new s l hl with hold | ⟨hnew, -⟩
    · exact Nat.lt_succ_of_lt (h.targets s l hold fused htarget)
    · rw [Callback.fused.inj (htarget.symm.trans hnew)]
      exact Nat.lt_succ_self _
  · rcases hattached.detachers s entry hentry with hold | ⟨rfl, htarget⟩
    · exact h.detachers s entry hold
    · exact htarget
  · rcases hattached.new s l hl with hold | ⟨hnew, -⟩
    · exact Or.inl hold
    · exact Or.inr (fun fused htarget => Nat.le_of_eq (Callback.fused.inj (hnew.symm.trans htarget)))

/-- Of the signals there were, those are attached to a new one that are sources of it and not aborted. -/
theorem Linked.any_iff (h : g.Linked) (sources : List (Option Nat)) (hs : s < g.fresh) :
    (∃ l ∈ ((g.any sources).at_ s).listeners, l.Targets g.fresh) ↔ some s ∈ sources ∧ (g.at_ s).aborted = false := by
  have hattached := any_attached g sources
  constructor
  · rintro ⟨l, hl, htarget⟩
    rcases hattached.new s l hl with hold | ⟨-, hsource⟩
    · exact absurd (h.targets s l hold _ htarget) (Nat.lt_irrefl _)
    · exact hsource (Nat.ne_of_lt hs)
  · rintro ⟨hsource, hlive⟩
    exact hattached.attached s (Nat.ne_of_lt hs) hsource hlive

theorem Linked.keeps_fire (h : g.Linked) (s : Nat) (reason : PyValue) : Keeps gone g (g.fire s reason) := by
  have hmark : ∀ signal : CancelSignal, (signal.mark reason).listeners = signal.listeners ∧
      (signal.mark reason).detachers = signal.detachers := by
    intro signal
    unfold CancelSignal.mark
    split <;> exact ⟨rfl, rfl⟩
  have hsame : ∀ s', ((g.fire s reason).at_ s').listeners = (g.at_ s').listeners ∧
      ((g.fire s reason).at_ s').detachers = (g.at_ s').detachers := by
    intro s'
    by_cases hs : s' = s
    · rw [hs, fire, modify_self]
      exact hmark _
    · rw [fire_other s' reason hs]
      exact ⟨rfl, rfl⟩
  exact h.keeps (Nat.le_refl _) (fun s' => (hsame s').1) (fun s' => (hsame s').2)

end Signals

namespace AgentsState

/-- What a step makes and what it leaves: it makes one agent at most, of new signals. -/
structure Moves (gone : Nat → Prop) (st st' : AgentsState) : Prop where
  signals : Signals.Keeps gone st.signals st'.signals
  agents : st'.agents = st.agents ∨ ∃ record, st'.agents = st.agents ++ [record] ∧ st.signals.fresh ≤ record.between ∧
    record.between < record.lifetime ∧ record.lifetime < st'.signals.fresh
  disposed : ∀ agent ∈ st.disposed, agent ∈ st'.disposed

/-- The signals a step may dispose. -/
def Disposes (st : AgentsState) (a : CancelAction) (signal : Nat) : Prop :=
  a = .dispose signal ∨ ∃ record ∈ st.agents, record.lifetime = signal

variable {st st' : AgentsState} {gone : Nat → Prop}

theorem Moves.record (h : Moves gone st st') {agent : Nat} {record : LoopAgent} (hrecord : st.agents[agent]? = some record) :
    st'.agents[agent]? = some record := by
  rcases h.agents with hsame | ⟨new, hnew, -⟩
  · rw [hsame, hrecord]
  · rw [hnew, List.getElem?_append_left (List.getElem?_eq_some_iff.mp hrecord).1, hrecord]

theorem Moves.of_signals (h : Signals.Keeps gone st.signals st'.signals) (hagents : st'.agents = st.agents)
    (hdisposed : st'.disposed = st.disposed) : Moves gone st st' :=
  ⟨h, Or.inl hagents, fun _ hagent => hdisposed ▸ hagent⟩

/-- `signal.abort(reason)`. -/
theorem abort_moves (st : AgentsState) (h : st.signals.Linked) (s : Nat) (reason : PyValue) : Moves gone st (st.abort s reason) := by
  unfold abort
  split
  · exact .of_signals (h.keeps (Nat.le_refl _) (fun _ => rfl) (fun _ => rfl)) rfl rfl
  · exact .of_signals (h.keeps_fire s reason) rfl rfl

theorem abortBy_moves (st : AgentsState) (h : st.signals.Linked) (s : Nat) (reason : PyValue) : Moves gone st (st.abortBy s reason) := by
  unfold abortBy
  split
  · exact .of_signals (h.keeps (Nat.le_refl _) (fun _ => rfl) (fun _ => rfl)) rfl rfl
  · have hreached : Signals.Keeps gone st.signals (st.signals.modify s (fun signal => signal.reached [reason])) :=
      h.keeps_modify (fun _ hl => Or.inl hl) (fun _ hl _ _ _ => hl) (fun _ hentry => hentry)
    obtain ⟨hsignals, hagents, hdisposed⟩ :=
      abort_moves { st with signals := st.signals.modify s (fun signal => signal.reached [reason]) } hreached.linked s reason
    exact ⟨hreached.trans hsignals, hagents, hdisposed⟩

theorem disposeAgent_moves (st : AgentsState) (h : st.signals.Linked) (agent : Nat) (record : LoopAgent) :
    Moves gone st (st.disposeAgent agent record) := by
  obtain ⟨hsignals, hagents, hdisposed⟩ :=
    abortBy_moves { st with stack := .disposing agent :: st.stack } h record.lifetime (.str "agent disposed")
  exact ⟨hsignals, hagents, hdisposed⟩

theorem createAgent_moves (h : st.signals.Linked) (session : String) (owner : Option Nat) :
    Moves gone st (st.createAgent session owner) := by
  have hfused : Signals.Keeps gone st.signals (st.signals.any [owner, some teardown]) := h.keeps_any _
  refine ⟨hfused.trans (hfused.linked.keeps_any _), Or.inr ⟨_, rfl, Nat.le_refl _, ?_, ?_⟩, fun _ hagent => hagent⟩
  · simp only [Signals.any_fresh]
    exact Nat.lt_succ_self _
  · simp only [createAgent, Signals.any_fresh]
    exact Nat.lt_succ_self _

theorem proceed_moves (h : st.signals.Linked) (hgone : ∀ record ∈ st.agents, gone record.lifetime) (hstep : st.proceed = some st') :
    Moves gone st st' := by
  have hsame : Signals.Keeps gone st.signals st.signals := h.keeps (Nat.le_refl _) (fun _ => rfl) (fun _ => rfl)
  unfold proceed at hstep
  split at hstep
  next => cases hstep
  next =>
    obtain rfl := Option.some.inj hstep
    exact .of_signals hsame rfl rfl
  next source listener rest stack _ =>
    have hran : Signals.Keeps gone st.signals (st.signals.modify source (fun signal => signal.run listener)) :=
      h.keeps_modify (fun _ hl => Or.inl hl) (fun _ hl _ _ _ => hl) (fun _ hentry => hentry)
    dsimp only at hstep
    split at hstep
    next =>
      obtain rfl := Option.some.inj hstep
      exact .of_signals hran rfl rfl
    next fused _ =>
      obtain rfl := Option.some.inj hstep
      obtain ⟨hsignals, hagents, hdisposed⟩ := abort_moves { st with
        signals := st.signals.modify source (fun signal => signal.run listener)
        stack := .aborting source rest :: stack } hran.linked fused _
      exact ⟨hran.trans hsignals, hagents, hdisposed⟩
  next =>
    obtain ⟨record, -, rfl⟩ := Option.map_eq_some_iff.mp hstep
    exact .of_signals hsame rfl rfl
  next =>
    obtain ⟨record, hrecord, rfl⟩ := Option.map_eq_some_iff.mp hstep
    exact ⟨h.keeps_dispose _ (hgone record (List.mem_of_getElem? hrecord)), Or.inl rfl, fun _ hagent => List.mem_cons_of_mem _ hagent⟩
  next =>
    obtain rfl := Option.some.inj hstep
    exact .of_signals hsame rfl rfl
  next agent rest stack _ =>
    obtain ⟨record, -, rfl⟩ := Option.map_eq_some_iff.mp hstep
    obtain ⟨hsignals, hagents, hdisposed⟩ := disposeAgent_moves { st with stack := .closing (some rest) :: stack } h agent record
    exact ⟨hsignals, hagents, hdisposed⟩
  next =>
    obtain rfl := Option.some.inj hstep
    exact .of_signals hsame rfl rfl

theorem step_moves (h : st.signals.Linked) {a : CancelAction} (hstep : st.step a = some st') : Moves (st.Disposes a) st st' := by
  cases a with
  | newSignal =>
    obtain rfl := Option.some.inj hstep
    exact .of_signals (h.keeps (Nat.le_succ _) (fun _ => rfl) (fun _ => rfl)) rfl rfl
  | listen s code =>
    obtain ⟨-, hstep⟩ := Option.ite_none_right_eq_some.mp hstep
    obtain rfl := Option.some.inj hstep
    exact .of_signals (h.keeps_listen s code) rfl rfl
  | detach s code =>
    obtain rfl := Option.some.inj hstep
    exact .of_signals (h.keeps_detach s code) rfl rfl
  | fuse sources =>
    obtain ⟨-, hstep⟩ := Option.ite_none_right_eq_some.mp hstep
    obtain rfl := Option.some.inj hstep
    exact .of_signals (h.keeps_any sources) rfl rfl
  | dispose s =>
    obtain rfl := Option.some.inj hstep
    exact .of_signals (h.keeps_dispose s (Or.inl rfl)) rfl rfl
  | abort s reason =>
    obtain ⟨-, hstep⟩ := Option.ite_none_right_eq_some.mp hstep
    obtain rfl := Option.some.inj hstep
    exact abortBy_moves st h s reason
  | createAgent session owner =>
    obtain ⟨-, hstep⟩ := Option.ite_none_right_eq_some.mp hstep
    obtain rfl := Option.some.inj hstep
    exact createAgent_moves h session owner
  | disposeAgent agent =>
    obtain ⟨record, -, rfl⟩ := Option.map_eq_some_iff.mp hstep
    exact disposeAgent_moves st h agent record
  | unmount =>
    obtain rfl := Option.some.inj hstep
    obtain ⟨hsignals, hagents, hdisposed⟩ := abortBy_moves { st with stack := .closing none :: st.stack } h teardown _
    exact ⟨hsignals, hagents, hdisposed⟩
  | proceed => exact proceed_moves h (fun record hrecord => Or.inr ⟨record, hrecord, rfl⟩) hstep
  | unwind calls =>
    obtain rfl := Option.some.inj hstep
    exact .of_signals (h.keeps (Nat.le_refl _) (fun _ => rfl) (fun _ => rfl)) rfl rfl

/-! ## What is being disposed -/

theorem mem_stack_abortBy (st : AgentsState) {frame : CancelFrame} (h : frame ∈ st.stack) (s : Nat) (reason : PyValue) :
    frame ∈ (st.abortBy s reason).stack := by
  have habort : ∀ (st : AgentsState), frame ∈ st.stack → frame ∈ (st.abort s reason).stack := by
    intro st hmem
    unfold abort
    split
    · exact hmem
    · exact List.mem_cons_of_mem _ hmem
  unfold abortBy
  split
  · exact h
  · exact habort _ h

/-- A dispose in progress comes to its end, unless what is no `Exception` leaves it. -/
theorem step_disposing {a : CancelAction} (ha : ∀ calls, a ≠ .unwind calls) (hstep : st.step a = some st') {agent : Nat}
    (h : .disposing agent ∈ st.stack) : .disposing agent ∈ st'.stack ∨ agent ∈ st'.disposed := by
  cases a with
  | newSignal =>
    obtain rfl := Option.some.inj hstep
    exact Or.inl h
  | listen s code =>
    obtain ⟨-, hstep⟩ := Option.ite_none_right_eq_some.mp hstep
    obtain rfl := Option.some.inj hstep
    exact Or.inl h
  | detach s code =>
    obtain rfl := Option.some.inj hstep
    exact Or.inl h
  | fuse sources =>
    obtain ⟨-, hstep⟩ := Option.ite_none_right_eq_some.mp hstep
    obtain rfl := Option.some.inj hstep
    exact Or.inl h
  | dispose s =>
    obtain rfl := Option.some.inj hstep
    exact Or.inl h
  | abort s reason =>
    obtain ⟨-, hstep⟩ := Option.ite_none_right_eq_some.mp hstep
    obtain rfl := Option.some.inj hstep
    exact Or.inl (mem_stack_abortBy st h s reason)
  | createAgent session owner =>
    obtain ⟨-, hstep⟩ := Option.ite_none_right_eq_some.mp hstep
    obtain rfl := Option.some.inj hstep
    exact Or.inl (List.mem_cons_of_mem _ h)
  | disposeAgent other =>
    obtain ⟨record, -, rfl⟩ := Option.map_eq_some_iff.mp hstep
    exact Or.inl (mem_stack_abortBy { st with stack := .disposing other :: st.stack } (List.mem_cons_of_mem _ h) _ _)
  | unmount =>
    obtain rfl := Option.some.inj hstep
    exact Or.inl (mem_stack_abortBy { st with stack := .closing none :: st.stack } (List.mem_cons_of_mem _ h) _ _)
  | unwind calls => exact absurd rfl (ha calls)
  | proceed =>
    simp only [step] at hstep
    unfold proceed at hstep
    split at hstep
    next => cases hstep
    next hstack =>
      obtain rfl := Option.some.inj hstep
      rw [hstack] at h
      exact Or.inl (by simpa using h)
    next source listener rest stack hstack =>
      have hrest : .disposing agent ∈ stack := by
        rw [hstack] at h
        simpa using h
      dsimp only at hstep
      split at hstep
      next =>
        obtain rfl := Option.some.inj hstep
        exact Or.inl (List.mem_cons_of_mem _ hrest)
      next fused _ =>
        obtain rfl := Option.some.inj hstep
        refine Or.inl ?_
        unfold abort
        split
        · exact List.mem_cons_of_mem _ hrest
        · exact List.mem_cons_of_mem _ (List.mem_cons_of_mem _ hrest)
    next hstack =>
      obtain ⟨record, -, rfl⟩ := Option.map_eq_some_iff.mp hstep
      rw [hstack] at h
      exact Or.inl (by simpa using h)
    next other stack hstack =>
      obtain ⟨record, -, rfl⟩ := Option.map_eq_some_iff.mp hstep
      rw [hstack] at h
      rcases List.mem_cons.mp h with hsame | hrest
      · cases hsame
        exact Or.inr List.mem_cons_self
      · exact Or.inl hrest
    next hstack =>
      obtain rfl := Option.some.inj hstep
      rw [hstack] at h
      exact Or.inl (by simpa using h)
    next other rest stack hstack =>
      obtain ⟨record, -, rfl⟩ := Option.map_eq_some_iff.mp hstep
      rw [hstack] at h
      have hrest : .disposing agent ∈ stack := by simpa using h
      exact Or.inl (mem_stack_abortBy { st with stack := .disposing other :: .closing (some rest) :: stack }
        (List.mem_cons_of_mem _ (List.mem_cons_of_mem _ hrest)) _ _)
    next hstack =>
      obtain rfl := Option.some.inj hstep
      rw [hstack] at h
      exact Or.inl (by simpa using h)

end AgentsState

end Pydsh
