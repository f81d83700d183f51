import Pydsh.Lib.Dict
import Pydsh.Lib.Machine
import Pydsh.Session.Cuts

/-!
# The cached balance of a surface

`surface_balance` of `session/pairing.py` with its cache: what was computed for a session is returned again as long as no replacement
was counted and the surface is as long as it was. Between two replacements the surface only grows, at its end, so then it is the same
surface (`cached_balance_exact`).
-/

namespace Pydsh

/-- What `surface_balance` returns: the replace generation it was computed for, the flag of each cut, and the index of each node. -/
structure BalanceReport where
  generation : Nat
  cutBalanced : List Bool
  indexBySeq : Dict Nat Nat

/-- The loop's `index_by_seq`. -/
def indexBySeqOf (nodes : List Nat) : Dict Nat Nat := nodes.zipIdx.foldl (fun found node => found.set node.1 node.2) .empty

/-- `surface_balance` where nothing is cached. -/
def computeBalance (s : Session) : Except PairingError BalanceReport :=
  match surfaceBalance s with
  | .error e => .error e
  | .ok flags =>
    .ok
      { generation := s.replaceGeneration
        cutBalanced := flags
        indexBySeq := indexBySeqOf s.surfaceNodes }

/-- What is cached is for this generation and for a surface as long as this one. -/
def BalanceReport.Fresh (cached : BalanceReport) (s : Session) : Prop :=
  cached.generation = s.replaceGeneration ∧ cached.cutBalanced.length = s.surfaceNodes.length + 1

instance (cached : BalanceReport) (s : Session) : Decidable (cached.Fresh s) :=
  inferInstanceAs (Decidable (_ ∧ _))

/-- `surface_balance`: what it returns or raises, and what is cached then. A balance that cannot be computed is not cached. -/
def cachedBalance (cache : Option BalanceReport) (s : Session) : Except PairingError BalanceReport × Option BalanceReport :=
  match cache.filter (fun cached => decide (cached.Fresh s)) with
  | some cached => (.ok cached, cache)
  | none =>
    match computeBalance s with
    | .error e => (.error e, cache)
    | .ok computed => (.ok computed, some computed)

/-! ## Runs -/

/-- A session, and what is cached for it. -/
structure BalanceRun where
  session : Session
  cache : Option BalanceReport := none

/-- A call of `append`, whether it returns or raises, or a query of the balance. -/
inductive BalanceAction where
  | append (c : AppendCall)
  | query

/-- What an action does. -/
def BalanceRun.step (st : BalanceRun) : BalanceAction → Option BalanceRun
  | .append c => some { st with session := (st.session.append c).2 }
  | .query => some { st with cache := (cachedBalance st.cache st.session).2 }

/-- What is cached was computed for nodes that the surface still begins with, unless a replacement was counted since. -/
structure BalanceReport.Covers (cached : BalanceReport) (s : Session) : Prop where
  generation : cached.generation ≤ s.replaceGeneration
  computed : cached.generation = s.replaceGeneration → ∃ nodes walked, nodes <+: s.surfaceNodes ∧
    walkBalance s nodes 0 = .ok walked ∧ cached.cutBalanced = true :: walked ∧ cached.indexBySeq = indexBySeqOf nodes

theorem computeBalance_covers {s : Session} {computed : BalanceReport} (h : computeBalance s = .ok computed) : computed.Covers s := by
  unfold computeBalance at h
  split at h
  · cases h
  · rename_i flags hflags
    obtain ⟨walked, hwalk, rfl⟩ := surfaceBalance_eq_ok hflags
    cases h
    exact ⟨Nat.le_refl _, fun _ => ⟨s.surfaceNodes, walked, List.prefix_refl _, hwalk, rfl, rfl⟩⟩

theorem BalanceReport.Covers.exact {cached : BalanceReport} {s : Session} (h : cached.Covers s) (hfresh : cached.Fresh s) :
    computeBalance s = .ok cached := by
  obtain ⟨hgeneration, hlength⟩ := hfresh
  obtain ⟨nodes, walked, hgrown, hwalk, hflags, hindex⟩ := h.computed hgeneration
  have hsame : nodes = s.surfaceNodes := by
    refine hgrown.eq_of_length ?_
    rw [hflags, List.length_cons, walkBalance_length hwalk] at hlength
    omega
  rw [hsame] at hwalk hindex
  unfold computeBalance
  rw [surfaceBalance_of_walk hwalk, ← hflags, ← hindex, ← hgeneration]

/-- The answer with the cache is the one that is computed from scratch. -/
theorem cachedBalance_fst {cache : Option BalanceReport} {s : Session} (h : ∀ cached, cache = some cached → cached.Covers s) :
    (cachedBalance cache s).1 = computeBalance s := by
  unfold cachedBalance
  split
  · rename_i cached hcached
    obtain ⟨hcache, hfresh⟩ := Option.filter_eq_some_iff.mp hcached
    exact ((h cached hcache).exact (of_decide_eq_true hfresh)).symm
  · split
    · rename_i hcompute
      exact hcompute.symm
    · rename_i hcompute
      exact hcompute.symm

theorem cachedBalance_snd {cache : Option BalanceReport} {s : Session} (h : ∀ cached, cache = some cached → cached.Covers s) :
    ∀ cached, (cachedBalance cache s).2 = some cached → cached.Covers s := by
  intro cached hcached
  unfold cachedBalance at hcached
  split at hcached
  · exact h cached hcached
  · split at hcached
    · exact h cached hcached
    · rename_i hcompute
      cases hcached
      exact computeBalance_covers hcompute

/-- A longer log in which the old nodes are read as before, with the surface grown at its end and no replacement counted. -/
theorem BalanceReport.Covers.grow {cached : BalanceReport} {s s' : Session} (h : cached.Covers s)
    (hat : ∀ n ∈ s.surfaceNodes, s'.eventAt n = s.eventAt n) (hnodes : s.surfaceNodes <+: s'.surfaceNodes)
    (hgeneration : s'.replaceGeneration = s.replaceGeneration) : cached.Covers s' := by
  refine ⟨hgeneration ▸ h.generation, fun hsame => ?_⟩
  obtain ⟨nodes, walked, hgrown, hwalk, hflags, hindex⟩ := h.computed (hsame.trans hgeneration)
  refine ⟨nodes, walked, hgrown.trans hnodes, ?_, hflags, hindex⟩
  rw [walkBalance_congr (fun n hn => hat n (hgrown.subset hn))]
  exact hwalk

theorem BalanceReport.Covers.append {cached : BalanceReport} {s : Session} (hs : s.Tidy) (h : cached.Covers s) (c : AppendCall) :
    cached.Covers (s.append c).2 := by
  have hat : ∀ (j : Json) (s' : Session), s'.events = s.events ++ [c.event s j] →
      ∀ n ∈ s.surfaceNodes, s'.eventAt n = s.eventAt n := by
    intro j s' hevents n hn
    have hle := hs n hn
    have hne : (c.event s j).seq ≠ n := by
      rw [AppendCall.event_seq]
      omega
    have hcommit := eventAt_commit s hne
    unfold Session.eventAt at hcommit ⊢
    rw [hevents]
    exact hcommit
  rcases append_cases s c with ⟨-, e, happ⟩ | ⟨j, -, -, happ⟩ | ⟨j, first, last, -, -, -, happ⟩ | ⟨j, e, -, -, happ⟩
  · rw [happ]
    exact h
  · rw [happ]
    refine h.grow (hat j _ (Session.addEvent_events s _)) ?_ ?_
    · unfold Session.addEvent
      split
      · exact List.prefix_append _ _
      · exact List.prefix_refl _
    · unfold Session.addEvent
      split <;> rfl
  · -- a replacement is counted, so what is cached is for an earlier generation
    rw [happ]
    have hle := h.generation
    refine ⟨Nat.le_succ_of_le hle, fun hsame => ?_⟩
    have hcounted : cached.generation = s.replaceGeneration + 1 := hsame
    omega
  · rw [happ]
    exact h.grow (hat j _ rfl) (List.prefix_refl _) rfl

/-- What the steps keep. -/
structure BalanceRun.Inv (st : BalanceRun) : Prop where
  tidy : st.session.Tidy
  covers : ∀ cached, st.cache = some cached → cached.Covers st.session

theorem BalanceRun.Inv.step {st st' : BalanceRun} (h : st.Inv) {a : BalanceAction} (hstep : st.step a = some st') : st'.Inv := by
  cases a with
  | append c =>
    obtain rfl := Option.some.inj hstep
    exact ⟨h.tidy.append c, fun cached hcached => (h.covers cached hcached).append h.tidy c⟩
  | query =>
    obtain rfl := Option.some.inj hstep
    exact ⟨h.tidy, cachedBalance_snd h.covers⟩

/-- After any appends, replacements, appends that raise, and queries, in any order, `surface_balance` answers on the session as it would
if nothing was cached: with the same flags and indices, or the same error. -/
theorem cached_balance_exact {s : Session} (hs : s.Tidy) {st : BalanceRun}
    (h : Machine.Reach BalanceRun.step Machine.anyStep { session := s } st) :
    (cachedBalance st.cache st.session).1 = computeBalance st.session := by
  have hinv : st.Inv := by
    refine h.invariant ⟨hs, fun cached hcached => ?_⟩ (fun _ _ _ hinv _ hstep => hinv.step hstep)
    cases hcached
  exact cachedBalance_fst hinv.covers

namespace CutOut

open ReplayChain

/-- The balance is asked for; a run of two is replaced and a message restores the length; it is asked for again. -/
def asked : List BalanceAction := [.query, .append (summarise "m5" 2 3), .append (say "m6" "six"), .query]

end CutOut

open CutOut in
theorem cached_balance_exact_asked : ∃ st, Machine.exec BalanceRun.step { session } asked = some st ∧
    st.session.surfaceNodes = [1, 5, 4, 6] ∧ (cachedBalance st.cache st.session).1 = computeBalance st.session := by
  have hruns : Machine.exec BalanceRun.step { session } asked = some ((Machine.exec BalanceRun.step { session } asked).getD { session }) := rfl
  exact ⟨_, hruns, rfl, cached_balance_exact session_tidy (.exec .start hruns)⟩

end Pydsh
