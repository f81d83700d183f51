import Pydsh.Session.Replay

/-!
# Logs by seq

The parts of a log on each side of a seq, and its last seq, for logs whose seqs increase as those of a session do.
-/

namespace Pydsh

/-- `EMPTY_WATERMARK`. -/
def emptyWatermark : Nat := 0

/-- `FIRST_SEQ`. -/
def firstSeq : Int := 1

/-- The events up to a seq. -/
def upTo (events : List SessionEvent) (n : Int) : List SessionEvent := events.filter (fun e => decide ((e.seq : Int) ≤ n))

/-- The events after a seq. -/
def eventsAfter (events : List SessionEvent) (n : Int) : List SessionEvent :=
  events.filter (fun e => decide ((e.seq : Int) > n))

/-- The events from a seq on. -/
def tailFrom (events : List SessionEvent) (n : Int) : List SessionEvent := events.filter (fun e => decide (n ≤ (e.seq : Int)))

/-- The seq of the last of some events, or a watermark when there is none. -/
def lastSeq (watermark : Nat) (events : List SessionEvent) : Nat := (events.getLast?.map (·.seq)).getD watermark

@[simp] theorem lastSeq_nil (watermark : Nat) : lastSeq watermark [] = watermark := rfl

@[simp] theorem lastSeq_append_singleton (watermark : Nat) (events : List SessionEvent) (e : SessionEvent) :
    lastSeq watermark (events ++ [e]) = e.seq := by
  simp [lastSeq]

theorem lastSeq_cons (watermark : Nat) (e : SessionEvent) (events : List SessionEvent) :
    lastSeq watermark (e :: events) = lastSeq e.seq events := by
  cases events with
  | nil => rfl
  | cons x xs => simp [lastSeq, List.getLast?_cons]

/-! ## Parts -/

theorem mem_tailFrom {events : List SessionEvent} {n : Int} {e : SessionEvent} :
    e ∈ tailFrom events n ↔ e ∈ events ∧ n ≤ (e.seq : Int) := by
  simp [tailFrom]

theorem upTo_append (xs ys : List SessionEvent) (n : Int) : upTo (xs ++ ys) n = upTo xs n ++ upTo ys n :=
  List.filter_append xs ys

theorem upTo_eq_nil {events : List SessionEvent} {n : Int} (h : ∀ e ∈ events, (e.seq : Int) > n) : upTo events n = [] :=
  List.filter_eq_nil_iff.mpr (fun e he => by simpa using h e he)

theorem upTo_eq_self {events : List SessionEvent} {n : Int} (h : ∀ e ∈ events, (e.seq : Int) ≤ n) : upTo events n = events :=
  List.filter_eq_self.mpr (fun e he => by simpa using h e he)

theorem eventsAfter_eq_self {events : List SessionEvent} {n : Int} (h : ∀ e ∈ events, (e.seq : Int) > n) :
    eventsAfter events n = events :=
  List.filter_eq_self.mpr (fun e he => by simpa using h e he)

theorem tailFrom_eq_self {events : List SessionEvent} {n : Int} (h : ∀ e ∈ events, n ≤ (e.seq : Int)) :
    tailFrom events n = events :=
  List.filter_eq_self.mpr (fun e he => by simpa using h e he)

/-- What comes after a seq can be taken from any tail that starts no later than the next seq. -/
theorem eventsAfter_tailFrom {events : List SessionEvent} {m n : Int} (h : m ≤ n + 1) :
    eventsAfter (tailFrom events m) n = eventsAfter events n := by
  unfold eventsAfter tailFrom
  rw [List.filter_filter]
  refine List.filter_congr (fun e _ => ?_)
  simp only [Bool.and_eq_left_iff_imp, decide_eq_true_eq]
  omega

/-! ## Increasing logs -/

theorem le_lastSeq {events : List SessionEvent} (h : events.Pairwise (fun x y => x.seq < y.seq)) (watermark : Nat) :
    ∀ e ∈ events, e.seq ≤ lastSeq watermark events := by
  induction events generalizing watermark with
  | nil => simp
  | cons x xs ih =>
    obtain ⟨hx, hxs⟩ := List.pairwise_cons.mp h
    intro e he
    rw [lastSeq_cons]
    rcases List.mem_cons.mp he with rfl | he
    · cases xs with
      | nil => exact Nat.le_refl _
      | cons y ys => exact Nat.le_trans (Nat.le_of_lt (hx y List.mem_cons_self)) (ih hxs e.seq y List.mem_cons_self)
    · exact ih hxs x.seq e he

/-- The last seq of a log that has events is that of one of them. -/
theorem lastSeq_mem {events : List SessionEvent} (h : events ≠ []) (watermark : Nat) :
    ∃ e ∈ events, e.seq = lastSeq watermark events := by
  refine ⟨events.getLast h, List.getLast_mem h, ?_⟩
  simp [lastSeq, List.getLast?_eq_some_getLast h]

/-- An increasing log is its events up to a seq, and then the others. -/
theorem upTo_append_eventsAfter {events : List SessionEvent} (h : events.Pairwise (fun x y => x.seq < y.seq)) (n : Int) :
    upTo events n ++ eventsAfter events n = events := by
  induction events with
  | nil => rfl
  | cons x xs ih =>
    obtain ⟨hx, hxs⟩ := List.pairwise_cons.mp h
    by_cases hle : (x.seq : Int) ≤ n
    · have hup : upTo (x :: xs) n = x :: upTo xs n := List.filter_cons_of_pos (by simpa using hle)
      have haf : eventsAfter (x :: xs) n = eventsAfter xs n := List.filter_cons_of_neg (by simpa using hle)
      rw [hup, haf, List.cons_append, ih hxs]
    · have hall : ∀ e ∈ x :: xs, (e.seq : Int) > n := by
        intro e he
        rcases List.mem_cons.mp he with rfl | he
        · omega
        · have := hx e he
          omega
      rw [upTo_eq_nil hall, eventsAfter_eq_self hall, List.nil_append]

/-- The seqs of a log that sessions wrote: they increase from the first seq on. -/
structure Numbered (events : List SessionEvent) : Prop where
  increasing : events.Pairwise (fun x y => x.seq < y.seq)
  first : ∀ e ∈ events, firstSeq ≤ e.seq

/-- Two logs of which one goes on from the other have the same events up to a seq that both have reached. -/
theorem upTo_eq_upTo {xs ys : List SessionEvent} (hys : Numbered ys) (hpre : xs <+: ys) {n : Int}
    (hn : n ≤ lastSeq emptyWatermark xs) :
    upTo ys n = upTo xs n := by
  obtain ⟨zs, rfl⟩ := hpre
  obtain ⟨-, -, hlt⟩ := List.pairwise_append.mp hys.increasing
  have habove : ∀ z ∈ zs, (z.seq : Int) > n := by
    intro z hz
    by_cases hxs : xs = []
    · subst hxs
      have := hys.first z hz
      simp only [lastSeq_nil, emptyWatermark] at hn
      simp only [firstSeq] at this
      omega
    · obtain ⟨x, hx, hlast⟩ := lastSeq_mem hxs emptyWatermark
      have := hlt x hx z hz
      omega
  rw [upTo_append, upTo_eq_nil habove, List.append_nil]

/-- A tail that is not empty ends where the log does; an empty one starts after it. -/
theorem lastSeq_tailFrom {events : List SessionEvent} (h : events.Pairwise (fun x y => x.seq < y.seq)) {n : Int}
    (hne : tailFrom events n ≠ []) (watermark : Nat) : lastSeq watermark (tailFrom events n) = lastSeq watermark events := by
  have hev : events ≠ [] := by
    rintro rfl
    exact hne rfl
  obtain ⟨t, ht, htlast⟩ := lastSeq_mem hne watermark
  obtain ⟨e, he, helast⟩ := lastSeq_mem hev watermark
  obtain ⟨htev, htn⟩ := mem_tailFrom.mp ht
  have hte : t.seq ≤ lastSeq watermark events := le_lastSeq h watermark t htev
  have het : e.seq ≤ lastSeq watermark (tailFrom events n) :=
    le_lastSeq (h.filter _) watermark e (mem_tailFrom.mpr ⟨he, by omega⟩)
  omega

end Pydsh
