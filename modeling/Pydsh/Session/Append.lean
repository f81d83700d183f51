import Pydsh.Session.Session

/-!
# What one append does

The four outcomes of `append`, one lemma each: refused before any change, a log-only event, a surface event at the end, a
replacement. From them: an append that raises leaves the session as it was, except for a replacement that passed the checks
and names no run of the surface (`append_atomic_iff`). Such a call raises after its event is in the log, and the log can then
no longer be loaded.
-/

namespace Pydsh

/-! ## The trust boundary -/

@[simp] theorem validateLosslessJson_loads (j : Json) : validateLosslessJson j.loads = .ok j := by
  simp [validateLosslessJson, j.dumps_loads, (PyValue.eqJson_iff j j.loads).mpr rfl, j.hasNonFinite_loads]

/-- The gate passes exactly the values that are parses of a document. -/
theorem validateLosslessJson_eq_ok_iff (v : PyValue) (j : Json) : validateLosslessJson v = .ok j ↔ v = j.loads := by
  constructor
  · intro h
    unfold validateLosslessJson at h
    split at h
    · cases h
    · rename_i parsed hdumps
      split at h
      · cases h
      · rename_i hsame
        simp only [Bool.or_eq_true, Bool.not_eq_true', not_or, Bool.not_eq_false] at hsame
        cases h
        exact (PyValue.eqJson_iff _ v).mp hsame.1
  · rintro rfl
    exact validateLosslessJson_loads j

theorem dumps_record (kvs : List (String × Json)) (k : String) (v : PyValue) :
    PyValue.dumpsFields ((kvs.map (fun kv => (kv.1, kv.2.loads)) ++ [(k, v)]).map (fun kv => (PyKey.str kv.1, kv.2))) =
      v.dumps.map (fun j => kvs ++ [(k, j)]) := by
  induction kvs with
  | nil => cases hv : v.dumps <;> simp [PyValue.dumpsFields, PyKey.dumps, hv]
  | cons kv kvs ih =>
    simp only [List.map_cons, List.cons_append, PyValue.dumpsFields, PyKey.dumps, kv.2.dumps_loads, ih]
    cases v.dumps <;> rfl

theorem eqJson_record (kvs : List (String × Json)) (k : String) (v : PyValue) (j : Json) :
    PyValue.eqJsonFields ((kvs.map (fun kv => (kv.1, kv.2.loads)) ++ [(k, v)]).map (fun kv => (PyKey.str kv.1, kv.2)))
      (kvs ++ [(k, j)]) = v.eqJson j := by
  induction kvs with
  | nil => simp [PyValue.eqJsonFields]
  | cons kv kvs ih => simpa [PyValue.eqJsonFields, (PyValue.eqJson_iff kv.2 kv.2.loads).mpr rfl] using ih

theorem hasNonFinite_record (kvs : List (String × Json)) (k : String) (v : PyValue) :
    PyValue.hasNonFiniteFields ((kvs.map (fun kv => (kv.1, kv.2.loads)) ++ [(k, v)]).map (fun kv => (PyKey.str kv.1, kv.2))) =
      v.hasNonFinite := by
  induction kvs with
  | nil => simp [PyValue.hasNonFiniteFields]
  | cons kv kvs ih => simpa [PyValue.hasNonFiniteFields, kv.2.hasNonFinite_loads] using ih

/-- A record of parsed values and one more value passes the gate as that value does. -/
theorem validateLosslessJson_record (kvs : List (String × Json)) (k : String) (v : PyValue) :
    validateLosslessJson (.record (kvs.map (fun kv => (kv.1, kv.2.loads)) ++ [(k, v)])) =
      (validateLosslessJson v).map (fun j => .obj (kvs ++ [(k, j)])) := by
  unfold validateLosslessJson PyValue.record
  simp only [PyValue.dumps, dumps_record]
  cases hv : v.dumps with
  | none => rfl
  | some j =>
    simp only [Option.map_some, PyValue.eqJson, eqJson_record, PyValue.hasNonFinite, hasNonFinite_record]
    split <;> rfl

/-! ## The outcomes of an append -/

/-- The call passes every check `append` makes before it changes anything, with data that denotes `j`. -/
structure AppendCall.Admits (c : AppendCall) (j : Json) : Prop where
  surface : c.surfaceOp.isReplace = true → c.eventType.isSurface = true
  known : c.eventType.isKnown = true
  lossless : validateLosslessJson c.data = .ok j

/-- The event the call puts into the log of a session. -/
def AppendCall.event (c : AppendCall) (s : Session) (j : Json) : SessionEvent :=
  { type := c.eventType
    seq := s.seq + 1
    time := c.time
    data := j
    surfaceOp := if c.eventType.isSurface then c.surfaceOp else .none
    sourceEventSeqs := c.sourceEventSeqs }

@[simp] theorem AppendCall.event_seq (c : AppendCall) (s : Session) (j : Json) : (c.event s j).seq = s.seq + 1 := rfl

@[simp] theorem AppendCall.event_type (c : AppendCall) (s : Session) (j : Json) : (c.event s j).type = c.eventType := rfl

@[simp] theorem AppendCall.event_data (c : AppendCall) (s : Session) (j : Json) : (c.event s j).data = j := rfl

@[simp] theorem Session.commit_surfaceNodes (s : Session) (e : SessionEvent) :
    (s.commit e).surfaceNodes = s.surfaceNodes := rfl

@[simp] theorem Session.commit_events (s : Session) (e : SessionEvent) : (s.commit e).events = s.events ++ [e] := rfl

@[simp] theorem Session.commit_seq (s : Session) (e : SessionEvent) : (s.commit e).seq = s.seq + 1 := rfl

/-- A later event does not change what the log holds under an earlier seq. -/
theorem eventAt_commit (s : Session) {e : SessionEvent} {seq : Nat} (h : e.seq ≠ seq) :
    (s.commit e).eventAt seq = s.eventAt seq := by
  have hne : (e.seq == seq) = false := by simpa using h
  simp [Session.eventAt, hne]

theorem eventAt_commit_self (s : Session) (e : SessionEvent) : (s.commit e).eventAt e.seq = some e := by
  simp [Session.eventAt]

theorem append_of_not_admits (s : Session) {c : AppendCall} (h : ∀ j, ¬c.Admits j) : ∃ e, s.append c = (.error e, s) := by
  unfold Session.append
  by_cases hs : (c.surfaceOp.isReplace && !c.eventType.isSurface) = true
  · exact ⟨_, by rw [if_pos hs]⟩
  · by_cases hk : (!c.eventType.isKnown) = true
    · exact ⟨_, by rw [if_neg hs, if_pos hk]⟩
    · cases hv : validateLosslessJson c.data with
      | error e => exact ⟨e, by simp [hs, hk]⟩
      | ok j =>
        refine absurd ⟨?_, by simpa using hk, hv⟩ (h j)
        intro hr
        simpa [hr] using hs

/-- The session with an event at the end of its log, and at the end of its surface if it is a surface event. -/
def Session.addEvent (s : Session) (e : SessionEvent) : Session :=
  if e.type.isSurface then { s.commit e with surfaceNodes := s.surfaceNodes ++ [e.seq] } else s.commit e

/-- The session with an event at the end of its log that replaced a run of its surface. -/
def Session.replaceRun (s : Session) (first last : Nat) (e : SessionEvent) : Session :=
  { s.commit e with
    surfaceNodes := Splice.splice s.surfaceNodes first last e.seq
    replaceGeneration := s.replaceGeneration + 1
    replacements := s.replacements ++ [⟨e.seq, Splice.segment s.surfaceNodes first last⟩] }

/-- A call that passes the checks and replaces nothing adds its event. -/
theorem append_of_not_replace (s : Session) {c : AppendCall} {j : Json} (h : c.Admits j) (hr : c.surfaceOp.isReplace = false) :
    s.append c = (.ok (c.event s j), s.addEvent (c.event s j)) := by
  unfold Session.append
  simp only [hr, h.known, h.lossless, Bool.false_and, Bool.not_true, Bool.false_eq_true, if_false, AppendCall.event,
    Session.addEvent]
  by_cases ht : c.eventType.isSurface = true <;> simp [ht]

/-- A replacement that passes the checks puts its event into the log and then applies its surface operation. -/
theorem append_of_replace (s : Session) {c : AppendCall} {j : Json} (h : c.Admits j) (hr : c.surfaceOp.isReplace = true) :
    s.append c = match (s.commit (c.event s j)).applyReplaceOp c.surfaceOp (s.seq + 1) with
      | .error e => (.error e, s.commit (c.event s j))
      | .ok s' => (.ok (c.event s j), s') := by
  unfold Session.append
  have hevent : c.event s j = ⟨c.eventType, s.seq + 1, c.time, j, c.surfaceOp, c.sourceEventSeqs⟩ := by
    simp [AppendCall.event, h.surface hr]
  simp only [hr, h.known, h.lossless, h.surface hr, Bool.not_true, Bool.and_false, Bool.false_eq_true, if_false, if_true]
  exact hevent ▸ rfl

/-! ## Replacements that name a run -/

/-- The operation names a run of the surface: both its keys are there, both nodes are on the surface, in order. -/
def SurfaceOp.NamesRun (op : SurfaceOp) (nodes : List Nat) (first last : Nat) : Prop :=
  ∃ start stop, op.get? "start" = some start ∧ op.get? "end" = some stop ∧
    indexOf nodes start = some first ∧ indexOf nodes stop = some last ∧ first ≤ last

/-- A replacement of a run swaps the run for the new node and records what it shadowed. -/
theorem applyReplaceOp_of_namesRun (s : Session) {op : SurfaceOp} {first last : Nat} (h : op.NamesRun s.surfaceNodes first last)
    (seq : Nat) : s.applyReplaceOp op seq = .ok { s with
      surfaceNodes := Splice.splice s.surfaceNodes first last seq
      replaceGeneration := s.replaceGeneration + 1
      replacements := s.replacements ++ [⟨seq, Splice.segment s.surfaceNodes first last⟩] } := by
  obtain ⟨start, stop, hstart, hstop, hfirst, hlast, hle⟩ := h
  have hlt : ¬last < first := by omega
  simp [Session.applyReplaceOp, hstart, hstop, Session.applySurfaceReplace, hfirst, hlast, hlt]

theorem applyReplaceOp_of_not_namesRun (s : Session) {op : SurfaceOp}
    (h : ∀ first last, ¬op.NamesRun s.surfaceNodes first last) (seq : Nat) : ∃ e, s.applyReplaceOp op seq = .error e := by
  unfold Session.applyReplaceOp
  cases hstart : op.get? "start" with
  | none => exact ⟨_, rfl⟩
  | some start =>
    cases hstop : op.get? "end" with
    | none => exact ⟨_, rfl⟩
    | some stop =>
      simp only [Session.applySurfaceReplace]
      cases hfirst : indexOf s.surfaceNodes start with
      | none => exact ⟨_, rfl⟩
      | some first =>
        cases hlast : indexOf s.surfaceNodes stop with
        | none => exact ⟨_, rfl⟩
        | some last =>
          by_cases hlt : last < first
          · exact ⟨_, by simp [hlt]; rfl⟩
          · exact absurd ⟨start, stop, hstart, hstop, hfirst, hlast, by omega⟩ (h first last)

/-! ## The four outcomes -/

/-- The call is a replacement that passes the checks of type and data and names no run of the surface: a key of its range is
missing, one of its nodes is not on the surface, or its end stands before its start. -/
def AppendCall.ReplacesNoRun (c : AppendCall) (s : Session) : Prop :=
  c.surfaceOp.isReplace = true ∧ (∃ j, c.Admits j) ∧ ∀ first last, ¬c.surfaceOp.NamesRun s.surfaceNodes first last

/-- What an append does, in full: it is refused and changes nothing; it adds its event; it replaces a run of the surface by its
event; or its replacement names no run, and it raises with its event in the log. -/
theorem append_cases (s : Session) (c : AppendCall) :
    ((∀ j, ¬c.Admits j) ∧ ∃ e, s.append c = (.error e, s)) ∨
    (∃ j, c.Admits j ∧ c.surfaceOp.isReplace = false ∧ s.append c = (.ok (c.event s j), s.addEvent (c.event s j))) ∨
    (∃ j first last, c.Admits j ∧ c.surfaceOp.isReplace = true ∧ c.surfaceOp.NamesRun s.surfaceNodes first last ∧
      s.append c = (.ok (c.event s j), s.replaceRun first last (c.event s j))) ∨
    (∃ j e, c.Admits j ∧ c.ReplacesNoRun s ∧ s.append c = (.error e, s.commit (c.event s j))) := by
  by_cases hadm : ∃ j, c.Admits j
  · obtain ⟨j, hj⟩ := hadm
    right
    cases hr : c.surfaceOp.isReplace with
    | false => exact Or.inl ⟨j, hj, rfl, append_of_not_replace s hj hr⟩
    | true =>
      right
      have happ := append_of_replace s hj hr
      by_cases hrun : ∃ first last, c.surfaceOp.NamesRun s.surfaceNodes first last
      · obtain ⟨first, last, hrun⟩ := hrun
        rw [applyReplaceOp_of_namesRun (s.commit (c.event s j)) hrun] at happ
        exact Or.inl ⟨j, first, last, hj, rfl, hrun, happ⟩
      · have hno : ∀ first last, ¬c.surfaceOp.NamesRun s.surfaceNodes first last :=
          fun first last h => hrun ⟨first, last, h⟩
        obtain ⟨e, he⟩ := applyReplaceOp_of_not_namesRun (s.commit (c.event s j)) hno (s.seq + 1)
        rw [he] at happ
        exact Or.inr ⟨j, e, hj, ⟨hr, ⟨j, hj⟩, hno⟩, happ⟩
  · have hno : ∀ j, ¬c.Admits j := fun j hj => hadm ⟨j, hj⟩
    exact Or.inl ⟨hno, append_of_not_admits s hno⟩

/-- What an append that returned did: it added its event, or replaced a run of the surface by it. -/
theorem append_ok_cases {s s' : Session} {c : AppendCall} {e : SessionEvent} (h : s.append c = (.ok e, s')) :
    ∃ j, c.Admits j ∧ e = c.event s j ∧
      ((c.surfaceOp.isReplace = false ∧ s' = s.addEvent e) ∨
        (c.surfaceOp.isReplace = true ∧ ∃ first last, c.surfaceOp.NamesRun s.surfaceNodes first last ∧
          s' = s.replaceRun first last e)) := by
  rcases append_cases s c with ⟨-, e', h'⟩ | ⟨j, hj, hr, h'⟩ | ⟨j, first, last, hj, hr, hrun, h'⟩ | ⟨j, e', -, -, h'⟩
  · rw [h'] at h; cases h
  · rw [h'] at h; cases h; exact ⟨j, hj, rfl, Or.inl ⟨hr, rfl⟩⟩
  · rw [h'] at h; cases h; exact ⟨j, hj, rfl, Or.inr ⟨hr, first, last, hrun, rfl⟩⟩
  · rw [h'] at h; cases h

@[simp] theorem Session.addEvent_events (s : Session) (e : SessionEvent) : (s.addEvent e).events = s.events ++ [e] := by
  unfold Session.addEvent
  split <;> rfl

@[simp] theorem Session.replaceRun_events (s : Session) (first last : Nat) (e : SessionEvent) :
    (s.replaceRun first last e).events = s.events ++ [e] := rfl

/-- Whatever an append does, the log has its event more, or is as it was. -/
theorem append_events (s : Session) (c : AppendCall) :
    (s.append c).2.events = s.events ∨ ∃ j, (s.append c).2.events = s.events ++ [c.event s j] := by
  rcases append_cases s c with ⟨-, e, happ⟩ | ⟨j, -, -, happ⟩ | ⟨j, first, last, -, -, -, happ⟩ | ⟨j, e, -, -, happ⟩
  · exact Or.inl (by rw [happ])
  · exact Or.inr ⟨j, by rw [happ, Session.addEvent_events]⟩
  · exact Or.inr ⟨j, by rw [happ, Session.replaceRun_events]⟩
  · exact Or.inr ⟨j, by rw [happ, Session.commit_events]⟩

/-! ## Calls of known shape -/

/-- A call of a log-only type, with a document for data, puts its event into the log. -/
theorem append_logOnly (s : Session) {c : AppendCall} {j : Json} (hdata : c.data = j.loads) (hknown : c.eventType.isKnown = true)
    (hlog : c.eventType.isSurface = false) (hr : c.surfaceOp.isReplace = false) :
    s.append c = (.ok (c.event s j), s.commit (c.event s j)) := by
  have hsurface : c.surfaceOp.isReplace = true → c.eventType.isSurface = true := by simp [hr]
  have hadm : c.Admits j := ⟨hsurface, hknown, by rw [hdata]; exact validateLosslessJson_loads j⟩
  rw [append_of_not_replace s hadm hr]
  simp [Session.addEvent, hlog]

/-- A call of a log-only type that replaces nothing is refused and changes nothing, or its data is a document and its event is in the
log. -/
theorem append_logOnly_cases (s : Session) {c : AppendCall} (hknown : c.eventType.isKnown = true)
    (hlog : c.eventType.isSurface = false) (hr : c.surfaceOp.isReplace = false) : (∃ e, s.append c = (.error e, s)) ∨
      ∃ j, c.data = j.loads ∧ s.append c = (.ok (c.event s j), s.commit (c.event s j)) := by
  by_cases hdata : ∃ j : Json, c.data = j.loads
  · obtain ⟨j, hj⟩ := hdata
    exact Or.inr ⟨j, hj, append_logOnly s hj hknown hlog hr⟩
  · refine Or.inl (append_of_not_admits s (fun j hadmits => hdata ⟨j, ?_⟩))
    exact (validateLosslessJson_eq_ok_iff _ _).mp hadmits.lossless

theorem indexOf_int (nodes : List Nat) (n : Nat) : indexOf nodes (.int n) = nodes.idxOf? n := by
  unfold indexOf List.idxOf?
  congr 1
  funext m
  rw [Bool.eq_iff_iff]
  simp only [PyValue.eqNode, beq_iff_eq, Int.natCast_inj]
  exact eq_comm

/-- The two nodes are on the surface, the first not after the last. -/
def InOrder (nodes : List Nat) (first last : Nat) : Prop :=
  first ∈ nodes ∧ last ∈ nodes ∧ nodes.idxOf first ≤ nodes.idxOf last

/-- A replacement from one int to another names the run between the two nodes, when they are on the surface in order. -/
theorem SurfaceOp.namesRun_replace {nodes : List Nat} {start stop first last : Nat} :
    (SurfaceOp.replace start stop).NamesRun nodes first last ↔
      InOrder nodes start stop ∧ first = nodes.idxOf start ∧ last = nodes.idxOf stop := by
  have hidx : ∀ n i, nodes.idxOf? n = some i ↔ n ∈ nodes ∧ i = nodes.idxOf n := by
    intro n i
    by_cases hn : n ∈ nodes
    · obtain ⟨k, hk⟩ := Option.isSome_iff_exists.mp (List.isSome_idxOf?.mpr hn)
      have hkn : nodes.idxOf n = k := by rw [List.idxOf_eq_getD_idxOf?, hk]; rfl
      rw [hk, hkn]
      simp only [Option.some.injEq, hn, true_and]
      exact eq_comm
    · rw [List.idxOf?_eq_none_iff.mpr hn]
      simp [hn]
  simp only [SurfaceOp.NamesRun, SurfaceOp.get?_replace_start, SurfaceOp.get?_replace_end, Option.some.injEq]
  constructor
  · rintro ⟨_, _, rfl, rfl, hfirst, hlast, hle⟩
    rw [indexOf_int, hidx] at hfirst hlast
    obtain ⟨hf, rfl⟩ := hfirst
    obtain ⟨hl, rfl⟩ := hlast
    exact ⟨⟨hf, hl, hle⟩, rfl, rfl⟩
  · rintro ⟨⟨hf, hl, hle⟩, rfl, rfl⟩
    exact ⟨_, _, rfl, rfl, by rw [indexOf_int, hidx]; exact ⟨hf, rfl⟩, by rw [indexOf_int, hidx]; exact ⟨hl, rfl⟩, hle⟩

/-- A message that replaces a run of the surface, with a document for data. -/
theorem append_replace (s : Session) {c : AppendCall} {j : Json} (hdata : c.data = j.loads)
    (hsurface : c.eventType.isSurface = true) {start stop : Nat} (hop : c.surfaceOp = .replace start stop)
    (h : InOrder s.surfaceNodes start stop) : s.append c =
      (.ok (c.event s j), s.replaceRun (s.surfaceNodes.idxOf start) (s.surfaceNodes.idxOf stop) (c.event s j)) := by
  have hadm : c.Admits j :=
    ⟨fun _ => hsurface, EventType.isKnown_of_isSurface hsurface, by rw [hdata]; exact validateLosslessJson_loads j⟩
  rw [append_of_replace s hadm (by rw [hop]; rfl), hop,
    applyReplaceOp_of_namesRun (s.commit (c.event s j)) (SurfaceOp.namesRun_replace.mpr ⟨h, rfl, rfl⟩)]
  rfl

/-- A message that replaces a run that is not on the surface raises with its event in the log. -/
theorem append_replace_error (s : Session) {c : AppendCall} {j : Json} (hdata : c.data = j.loads)
    (hsurface : c.eventType.isSurface = true) {start stop : Nat} (hop : c.surfaceOp = .replace start stop)
    (h : ¬InOrder s.surfaceNodes start stop) : ∃ e, s.append c = (.error e, s.commit (c.event s j)) := by
  have hadm : c.Admits j :=
    ⟨fun _ => hsurface, EventType.isKnown_of_isSurface hsurface, by rw [hdata]; exact validateLosslessJson_loads j⟩
  have hno : ∀ first last, ¬(SurfaceOp.replace start stop).NamesRun (s.commit (c.event s j)).surfaceNodes first last :=
    fun _ _ hrun => h (SurfaceOp.namesRun_replace.mp hrun).1
  obtain ⟨e, he⟩ := applyReplaceOp_of_not_namesRun (s.commit (c.event s j)) hno (s.seq + 1)
  rw [append_of_replace s hadm (by rw [hop]; rfl), hop, he]
  exact ⟨e, rfl⟩

/-! ## Sessions a caller can reach -/

/-- A session that some calls of `append`, raising or not, made from a new one. -/
inductive Session.Reachable : Session → Prop where
  | new (id : String) (header : SessionHeader) : Session.Reachable (Session.new id header)
  | append {s : Session} (c : AppendCall) : Session.Reachable s → Session.Reachable (s.append c).2

/-- The log of the session can be loaded: `from_json` of its snapshot does not raise. -/
def Session.Reloads (s : Session) : Prop := ∃ s', Session.fromJson s.toJson = .ok s'

theorem seedAll_append (s : Session) (xs ys : List SessionEvent) :
    s.seedAll (xs ++ ys) = (s.seedAll xs).bind (fun s' => s'.seedAll ys) := by
  induction xs generalizing s with
  | nil => rfl
  | cons x xs ih =>
    simp only [List.cons_append, Session.seedAll]
    cases s.seed x with
    | error e => rfl
    | ok s' => exact ih s'

/-! ## An append that raises -/

/-- What an append that raises must leave behind: the event list, the next seq, the surface, the generation and the replacement
record exactly as they were, so that a log that could be loaded still can. -/
def Session.AtomicOnError (s : Session) (c : AppendCall) : Prop :=
  ∀ e s', s.append c = (.error e, s') → s' = s ∧ (s.Reloads → s'.Reloads)

/-- An append that raises leaves everything as it was exactly when it is not a replacement that passed the checks and names no
run of the surface. -/
theorem append_atomic_iff (s : Session) (c : AppendCall) : s.AtomicOnError c ↔ ¬c.ReplacesNoRun s := by
  constructor
  · rintro hatomic ⟨hr, ⟨j, hj⟩, hno⟩
    obtain ⟨e, he⟩ := applyReplaceOp_of_not_namesRun (s.commit (c.event s j)) hno (s.seq + 1)
    have happ := append_of_replace s hj hr
    rw [he] at happ
    have hseq : (s.commit (c.event s j)).seq = s.seq := congrArg Session.seq (hatomic e _ happ).1
    simp at hseq
  · intro hno e s' happ
    have hs : s' = s := by
      rcases append_cases s c with ⟨-, e', h'⟩ | ⟨j, -, -, h'⟩ | ⟨j, first, last, -, -, -, h'⟩ | ⟨j, e', -, hbad, -⟩
      · rw [h'] at happ; exact (Prod.mk.inj happ).2.symm
      · rw [h'] at happ; cases happ
      · rw [h'] at happ; cases happ
      · exact absurd hbad hno
    exact ⟨hs, fun h => hs ▸ h⟩

namespace BadReplace

/-- A message of a user. -/
def hello : AppendCall :=
  { eventType := .userMessage, data := (createUserMessage "m1" [.text "hello"]).toJson.loads }

/-- A replacement of nodes 90 to 99 by a summary. -/
def summary : AppendCall :=
  { eventType := .userMessage, data := (createUserMessage "m2" [.text "a summary"]).toJson.loads,
    surfaceOp := .replace 90 99 }

/-- A session with one message. -/
def session : Session := ((Session.new "chat-1" { id := "chat-1" }).append hello).2

theorem append_summary : session.append summary = (.error (.notOnSurface (.int 90) [1]),
    session.commit (summary.event session (createUserMessage "m2" [.text "a summary"]).toJson)) := by
  rw [append_of_replace session (j := (createUserMessage "m2" [.text "a summary"]).toJson)
    ⟨fun _ => rfl, rfl, validateLosslessJson_loads _⟩ rfl]
  rfl

end BadReplace

open BadReplace in
/-- A replacement of nodes that are not on the surface raises after its event is in the log: the session has changed, and its
log, which could be loaded before, cannot be loaded any more. -/
theorem append_not_atomic : session.Reachable ∧ session.Reloads ∧ ¬session.AtomicOnError summary ∧
    ¬(session.append summary).2.Reloads := by
  refine ⟨.append hello (.new _ _), ?_, ?_, ?_⟩
  · exact ⟨session, rfl⟩
  · intro hatomic
    have hseq := congrArg Session.seq (hatomic _ _ append_summary).1
    simp at hseq
  · rw [append_summary]
    rintro ⟨s', hs'⟩
    have : Session.fromJson (session.commit (summary.event session (createUserMessage "m2" [.text "a summary"]).toJson)).toJson
        = .error (.notOnSurface (.int 90) [1]) := rfl
    rw [this] at hs'
    cases hs'

end Pydsh
