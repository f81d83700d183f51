import Mathlib.Data.List.Forall2
import Pydsh.Session.Surface

/-!
# What the surface shows

`Session.Shows` gives the surface of a session row by row: each node with the message it shows. What is told goes to the end of the
rows, a replacement swaps a run of them for one row, and a log-only event leaves them as they are.
-/

namespace Pydsh

/-- A node of the surface and the message it shows. -/
abbrev SurfaceRow : Type := Nat × Entry

/-- The message of a row. -/
abbrev SurfaceRow.message (row : SurfaceRow) : Message := row.2.message

/-- The rows are the surface: their nodes are its nodes, and the event under each carries the message. -/
structure Session.Shows (s : Session) (rows : List SurfaceRow) : Prop where
  nodes : s.surfaceNodes = rows.map (·.1)
  carries : ∀ row ∈ rows, ∃ e, s.eventAt row.1 = some e ∧ e.Carries row.2

theorem rows_of_carries {events : List SessionEvent} {entries : List Entry} (h : List.Forall₂ SessionEvent.Carries events entries) :
    ∃ rows : List SurfaceRow, rows.map (·.2) = entries ∧ rows.map (·.1) = events.map (·.seq) ∧
      ∀ row ∈ rows, ∃ e ∈ events, e.seq = row.1 ∧ e.Carries row.2 := by
  induction h with
  | nil => exact ⟨[], rfl, rfl, fun _ hrow => absurd hrow List.not_mem_nil⟩
  | @cons e entry events entries hcarries _ ih =>
    obtain ⟨rows, hentries, hnodes, hrows⟩ := ih
    refine ⟨(e.seq, entry) :: rows, by rw [List.map_cons, hentries], by rw [List.map_cons, List.map_cons, hnodes], ?_⟩
    intro row hrow
    rcases List.mem_cons.mp hrow with rfl | hrow
    · exact ⟨e, List.mem_cons_self, rfl, hcarries⟩
    · obtain ⟨e', he', hseq, hcarry⟩ := hrows row hrow
      exact ⟨e', List.mem_cons_of_mem e he', hseq, hcarry⟩

namespace Session.Shows

variable {s s' : Session} {rows : List SurfaceRow}

theorem new (id : String) (header : SessionHeader) : (Session.new id header).Shows [] :=
  ⟨rfl, fun _ hrow => absurd hrow List.not_mem_nil⟩

theorem deriveMessages (h : s.Shows rows) : s.deriveMessages = .ok (rows.map (fun row => row.2.message.toJson)) := by
  unfold Session.deriveMessages
  rw [h.nodes]
  have hcarries := h.carries
  clear h
  induction rows with
  | nil => rfl
  | cons row rows ih =>
    obtain ⟨e, hat, hcarry⟩ := hcarries row List.mem_cons_self
    have hrest := ih (fun row' hrow' => hcarries row' (List.mem_cons_of_mem row hrow'))
    simp only [List.map_cons, Session.messagesAt, hat, hcarry.message, hrest, bind, Except.bind]
    rfl

theorem node_le (h : s.Shows rows) (hs : s.Tidy) {row : SurfaceRow} (hrow : row ∈ rows) : row.1 ≤ s.seq := by
  refine hs row.1 ?_
  rw [h.nodes]
  exact List.mem_map_of_mem hrow

theorem keep (h : s.Shows rows) (hat : ∀ row ∈ rows, s'.eventAt row.1 = s.eventAt row.1) (hnodes : s'.surfaceNodes = s.surfaceNodes) :
    s'.Shows rows := by
  refine ⟨hnodes.trans h.nodes, ?_⟩
  intro row hrow
  rw [hat row hrow]
  exact h.carries row hrow

theorem tells (h : s.Shows rows) (hs : s.Tidy) {entries : List Entry} (htells : s.Tells s' entries) :
    ∃ added : List SurfaceRow, added.map (·.2) = entries ∧ (∀ row ∈ added, s.seq < row.1) ∧ s'.Shows (rows ++ added) := by
  obtain ⟨log, hadds, hcarries⟩ := htells
  obtain ⟨added, hentries, hnodes, hrows⟩ := rows_of_carries hcarries
  have hnew : ∀ row ∈ added, ∃ e ∈ log, e.seq = row.1 ∧ e.Carries row.2 := by
    intro row hrow
    obtain ⟨e, he, hseq, hcarry⟩ := hrows row hrow
    exact ⟨e, (List.mem_filter.mp he).1, hseq, hcarry⟩
  refine ⟨added, hentries, ?_, ?_, ?_⟩
  · intro row hrow
    obtain ⟨e, he, hseq, -⟩ := hnew row hrow
    exact hseq ▸ (hadds.above e he).1
  · rw [hadds.surface, h.nodes, List.map_append, hnodes]
  · intro row hrow
    rcases List.mem_append.mp hrow with hrow | hrow
    · rw [hadds.eventAt_old (h.node_le hs hrow)]
      exact h.carries row hrow
    · obtain ⟨e, he, hseq, hcarry⟩ := hnew row hrow
      exact ⟨e, hseq ▸ hadds.eventAt_new he, hcarry⟩

theorem commit (h : s.Shows rows) (hs : s.Tidy) {e : SessionEvent} (he : e.seq = s.seq + 1) : (s.commit e).Shows rows := by
  refine h.keep (fun row hrow => eventAt_commit s ?_) rfl
  have := h.node_le hs hrow
  omega

theorem replaceRun (h : s.Shows rows) (hs : s.Tidy) {e : SessionEvent} (he : e.seq = s.seq + 1) {entry : Entry}
    (hcarries : e.Carries entry) (first last : Nat) : (s.replaceRun first last e).Shows (Splice.splice rows first last (e.seq, entry)) := by
  refine ⟨?_, ?_⟩
  · simp only [Session.replaceRun, h.nodes, Splice.splice, List.map_append, List.map_cons, List.map_take, List.map_drop]
  · intro row hrow
    rcases Splice.mem_of_mem_splice hrow with rfl | hrow
    · exact ⟨e, eventAt_commit_self s e, hcarries⟩
    · obtain ⟨old, hold, hcarry⟩ := h.carries row hrow
      have hle := h.node_le hs hrow
      exact ⟨old, (eventAt_commit s (by omega)).trans hold, hcarry⟩

end Session.Shows

end Pydsh
