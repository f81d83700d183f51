import Pydsh.Lib.Effect
import Pydsh.Session.Append

/-!
# What is put into a log between the events of other code

A log grows by the events of several writers. Of some event types one writer is the only one: `own` says of which. `Session.Logs`
says that a session grew by a list of that writer's entries, in their order: whatever else came into the log in between, it is of
no type that is the writer's own.
-/

namespace Pydsh

/-- An event by its type and data. -/
abbrev LogEntry : Type := EventType × Json

/-- The entry of an event. -/
def SessionEvent.entry (e : SessionEvent) : LogEntry := (e.type, e.data)

/-- The entries of the own types. -/
def owned (own : EventType → Bool) (entries : List LogEntry) : List LogEntry := entries.filter (fun entry => own entry.1)

@[simp] theorem owned_append (own : EventType → Bool) (xs ys : List LogEntry) :
    owned own (xs ++ ys) = owned own xs ++ owned own ys := List.filter_append xs ys

/-- `[e.data for e in events if e.type == type]`. -/
def dataOf (type : EventType) (events : List SessionEvent) : List PyValue :=
  (events.filter (fun e => decide (e.type = type))).map (fun e => e.data.loads)

@[simp] theorem dataOf_append (type : EventType) (xs ys : List SessionEvent) :
    dataOf type (xs ++ ys) = dataOf type xs ++ dataOf type ys := by
  simp [dataOf]

theorem dataOf_singleton (type : EventType) (e : SessionEvent) :
    dataOf type [e] = if e.type = type then [e.data.loads] else [] := by
  by_cases h : e.type = type <;> simp [dataOf, h]

/-- An append that replaces nothing, of a document, puts its event at the end of the log. -/
theorem append_document (s : Session) {c : AppendCall} {j : Json} (hdata : c.data = j.loads) (hknown : c.eventType.isKnown = true)
    (hr : c.surfaceOp.isReplace = false) : ∃ event session, s.append c = (.ok event, session) ∧
      session.events = s.events ++ [event] ∧ event.entry = (c.eventType, j) ∧ event.seq = s.seq + 1 := by
  have hadmits : c.Admits j := ⟨by simp [hr], hknown, by rw [hdata]; exact validateLosslessJson_loads j⟩
  exact ⟨_, _, append_of_not_replace s hadmits hr, Session.addEvent_events s _, rfl, rfl⟩

/-- The session grew by the entries, and by other events that are of no own type. -/
def Session.Logs (own : EventType → Bool) (s s' : Session) (told : List LogEntry) : Prop :=
  ∃ events, s'.events = s.events ++ events ∧ told.Sublist (events.map SessionEvent.entry) ∧
    owned own (events.map SessionEvent.entry) = owned own told

namespace Session.Logs

variable {own : EventType → Bool} {s s₁ s₂ : Session} {xs ys : List LogEntry}

theorem refl (s : Session) : s.Logs own s [] := ⟨[], by simp, by simp, rfl⟩

theorem trans (h₁ : s.Logs own s₁ xs) (h₂ : s₁.Logs own s₂ ys) : s.Logs own s₂ (xs ++ ys) := by
  obtain ⟨events₁, hgrown₁, htold₁, hown₁⟩ := h₁
  obtain ⟨events₂, hgrown₂, htold₂, hown₂⟩ := h₂
  refine ⟨events₁ ++ events₂, by rw [hgrown₂, hgrown₁, List.append_assoc], ?_, ?_⟩
  · rw [List.map_append]
    exact htold₁.append htold₂
  · rw [List.map_append, owned_append, owned_append, hown₁, hown₂]

/-- An append of a type that is not own tells nothing, whether it is accepted or refused. -/
theorem append_other (s : Session) {c : AppendCall} (h : own c.eventType = false) : s.Logs own (s.append c).2 [] := by
  rcases append_events s c with hsame | ⟨j, hgrown⟩
  · exact ⟨[], by simpa using hsame, by simp, rfl⟩
  · exact ⟨[c.event s j], hgrown, by simp, by simp [owned, SessionEvent.entry, h]⟩

theorem appends_other (s : Session) {calls : List AppendCall} (h : ∀ c ∈ calls, own c.eventType = false) :
    s.Logs own (s.appends calls) [] := by
  unfold Session.appends
  induction calls generalizing s with
  | nil => exact .refl s
  | cons c calls ih =>
    have hrest := ih (s.append c).2 (fun c' hc' => h c' (List.mem_cons_of_mem c hc'))
    exact (append_other s (h c List.mem_cons_self)).trans hrest

/-- An append that replaces nothing, of data that passes the gate, tells its entry. -/
theorem append_told (s : Session) {c : AppendCall} {j : Json} (hknown : c.eventType.isKnown = true)
    (hreplace : c.surfaceOp.isReplace = false) (hdata : validateLosslessJson c.data = .ok j) :
    s.Logs own (s.append c).2 [(c.eventType, j)] := by
  have hadmits : c.Admits j := ⟨by simp [hreplace], hknown, hdata⟩
  rw [append_of_not_replace s hadmits hreplace]
  exact ⟨[c.event s j], Session.addEvent_events s _, by simp [SessionEvent.entry], rfl⟩

end Session.Logs

theorem Session.logging (own : EventType → Bool) : Effect.Telling (Session.Logs own) := ⟨.refl, .trans⟩

end Pydsh
