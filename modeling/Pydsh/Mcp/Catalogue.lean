import Pydsh.Mcp.Supervision

/-!
# The registry is in step

`mcp/bridge.py`, `sync_tools`, under the supervision of `mcp/connection.py`: the server's tools in the registry are those of the current
generation, until a give-up or a disposal is over and none are left. Tools of other owners stay in any run. But a sync that raises, as the
registry refuses a tool, puts the previous tools back and drops what takes them out; one that cannot put them back claims them all the
same; and `dispose` and a later sync after a give-up know nothing of each other (`catalogue_in_step`).
-/

namespace Pydsh

namespace McpConnection

variable {sha : Sha256} {server : McpServer} {s t s' : McpConnection}

/-- A give-up or a disposal is over. -/
def Finished (s : McpConnection) : Prop :=
  s.supervisor.phase = .ended .gaveUp ∨ s.disposing = .done ∨ s.disposing = .cancelled

/-- The server's tools in the registry are those of the current generation, which takes each out again; after a give-up or a disposal
there are none. -/
structure InStep (s : McpConnection) : Prop where
  registered : ∀ name tool, s.catalogue.registry.get? name = some (.server tool) ↔ s.catalogue.generation.tools.get? name = some tool
  removable : ∀ name, name ∈ s.catalogue.generation.disposers ↔ (s.catalogue.generation.tools.get? name).isSome
  gone : s.Finished → ∀ name, s.catalogue.generation.tools.get? name = none

/-- The sync of a step, with the tools that it fetched. -/
structure Fetched (sha : Sha256) (server : McpServer) (s : McpConnection) (sync : Syncing) (tools : Dict String McpTool) : Prop where
  syncing : s.syncing = some sync
  fetched : ∃ rawNames, sync.listed = some rawNames ∧ fetchTools sha server.name sync.client rawNames .empty = some tools

/-- The registry takes a set of tools in place of the previous generation of a sync. -/
def Accepts (s : McpConnection) (refused : String → Bool) (sync : Syncing) (tools : Dict String McpTool) : Prop :=
  TakesAll refused (sync.previous.leaves s.catalogue.registry) tools

/-- A step gets out of step: tools are registered, or put back, after a give-up or a disposal; the registry refuses tools, and the
previous ones are put back by a sync that raises, or cannot be put back; a disposal is cancelled before the tools are taken out. -/
inductive Strays (sha : Sha256) (server : McpServer) (s : McpConnection) : ConnectionAction → Prop where
  | late {sync : Syncing} {tools : Dict String McpTool} {refused refusedBack : String → Bool} {name : String} {tool : McpTool}
    (hfetched : Fetched sha server s sync tools) (hfinished : s.Finished) (haccepts : s.Accepts refused sync tools)
    (htool : tools.get? name = some tool) : Strays sha server s (.syncs refused refusedBack)
  | restoredLate {sync : Syncing} {tools : Dict String McpTool} {refused refusedBack : String → Bool} {name : String} {tool : McpTool}
    (hfetched : Fetched sha server s sync tools) (hfinished : s.Finished) (hrefuses : ¬ s.Accepts refused sync tools)
    (hback : server.failOnStartupError = true → s.Accepts refusedBack sync sync.previous.tools)
    (htool : sync.previous.tools.get? name = some tool) : Strays sha server s (.syncs refused refusedBack)
  | forgotten {sync : Syncing} {tools : Dict String McpTool} {refused refusedBack : String → Bool} {name : String} {tool : McpTool}
    (hfetched : Fetched sha server s sync tools) (hnot : ¬ s.Finished) (hrefuses : ¬ s.Accepts refused sync tools)
    (hraises : server.failOnStartupError = true) (htool : sync.previous.tools.get? name = some tool) :
    Strays sha server s (.syncs refused refusedBack)
  | lost {sync : Syncing} {tools : Dict String McpTool} {refused refusedBack : String → Bool}
    (hfetched : Fetched sha server s sync tools) (hnot : ¬ s.Finished) (hrefuses : ¬ s.Accepts refused sync tools)
    (hcontains : server.failOnStartupError = false) (hback : ¬ s.Accepts refusedBack sync sync.previous.tools) :
    Strays sha server s (.syncs refused refusedBack)
  | interrupted {name : String} {tool : McpTool} (hclosing : s.disposing = .closing)
    (htool : s.catalogue.generation.tools.get? name = some tool) : Strays sha server s .disposeCancelled

/-- What holds in every run: a sync began with the current generation, unless it was disposed of since; a generation takes out only tools
of the server. -/
structure Linked (s : McpConnection) : Prop where
  shared : ∀ sync, s.syncing = some sync →
    sync.previous = s.catalogue.generation ∨ (s.disposing = .done ∧ sync.previous.disposers = [])
  fresh : s.disposed = false → s.disposing = .notYet
  owns : ∀ name, name ∈ s.catalogue.generation.disposers → ∃ tool, s.catalogue.registry.get? name = some (.server tool)

/-! ## Tools of other owners -/

/-- A connection keeps the entries of other owners. -/
def KeepsOthers (s t : McpConnection) : Prop :=
  ∀ name owner, s.catalogue.registry.get? name = some (.other owner) → t.catalogue.registry.get? name = some (.other owner)

/-- Taking out a generation leaves the entries of other owners. -/
theorem Linked.get?_clear (h : s.Linked) {name : String} {owner : Nat}
    (hother : s.catalogue.registry.get? name = some (.other owner)) : s.catalogue.clear.registry.get? name = some (.other owner) := by
  have hnot : name ∉ s.catalogue.generation.disposers := by
    intro hmem
    obtain ⟨tool, htool⟩ := h.owns name hmem
    rw [hother] at htool
    cases htool
  exact (get?_leaves s.catalogue.generation s.catalogue.registry name).trans ((if_neg hnot).trans hother)

theorem Linked.get?_previous (h : s.Linked) {sync : Syncing} (hsync : s.syncing = some sync) {name : String} {owner : Nat}
    (hother : s.catalogue.registry.get? name = some (.other owner)) :
    (sync.previous.leaves s.catalogue.registry).get? name = some (.other owner) := by
  rcases h.shared sync hsync with hsame | ⟨-, hnone⟩
  · rw [hsame]
    exact h.get?_clear hother
  · rw [get?_leaves, hnone, if_neg List.not_mem_nil]
    exact hother

theorem Linked.of_same (h : s.Linked) (hcatalogue : t.catalogue = s.catalogue) (hdisposed : t.disposed = s.disposed)
    (hdisposing : t.disposing = s.disposing) (hsyncing : ∀ sync, t.syncing = some sync → s.syncing = some sync) : t.Linked := by
  constructor
  · intro sync hsync
    rw [hcatalogue, hdisposing]
    exact h.shared sync (hsyncing sync hsync)
  · rw [hdisposed, hdisposing]
    exact h.fresh
  · rw [hcatalogue]
    exact h.owns

theorem linked_cleared (h : s.Linked) (supervisor : Supervisor) (waiting : List Waiter) (hfree : s.syncing = none) :
    ({ s with
      catalogue := s.catalogue.clear
      supervisor
      waiting } : McpConnection).Linked := by
  refine ⟨?_, h.fresh, ?_⟩
  · intro sync hsync
    rw [hfree] at hsync
    cases hsync
  · intro name hmem
    cases hmem

theorem Linked.takesLock (h : s.Linked) (hfree : s.syncing = none) (waiter : Waiter) :
    (s.takesLock waiter).Linked ∧ KeepsOthers s (s.takesLock waiter) := by
  rcases takesLock_cases s waiter with ⟨rfl, heq⟩ | ⟨-, -, client, -, heq⟩ | ⟨-, -, heq⟩
  · rw [heq]
    refine ⟨linked_cleared h _ s.waiting hfree, ?_⟩
    intro name owner hother
    exact h.get?_clear hother
  · rw [heq]
    refine ⟨⟨?_, h.fresh, h.owns⟩, fun _ _ hother => hother⟩
    rintro sync ⟨⟩
    exact Or.inl rfl
  · rw [heq]
    cases waiter with
    | attempt => exact ⟨h.of_same rfl rfl rfl (fun _ hsync => hsync), fun _ _ hother => hother⟩
    | call => exact ⟨h, fun _ _ hother => hother⟩
    | giveUp => exact ⟨h, fun _ _ hother => hother⟩

theorem Linked.enters (h : s.Linked) (waiter : Waiter) : (s.enters waiter).Linked ∧ KeepsOthers s (s.enters waiter) := by
  rcases enters_cases s waiter with ⟨hfree, -, heq⟩ | heq
  · rw [heq]
    exact h.takesLock hfree waiter
  · rw [heq]
    exact ⟨h.of_same rfl rfl rfl (fun _ hsync => hsync), fun _ _ hother => hother⟩

theorem Linked.fails (h : s.Linked) (server : McpServer) (waiter : Waiter) :
    (s.fails server waiter).Linked ∧ KeepsOthers s (s.fails server waiter) := by
  cases waiter with
  | attempt => exact ⟨h.of_same rfl rfl rfl (fun _ hsync => hsync), fun _ _ hother => hother⟩
  | call => exact ⟨h, fun _ _ hother => hother⟩
  | giveUp => exact ⟨h, fun _ _ hother => hother⟩

theorem Linked.returns (h : s.Linked) (waiter : Waiter) : (s.returns waiter).Linked ∧ KeepsOthers s (s.returns waiter) := by
  cases waiter with
  | attempt => exact ⟨h.of_same rfl rfl rfl (fun _ hsync => hsync), fun _ _ hother => hother⟩
  | call => exact ⟨h, fun _ _ hother => hother⟩
  | giveUp => exact ⟨h, fun _ _ hother => hother⟩

theorem Linked.begins (h : s.Linked) (server : McpServer) (made : Bool) :
    (s.begins server made).Linked ∧ KeepsOthers s (s.begins server made) := by
  rcases begins_cases server s made with ⟨-, heq⟩ | ⟨-, heq⟩
  · rw [heq]
    exact ⟨h.of_same rfl rfl rfl (fun _ hsync => hsync), fun _ _ hother => hother⟩
  · rw [heq]
    exact h.fails server .attempt

theorem Linked.unregisters (h : s.Linked) (hdisposed : s.disposed = true) : s.unregisters.Linked ∧ KeepsOthers s s.unregisters := by
  refine ⟨⟨?_, ?_, ?_⟩, ?_⟩
  · intro sync hsync
    obtain ⟨before, -, rfl⟩ := Option.map_eq_some_iff.mp hsync
    exact Or.inr ⟨rfl, rfl⟩
  · intro hnot
    exact absurd (hdisposed.symm.trans hnot) Bool.false_ne_true.symm
  · intro name hmem
    cases hmem
  · intro name owner hother
    exact h.get?_clear hother

theorem Linked.closes (h : s.Linked) (hdisposed : s.disposed = true) (hdisposing : s.disposing ≠ .done) :
    s.closes.Linked ∧ KeepsOthers s s.closes := by
  unfold McpConnection.closes
  split
  · exact h.unregisters hdisposed
  · refine ⟨⟨?_, ?_, h.owns⟩, fun _ _ hother => hother⟩
    · intro sync hsync
      rcases h.shared sync hsync with hsame | ⟨hdone, -⟩
      · exact Or.inl hsame
      · exact absurd hdone hdisposing
    · intro hnot
      exact absurd (hdisposed.symm.trans hnot) Bool.false_ne_true.symm

/-- The registry of a sync that failed holds the previous tools, if it took them back, and else what it held without them. -/
def PutBack (s : McpConnection) (refusedBack : String → Bool) (sync : Syncing) (registry : Dict String Registered) : Prop :=
  (s.Accepts refusedBack sync sync.previous.tools ∧ ∃ generation,
    Holds registry (sync.previous.leaves s.catalogue.registry) sync.previous.tools generation) ∨
  (¬ s.Accepts refusedBack sync sync.previous.tools ∧
    ∀ name, registry.get? name = (sync.previous.leaves s.catalogue.registry).get? name)

/-- A sync registers the new tools; or it puts the previous ones back and has their disposers, or none, if it could not; or it raises. -/
theorem registers_cases (server : McpServer) (refused refusedBack : String → Bool) (s : McpConnection) (sync : Syncing)
    (tools : Dict String McpTool) :
    (s.Accepts refused sync tools ∧ ∃ catalogue,
      Holds catalogue.registry (sync.previous.leaves s.catalogue.registry) tools catalogue.generation ∧
      s.registers server refused refusedBack sync tools = ({ s with
        syncing := none
        catalogue } : McpConnection).returns sync.caller) ∨
    (¬ s.Accepts refused sync tools ∧ server.failOnStartupError = false ∧ s.Accepts refusedBack sync sync.previous.tools ∧ ∃ catalogue,
      Holds catalogue.registry (sync.previous.leaves s.catalogue.registry) sync.previous.tools catalogue.generation ∧
      s.registers server refused refusedBack sync tools = ({ s with
        syncing := none
        catalogue } : McpConnection).returns sync.caller) ∨
    (¬ s.Accepts refused sync tools ∧ server.failOnStartupError = false ∧ ¬ s.Accepts refusedBack sync sync.previous.tools ∧ ∃ registry,
      (∀ name, registry.get? name = (sync.previous.leaves s.catalogue.registry).get? name) ∧
      s.registers server refused refusedBack sync tools = ({ s with
        syncing := none
        catalogue := ⟨registry, ⟨sync.previous.tools, []⟩⟩ } : McpConnection).returns sync.caller) ∨
    (¬ s.Accepts refused sync tools ∧ server.failOnStartupError = true ∧ ∃ registry, s.PutBack refusedBack sync registry ∧
      s.registers server refused refusedBack sync tools = ({ s with
        syncing := none
        catalogue := ⟨registry, { s.catalogue.generation with disposers := [] }⟩ } : McpConnection).fails server sync.caller) := by
  have hcases := @syncTools_cases server.failOnStartupError refused refusedBack s.catalogue.registry sync.previous tools
  simp only at hcases
  unfold registers
  simp only
  generalize syncTools server.failOnStartupError refused refusedBack s.catalogue.registry sync.previous tools = synced at hcases ⊢
  rcases hcases with ⟨haccepts, generation, hgeneration, hholds⟩ | ⟨hrefuses, hback, generation, hgeneration, hholds⟩ |
    ⟨hrefuses, hback, hgeneration, hsame⟩
  · rw [hgeneration]
    exact Or.inl ⟨haccepts, ⟨synced.registry, generation⟩, hholds, rfl⟩
  · cases hthrows : server.failOnStartupError with
    | false =>
      rw [hthrows] at hgeneration
      rw [hgeneration]
      exact Or.inr (Or.inl ⟨hrefuses, rfl, hback, ⟨synced.registry, generation⟩, hholds, rfl⟩)
    | true =>
      rw [hthrows] at hgeneration
      rw [hgeneration]
      exact Or.inr (Or.inr (Or.inr ⟨hrefuses, rfl, synced.registry, Or.inl ⟨hback, generation, hholds⟩, rfl⟩))
  · cases hthrows : server.failOnStartupError with
    | false =>
      rw [hthrows] at hgeneration
      rw [hgeneration]
      exact Or.inr (Or.inr (Or.inl ⟨hrefuses, rfl, hback, synced.registry, hsame, rfl⟩))
    | true =>
      rw [hthrows] at hgeneration
      rw [hgeneration]
      exact Or.inr (Or.inr (Or.inr ⟨hrefuses, rfl, synced.registry, Or.inr ⟨hback, hsame⟩, rfl⟩))

/-- A catalogue that a sync leaves: it takes out only the server's tools, and keeps what another owner has. -/
theorem Linked.synced (h : s.Linked) (catalogue : Catalogue)
    (howns : ∀ name, name ∈ catalogue.generation.disposers → ∃ tool, catalogue.registry.get? name = some (.server tool))
    (hkeeps : ∀ name owner, s.catalogue.registry.get? name = some (.other owner) →
      catalogue.registry.get? name = some (.other owner)) :
    ({ s with
      syncing := none
      catalogue } : McpConnection).Linked ∧ KeepsOthers s { s with
      syncing := none
      catalogue } := by
  refine ⟨⟨?_, h.fresh, howns⟩, hkeeps⟩
  rintro sync ⟨⟩

theorem Linked.registers (h : s.Linked) {sync : Syncing} (hsync : s.syncing = some sync) (refused refusedBack : String → Bool)
    (tools : Dict String McpTool) : (s.registers server refused refusedBack sync tools).Linked ∧
      KeepsOthers s (s.registers server refused refusedBack sync tools) := by
  have hbefore : ∀ name owner, s.catalogue.registry.get? name = some (.other owner) →
      (sync.previous.leaves s.catalogue.registry).get? name = some (.other owner) := fun _ _ hother => h.get?_previous hsync hother
  rcases registers_cases server refused refusedBack s sync tools with ⟨-, catalogue, hholds, heq⟩ | ⟨-, -, -, catalogue, hholds, heq⟩ |
    ⟨-, -, -, registry, hsame, heq⟩ | ⟨-, -, registry, hback, heq⟩
  · obtain ⟨hlinked, hkeeps⟩ := h.synced catalogue hholds.owns
      (fun name owner hother => (hholds.entries name _).mpr (Or.inr (hbefore name owner hother)))
    rw [heq]
    obtain ⟨hreturned, hkept⟩ := hlinked.returns sync.caller
    exact ⟨hreturned, fun name owner hother => hkept name owner (hkeeps name owner hother)⟩
  · obtain ⟨hlinked, hkeeps⟩ := h.synced catalogue hholds.owns
      (fun name owner hother => (hholds.entries name _).mpr (Or.inr (hbefore name owner hother)))
    rw [heq]
    obtain ⟨hreturned, hkept⟩ := hlinked.returns sync.caller
    exact ⟨hreturned, fun name owner hother => hkept name owner (hkeeps name owner hother)⟩
  · obtain ⟨hlinked, hkeeps⟩ := h.synced ⟨registry, ⟨sync.previous.tools, []⟩⟩ (fun _ hmem => absurd hmem List.not_mem_nil)
      (fun name owner hother => (hsame name).trans (hbefore name owner hother))
    rw [heq]
    obtain ⟨hreturned, hkept⟩ := hlinked.returns sync.caller
    exact ⟨hreturned, fun name owner hother => hkept name owner (hkeeps name owner hother)⟩
  · have hothers : ∀ name owner, s.catalogue.registry.get? name = some (.other owner) → registry.get? name = some (.other owner) := by
      intro name owner hother
      rcases hback with ⟨-, generation, hholds⟩ | ⟨-, hsame⟩
      · exact (hholds.entries name _).mpr (Or.inr (hbefore name owner hother))
      · exact (hsame name).trans (hbefore name owner hother)
    obtain ⟨hlinked, hkeeps⟩ := h.synced ⟨registry, { s.catalogue.generation with disposers := [] }⟩
      (fun _ hmem => absurd hmem List.not_mem_nil) hothers
    rw [heq]
    obtain ⟨hfailed, hkept⟩ := hlinked.fails server sync.caller
    exact ⟨hfailed, fun name owner hother => hkept name owner (hkeeps name owner hother)⟩

theorem Linked.disposed_of_disposing (h : s.Linked) (hdisposing : s.disposing ≠ .notYet) : s.disposed = true := by
  by_contra hflag
  exact hdisposing (h.fresh (Bool.eq_false_of_not_eq_true hflag))

theorem Linked.keeps (h : s.Linked) (hcatalogue : t.catalogue = s.catalogue) (hdisposed : t.disposed = s.disposed)
    (hdisposing : t.disposing = s.disposing) (hsyncing : ∀ sync, t.syncing = some sync → s.syncing = some sync) :
    t.Linked ∧ KeepsOthers s t := by
  refine ⟨h.of_same hcatalogue hdisposed hdisposing hsyncing, ?_⟩
  intro name owner hother
  rw [hcatalogue]
  exact hother

/-- A step keeps the entries of other owners, but where the owner itself takes one out. -/
theorem Linked.step (h : s.Linked) {a : ConnectionAction} (hstep : s.step sha server a = some s') : s'.Linked ∧
    ∀ name owner, s.catalogue.registry.get? name = some (.other owner) → a ≠ .unregister name →
      s'.catalogue.registry.get? name = some (.other owner) := by
  have hweaken : s'.Linked ∧ KeepsOthers s s' → s'.Linked ∧
      ∀ name owner, s.catalogue.registry.get? name = some (.other owner) → a ≠ .unregister name →
        s'.catalogue.registry.get? name = some (.other owner) := by
    rintro ⟨hlinked, hkeeps⟩
    exact ⟨hlinked, fun name owner hother _ => hkeeps name owner hother⟩
  cases moves_of_step hstep with
  | start hphase => exact hweaken (h.begins server _)
  | stopped hphase hdisposed => exact hweaken (h.keeps rfl rfl rfl (fun _ hsync => hsync))
  | wake hphase hdisposed =>
    have hsame : ({ s with supervisor := { s.supervisor with retries := s.supervisor.retries + 1 } } : McpConnection).Linked :=
      h.of_same rfl rfl rfl (fun _ hsync => hsync)
    exact hweaken (hsame.begins server _)
  | spawned hphase => exact hweaken (h.keeps rfl rfl rfl (fun _ hsync => hsync))
  | @connected client hphase =>
    have hsame : ({ s with
        client := some client
        supervisor := { s.supervisor with
          phase := .syncing
          attempts := 0
          connectedAt := some s.now } } : McpConnection).Linked := h.of_same rfl rfl rfl (fun _ hsync => hsync)
    exact hweaken (hsame.enters .attempt)
  | connectFails hphase => exact hweaken (h.fails server .attempt)
  | abandoned htrying hstart =>
    exact hweaken (h.keeps rfl rfl rfl (fun _ hsync => (Option.filter_eq_some_iff.mp hsync).1))
  | sync => exact hweaken (h.enters .call)
  | @acquire waiter waiting hfree hwaiting =>
    have hsame : ({ s with waiting := waiting } : McpConnection).Linked := h.of_same rfl rfl rfl (fun _ hsync => hsync)
    exact hweaken (hsame.takesLock hfree waiter)
  | @listed sync rawNames hsync hnone hlive =>
    refine hweaken ⟨⟨?_, h.fresh, h.owns⟩, fun _ _ hother => hother⟩
    rintro sync' ⟨⟩
    exact h.shared sync hsync
  | @fetchFails sync hsync hnone =>
    have hsame : ({ s with syncing := none } : McpConnection).Linked := h.of_same rfl rfl rfl (by rintro _ ⟨⟩)
    exact hweaken (hsame.fails server sync.caller)
  | registers hsync hlisted hfetch => exact hweaken (h.registers hsync _ _ _)
  | @listedTwice sync rawNames refused refusedBack hsync hlisted hfetch =>
    have hsame : ({ s with syncing := none } : McpConnection).Linked := h.of_same rfl rfl rfl (by rintro _ ⟨⟩)
    exact hweaken (hsame.fails server sync.caller)
  | syncCancelled hsync hcaller => exact hweaken (h.keeps rfl rfl rfl (by rintro _ ⟨⟩))
  | waitCancelled hplace => exact hweaken (h.keeps rfl rfl rfl (fun _ hsync => hsync))
  | giveUp hphase hnot =>
    have hsame : ({ s with supervisor := { s.supervisor with gaveUp := true } } : McpConnection).Linked :=
      h.of_same rfl rfl rfl (fun _ hsync => hsync)
    exact hweaken (hsame.enters .giveUp)
  | disposed hdisposed => exact hweaken ⟨h, fun _ _ hother => hother⟩
  | disposeCancels hdisposed hretrying =>
    refine hweaken ⟨⟨?_, ?_, h.owns⟩, fun _ _ hother => hother⟩
    · intro sync hsync
      rcases h.shared sync (Option.filter_eq_some_iff.mp hsync).1 with hsame | ⟨hdone, -⟩
      · exact Or.inl hsame
      · rw [h.fresh hdisposed] at hdone
        cases hdone
    · rintro ⟨⟩
  | disposes hdisposed hretrying =>
    have hnot : s.disposing ≠ .done := by
      rw [h.fresh hdisposed]
      exact fun hdone => Disposing.noConfusion hdone
    have hsame : ({ s with disposed := true } : McpConnection).Linked := by
      refine ⟨h.shared, ?_, h.owns⟩
      rintro ⟨⟩
    exact hweaken (hsame.closes rfl hnot)
  | disposeGoesOn hdisposing =>
    have hdisposed := h.disposed_of_disposing (by simp [hdisposing])
    exact hweaken (h.closes hdisposed (by simp [hdisposing]))
  | disposeEnds hdisposing =>
    exact hweaken (h.unregisters (h.disposed_of_disposing (by simp [hdisposing])))
  | disposeCancelled hdisposing =>
    refine hweaken ⟨⟨?_, ?_, h.owns⟩, fun _ _ hother => hother⟩
    · intro sync hsync
      rcases h.shared sync hsync with hsame | ⟨hdone, -⟩
      · exact Or.inl hsame
      · rw [hdisposing] at hdone
        cases hdone
    · intro hflag
      have hnot := h.fresh hflag
      rw [hdisposing] at hnot
      cases hnot
  | endOfInput hpeer hlive => exact hweaken (h.keeps rfl rfl rfl (fun _ hsync => hsync))
  | tick => exact hweaken (h.keeps rfl rfl rfl (fun _ hsync => hsync))
  | @register name owner hfree =>
    have hne : ∀ name', (s.catalogue.registry.get? name').isSome → name' ≠ name := by
      rintro name' hsome rfl
      rw [hfree] at hsome
      cases hsome
    refine hweaken ⟨⟨h.shared, h.fresh, ?_⟩, ?_⟩
    · intro name' hmem
      obtain ⟨tool, htool⟩ := h.owns name' hmem
      exact ⟨tool, (Dict.get?_set_of_ne _ _ (hne name' (by rw [htool]; rfl))).trans htool⟩
    · intro name' owner' hother
      exact (Dict.get?_set_of_ne _ _ (hne name' (by rw [hother]; rfl))).trans hother
  | @unregister name owner hother =>
    refine ⟨⟨h.shared, h.fresh, ?_⟩, ?_⟩
    · intro name' hmem
      obtain ⟨tool, htool⟩ := h.owns name' hmem
      refine ⟨tool, (Dict.get?_pop_of_ne _ ?_).trans htool⟩
      rintro rfl
      rw [hother] at htool
      cases htool
    · intro name' owner' hother' hnot
      refine (Dict.get?_pop_of_ne _ ?_).trans hother'
      rintro rfl
      exact hnot rfl

theorem linked_start : ({} : McpConnection).Linked := by
  refine ⟨?_, fun _ => rfl, ?_⟩
  · rintro sync ⟨⟩
  · intro name hmem
    cases hmem

/-! ## The server's tools -/

theorem attemptFails_ne_gaveUp (server : McpServer) (disposed : Bool) (now : Nat) (s : Supervisor) :
    (s.attemptFails server disposed now).phase ≠ .ended .gaveUp := by
  unfold Supervisor.attemptFails Supervisor.scheduleRetry
  split
  · exact fun hphase => Ending.noConfusion (Phase.ended.inj hphase)
  · split
    · exact fun hphase => Ending.noConfusion (Phase.ended.inj hphase)
    · simp only
      split
      · exact fun hphase => Phase.noConfusion hphase
      · split
        · exact fun hphase => Phase.noConfusion hphase
        · exact fun hphase => Ending.noConfusion (Phase.ended.inj hphase)

theorem finished_fails (server : McpServer) {waiter : Waiter} (h : (s.fails server waiter).Finished) : s.Finished := by
  cases waiter with
  | attempt => exact Or.inr (h.resolve_left (attemptFails_ne_gaveUp server s.disposed s.now s.supervisor))
  | call => exact h
  | giveUp => exact h

theorem finished_returns {waiter : Waiter} (h : (s.returns waiter).Finished) : s.Finished := by
  cases waiter with
  | attempt => exact Or.inr (h.resolve_left (fun hphase => Ending.noConfusion (Phase.ended.inj hphase)))
  | call => exact h
  | giveUp => exact h

theorem catalogue_fails (server : McpServer) (s : McpConnection) (waiter : Waiter) : (s.fails server waiter).catalogue = s.catalogue := by
  cases waiter <;> rfl

theorem catalogue_returns (s : McpConnection) (waiter : Waiter) : (s.returns waiter).catalogue = s.catalogue := by
  cases waiter <;> rfl

theorem InStep.of_same (h : s.InStep) (hcatalogue : t.catalogue = s.catalogue) (hfinished : t.Finished → s.Finished) : t.InStep := by
  constructor
  · rw [hcatalogue]
    exact h.registered
  · rw [hcatalogue]
    exact h.removable
  · rw [hcatalogue]
    exact fun hover => h.gone (hfinished hover)

/-- Only the phase of the supervisor changes, and not to a give-up. -/
theorem InStep.of_phase (h : s.InStep) (hcatalogue : t.catalogue = s.catalogue) (hphase : t.supervisor.phase ≠ .ended .gaveUp)
    (hdisposing : t.disposing = s.disposing) : t.InStep := by
  refine h.of_same hcatalogue ?_
  rintro (hended | hover)
  · exact absurd hended hphase
  · rw [hdisposing] at hover
    exact Or.inr hover

/-- Disposing of the generation leaves no tools of the server. -/
theorem InStep.clear (h : s.InStep) (hcatalogue : t.catalogue = s.catalogue.clear) : t.InStep := by
  constructor
  · intro name tool
    have hget : t.catalogue.registry.get? name =
        if name ∈ s.catalogue.generation.disposers then none else s.catalogue.registry.get? name := by
      rw [hcatalogue]
      exact get?_leaves s.catalogue.generation s.catalogue.registry name
    have hnone : t.catalogue.generation.tools.get? name = none := by
      rw [hcatalogue]
      rfl
    rw [hnone, hget]
    refine iff_of_false ?_ (by simp)
    split
    · simp
    · rename_i hnot
      intro hheld
      refine hnot ((h.removable name).mpr ?_)
      rw [(h.registered name tool).mp hheld]
      rfl
  · intro name
    rw [hcatalogue]
    exact iff_of_false List.not_mem_nil Bool.false_ne_true
  · intro _ name
    rw [hcatalogue]
    rfl

theorem InStep.fails (h : s.InStep) (server : McpServer) (waiter : Waiter) : (s.fails server waiter).InStep :=
  h.of_same (catalogue_fails server s waiter) (finished_fails server)

theorem InStep.returns (h : s.InStep) (waiter : Waiter) : (s.returns waiter).InStep :=
  h.of_same (catalogue_returns s waiter) finished_returns

theorem InStep.takesLock (h : s.InStep) (waiter : Waiter) : (s.takesLock waiter).InStep := by
  rcases takesLock_cases s waiter with ⟨rfl, heq⟩ | ⟨-, -, client, -, heq⟩ | ⟨-, -, heq⟩
  · rw [heq]
    exact h.clear rfl
  · rw [heq]
    exact h.of_same rfl (fun hfinished => hfinished)
  · rw [heq]
    exact h.returns waiter

theorem InStep.enters (h : s.InStep) (waiter : Waiter) : (s.enters waiter).InStep := by
  rcases enters_cases s waiter with ⟨-, -, heq⟩ | heq
  · rw [heq]
    exact h.takesLock waiter
  · rw [heq]
    exact h.of_same rfl (fun hfinished => hfinished)

theorem InStep.begins (h : s.InStep) (server : McpServer) (made : Bool) : (s.begins server made).InStep := by
  rcases begins_cases server s made with ⟨-, heq⟩ | ⟨-, heq⟩
  · rw [heq]
    refine h.of_same rfl ?_
    rintro (hphase | hdisposing)
    · cases hphase
    · exact Or.inr hdisposing
  · rw [heq]
    exact h.fails server .attempt

theorem InStep.closes (h : s.InStep) : s.closes.InStep := by
  unfold McpConnection.closes
  split
  · exact h.clear rfl
  · refine h.of_same rfl ?_
    rintro (hphase | hdone | hcancelled)
    · exact Or.inl hphase
    · cases hdone
    · cases hcancelled

/-- The generation that a sync began with takes all the server's tools out, if nothing is finished; else there are none. -/
theorem InStep.previous (h : s.InStep) (hlinked : s.Linked) {sync : Syncing} (hsync : s.syncing = some sync) (name : String)
    (tool : McpTool) : (sync.previous.leaves s.catalogue.registry).get? name ≠ some (.server tool) := by
  intro hheld
  rw [get?_leaves] at hheld
  split at hheld
  · cases hheld
  · rename_i hnot
    have htool := (h.registered name tool).mp hheld
    rcases hlinked.shared sync hsync with hsame | ⟨hdone, -⟩
    · rw [hsame] at hnot
      exact hnot ((h.removable name).mpr (by rw [htool]; rfl))
    · rw [h.gone (Or.inr (Or.inl hdone)) name] at htool
      cases htool

/-- The registry holds the tools, and the server's tools in it are those. -/
theorem Holds.registered {registry before : Dict String Registered} {tools : Dict String McpTool} {generation : Generation}
    (h : Holds registry before tools generation) (hbefore : ∀ name tool, before.get? name ≠ some (.server tool)) (name : String)
    (tool : McpTool) : registry.get? name = some (.server tool) ↔ tools.get? name = some tool := by
  rw [h.entries]
  constructor
  · rintro (⟨tool', htool, heq⟩ | hheld)
    · rw [Registered.server.inj heq]
      exact htool
    · exact absurd hheld (hbefore name tool)
  · intro htool
    exact Or.inl ⟨tool, htool, rfl⟩

/-- A catalogue of tools that the registry holds is in step, if there are none after the end. -/
theorem inStep_holds {catalogue : Catalogue} {before : Dict String Registered} {tools : Dict String McpTool}
    (hholds : Holds catalogue.registry before tools catalogue.generation)
    (hbefore : ∀ name tool, before.get? name ≠ some (.server tool)) (hcatalogue : t.catalogue = catalogue) :
    t.InStep ↔ (t.Finished → ∀ name, tools.get? name = none) := by
  constructor
  · intro h hfinished name
    have hnone := h.gone hfinished name
    rwa [hcatalogue, hholds.same] at hnone
  · intro hgone
    constructor
    · rw [hcatalogue, hholds.same]
      exact Holds.registered hholds hbefore
    · rw [hcatalogue, hholds.same]
      exact hholds.disposers
    · rw [hcatalogue, hholds.same]
      exact hgone

theorem Fetched.unique {sync sync' : Syncing} {tools tools' : Dict String McpTool} (h : Fetched sha server s sync tools)
    (h' : Fetched sha server s sync' tools') : sync' = sync ∧ tools' = tools := by
  obtain rfl : sync = sync' := Option.some.inj (h.syncing.symm.trans h'.syncing)
  obtain ⟨rawNames, hlisted, hfetch⟩ := h.fetched
  obtain ⟨rawNames', hlisted', hfetch'⟩ := h'.fetched
  obtain rfl : rawNames = rawNames' := Option.some.inj (hlisted.symm.trans hlisted')
  exact ⟨rfl, (Option.some.inj (hfetch.symm.trans hfetch')).symm⟩

theorem none_iff {tools : Dict String McpTool} : (∀ name, tools.get? name = none) ↔ ¬ ∃ name tool, tools.get? name = some tool := by
  constructor
  · rintro h ⟨name, tool, htool⟩
    rw [h name] at htool
    cases htool
  · intro h name
    cases htool : tools.get? name with
    | none => rfl
    | some tool => exact absurd ⟨name, tool, htool⟩ h

theorem finished_iff_returns {waiter : Waiter} (h : waiter = .attempt → s.supervisor.phase ≠ .ended .gaveUp) :
    (s.returns waiter).Finished ↔ s.Finished := by
  refine ⟨finished_returns, ?_⟩
  intro hfinished
  cases waiter with
  | attempt => exact Or.inr (hfinished.resolve_left (h rfl))
  | call => exact hfinished
  | giveUp => exact hfinished

theorem finished_iff_fails (server : McpServer) {waiter : Waiter} (h : waiter = .attempt → s.supervisor.phase ≠ .ended .gaveUp) :
    (s.fails server waiter).Finished ↔ s.Finished := by
  refine ⟨finished_fails server, ?_⟩
  intro hfinished
  cases waiter with
  | attempt => exact Or.inr (hfinished.resolve_left (h rfl))
  | call => exact hfinished
  | giveUp => exact hfinished

theorem Orderly.attempt_ne_gaveUp (h : s.Orderly) {sync : Syncing} (hsync : s.syncing = some sync) :
    sync.caller = .attempt → s.supervisor.phase ≠ .ended .gaveUp := by
  intro hcaller hphase
  have hlacks := h.lacks_released hsync s.catalogue
  rw [hcaller] at hlacks
  have hsyncing := hlacks.syncing.1
  rw [hphase] at hsyncing
  cases hsyncing

/-- A sync that raises after the registry refused the new tools stays in step exactly if there were none to be put back; or if it is late,
and they are not. -/
theorem InStep.putBack (h : s.InStep) (hlinked : s.Linked) {sync : Syncing} (hsync : s.syncing = some sync)
    {refusedBack : String → Bool} {registry : Dict String Registered} (hback : s.PutBack refusedBack sync registry)
    (hcatalogue : t.catalogue = ⟨registry, { s.catalogue.generation with disposers := [] }⟩) (hfinished : t.Finished ↔ s.Finished) :
    t.InStep ↔ ¬ ((∃ name tool, sync.previous.tools.get? name = some tool) ∧
      (s.Finished → s.Accepts refusedBack sync sync.previous.tools)) := by
  have hbefore := h.previous hlinked hsync
  have hempty : ∀ {name tool}, (∀ name, sync.previous.tools.get? name = none) → registry.get? name ≠ some (.server tool) := by
    intro name tool hnone
    rcases hback with ⟨-, generation, hholds⟩ | ⟨-, hsame⟩
    · rw [ne_eq, Holds.registered hholds hbefore, hnone]
      simp
    · rw [hsame]
      exact hbefore name tool
  have hnothing : (∀ name, s.catalogue.generation.tools.get? name = none) →
      (∀ name tool, registry.get? name ≠ some (.server tool)) → t.InStep := by
    intro hnone hregistry
    constructor
    · intro name tool
      rw [hcatalogue]
      exact iff_of_false (hregistry name tool) (by simp [hnone name])
    · intro name
      rw [hcatalogue]
      exact iff_of_false List.not_mem_nil (by simp [hnone name])
    · intro _ name
      rw [hcatalogue]
      exact hnone name
  constructor
  · rintro hstep ⟨⟨name, tool, htool⟩, hlate⟩
    by_cases hover : s.Finished
    · rcases hback with ⟨-, generation, hholds⟩ | ⟨hnot, -⟩
      · have hheld : t.catalogue.registry.get? name = some (.server tool) := by
          rw [hcatalogue]
          exact (Holds.registered hholds hbefore name tool).mpr htool
        have hclaimed := (hstep.registered name tool).mp hheld
        rw [hstep.gone (hfinished.mpr hover) name] at hclaimed
        cases hclaimed
      · exact hnot (hlate hover)
    · have hsame : sync.previous = s.catalogue.generation :=
        (hlinked.shared sync hsync).resolve_right (fun hdone => hover (Or.inr (Or.inl hdone.1)))
      have hremovable := hstep.removable name
      rw [hcatalogue, ← hsame] at hremovable
      exact absurd (hremovable.mpr (by simp [htool])) List.not_mem_nil
  · intro hnot
    by_cases hover : s.Finished
    · refine hnothing (h.gone hover) ?_
      intro name tool
      rcases hback with ⟨haccepts, -⟩ | ⟨-, hsame⟩
      · refine hempty (none_iff.mpr ?_)
        intro hsome
        exact hnot ⟨hsome, fun _ => haccepts⟩
      · rw [hsame]
        exact hbefore name tool
    · have hsame : sync.previous = s.catalogue.generation :=
        (hlinked.shared sync hsync).resolve_right (fun hdone => hover (Or.inr (Or.inl hdone.1)))
      have hnone : ∀ name, sync.previous.tools.get? name = none := by
        refine none_iff.mpr ?_
        intro hsome
        exact hnot ⟨hsome, fun hfinished' => absurd hfinished' hover⟩
      exact hnothing (hsame ▸ hnone) (fun name tool => hempty hnone)

theorem InStep.registers (h : s.InStep) (hlinked : s.Linked) (horderly : s.Orderly) {sync : Syncing} {tools : Dict String McpTool}
    (hfetched : Fetched sha server s sync tools) (refused refusedBack : String → Bool) :
    (s.registers server refused refusedBack sync tools).InStep ↔ ¬ Strays sha server s (.syncs refused refusedBack) := by
  have hsync := hfetched.syncing
  have hbefore := h.previous hlinked hsync
  have hattempt := horderly.attempt_ne_gaveUp hsync
  have hreturned : ∀ catalogue, (({ s with
      syncing := none
      catalogue } : McpConnection).returns sync.caller).Finished ↔ s.Finished :=
    fun catalogue => finished_iff_returns (s := { s with
      syncing := none
      catalogue }) hattempt
  have hfailed : ∀ catalogue, (({ s with
      syncing := none
      catalogue } : McpConnection).fails server sync.caller).Finished ↔ s.Finished :=
    fun catalogue => finished_iff_fails (s := { s with
      syncing := none
      catalogue }) server hattempt
  rcases registers_cases server refused refusedBack s sync tools with ⟨haccepts, catalogue, hholds, heq⟩ |
    ⟨hrefuses, hcontains, haccepts, catalogue, hholds, heq⟩ | ⟨hrefuses, hcontains, hback, registry, hsame, heq⟩ |
    ⟨hrefuses, hraises, registry, hback, heq⟩
  · rw [heq, inStep_holds hholds hbefore (catalogue_returns _ _), hreturned]
    constructor
    · intro hgone hstrays
      cases hstrays with
      | late hfetched' hfinished _ htool =>
        obtain ⟨-, rfl⟩ := hfetched.unique hfetched'
        exact none_iff.mp (hgone hfinished) ⟨_, _, htool⟩
      | restoredLate hfetched' _ hrefuses' _ _ =>
        obtain ⟨rfl, rfl⟩ := hfetched.unique hfetched'
        exact hrefuses' haccepts
      | forgotten hfetched' _ hrefuses' _ _ =>
        obtain ⟨rfl, rfl⟩ := hfetched.unique hfetched'
        exact hrefuses' haccepts
      | lost hfetched' _ hrefuses' _ _ =>
        obtain ⟨rfl, rfl⟩ := hfetched.unique hfetched'
        exact hrefuses' haccepts
    · intro hnot hfinished
      refine none_iff.mpr ?_
      rintro ⟨name, tool, htool⟩
      exact hnot (.late hfetched hfinished haccepts htool)
  · rw [heq, inStep_holds hholds hbefore (catalogue_returns _ _), hreturned]
    constructor
    · intro hgone hstrays
      cases hstrays with
      | late hfetched' _ haccepts' _ =>
        obtain ⟨rfl, rfl⟩ := hfetched.unique hfetched'
        exact hrefuses haccepts'
      | restoredLate hfetched' hfinished _ _ htool =>
        obtain ⟨rfl, -⟩ := hfetched.unique hfetched'
        exact none_iff.mp (hgone hfinished) ⟨_, _, htool⟩
      | forgotten _ _ _ hraises _ => exact Bool.false_ne_true (hcontains.symm.trans hraises)
      | lost hfetched' _ _ _ hback =>
        obtain ⟨rfl, -⟩ := hfetched.unique hfetched'
        exact hback haccepts
    · intro hnot hfinished
      refine none_iff.mpr ?_
      rintro ⟨name, tool, htool⟩
      exact hnot (.restoredLate hfetched hfinished hrefuses (fun _ => haccepts) htool)
  · rw [heq]
    obtain ⟨name, tool, htool⟩ : ∃ name tool, sync.previous.tools.get? name = some tool := by
      by_contra hnone
      refine hback ?_
      intro name tool htool
      exact absurd ⟨name, tool, htool⟩ hnone
    refine iff_of_false ?_ (not_not.mpr ?_)
    · intro hstep
      have hremovable := hstep.removable name
      rw [catalogue_returns] at hremovable
      exact absurd (hremovable.mpr (by simp [htool])) List.not_mem_nil
    · by_cases hfinished : s.Finished
      · exact .restoredLate hfetched hfinished hrefuses (fun hraises => absurd (hcontains.symm.trans hraises) Bool.false_ne_true) htool
      · exact .lost hfetched hfinished hrefuses hcontains hback
  · rw [heq]
    refine (h.putBack hlinked hsync hback (catalogue_fails server _ _) (hfailed _)).trans (not_congr ?_)
    constructor
    · rintro ⟨⟨name, tool, htool⟩, hlate⟩
      by_cases hfinished : s.Finished
      · exact .restoredLate hfetched hfinished hrefuses (fun _ => hlate hfinished) htool
      · exact .forgotten hfetched hfinished hrefuses hraises htool
    · intro hstrays
      cases hstrays with
      | late hfetched' _ haccepts' _ =>
        obtain ⟨rfl, rfl⟩ := hfetched.unique hfetched'
        exact absurd haccepts' hrefuses
      | restoredLate hfetched' _ _ hlate htool =>
        obtain ⟨rfl, -⟩ := hfetched.unique hfetched'
        exact ⟨⟨_, _, htool⟩, fun _ => hlate hraises⟩
      | forgotten hfetched' hnot _ _ htool =>
        obtain ⟨rfl, -⟩ := hfetched.unique hfetched'
        exact ⟨⟨_, _, htool⟩, fun hfinished => absurd hfinished hnot⟩
      | lost _ _ _ hcontains _ => exact absurd (hcontains.symm.trans hraises) Bool.false_ne_true

/-- Only a sync that goes on, and a disposal that is cancelled, can stray. -/
theorem Strays.action {a : ConnectionAction} (h : Strays sha server s a) :
    (∃ refused refusedBack, a = .syncs refused refusedBack) ∨ a = .disposeCancelled := by
  cases h with
  | late => exact Or.inl ⟨_, _, rfl⟩
  | restoredLate => exact Or.inl ⟨_, _, rfl⟩
  | forgotten => exact Or.inl ⟨_, _, rfl⟩
  | lost => exact Or.inl ⟨_, _, rfl⟩
  | interrupted => exact Or.inr rfl

theorem Strays.fetched {refused refusedBack : String → Bool} (h : Strays sha server s (.syncs refused refusedBack)) :
    ∃ sync tools, Fetched sha server s sync tools := by
  cases h with
  | late hfetched => exact ⟨_, _, hfetched⟩
  | restoredLate hfetched => exact ⟨_, _, hfetched⟩
  | forgotten hfetched => exact ⟨_, _, hfetched⟩
  | lost hfetched => exact ⟨_, _, hfetched⟩

theorem InStep.step (h : s.InStep) (hlinked : s.Linked) (horderly : s.Orderly) {a : ConnectionAction}
    (hstep : s.step sha server a = some s') : s'.InStep ↔ ¬ Strays sha server s a := by
  have hother : s'.InStep → (∀ refused refusedBack, a ≠ .syncs refused refusedBack) → a ≠ .disposeCancelled →
      (s'.InStep ↔ ¬ Strays sha server s a) := by
    intro hin hsyncs hcancelled
    refine iff_of_true hin ?_
    intro hstrays
    rcases hstrays.action with ⟨refused, refusedBack, heq⟩ | heq
    · exact hsyncs refused refusedBack heq
    · exact hcancelled heq
  cases moves_of_step hstep with
  | start hphase => exact hother (h.begins server _) (by simp) (by simp)
  | stopped hphase hdisposed => exact hother (h.of_phase rfl (by rintro ⟨⟩) rfl) (by simp) (by simp)
  | wake hphase hdisposed =>
    have hsame : ({ s with supervisor := { s.supervisor with retries := s.supervisor.retries + 1 } } : McpConnection).InStep :=
      h.of_same rfl (fun hfinished => hfinished)
    exact hother (hsame.begins server _) (by simp) (by simp)
  | spawned hphase => exact hother (h.of_phase rfl (by rintro ⟨⟩) rfl) (by simp) (by simp)
  | @connected client hphase =>
    have hsame : ({ s with
        client := some client
        supervisor := { s.supervisor with
          phase := .syncing
          attempts := 0
          connectedAt := some s.now } } : McpConnection).InStep := h.of_phase rfl (by rintro ⟨⟩) rfl
    exact hother (hsame.enters .attempt) (by simp) (by simp)
  | connectFails hphase => exact hother (h.fails server .attempt) (by simp) (by simp)
  | abandoned htrying hstart => exact hother (h.of_phase rfl (by rintro ⟨⟩) rfl) (by simp) (by simp)
  | sync => exact hother (h.enters .call) (by simp) (by simp)
  | @acquire waiter waiting hfree hwaiting =>
    have hsame : ({ s with waiting := waiting } : McpConnection).InStep := h.of_same rfl (fun hfinished => hfinished)
    exact hother (hsame.takesLock waiter) (by simp) (by simp)
  | listed hsync hnone hlive => exact hother (h.of_same rfl (fun hfinished => hfinished)) (by simp) (by simp)
  | @fetchFails sync hsync hnone =>
    have hsame : ({ s with syncing := none } : McpConnection).InStep := h.of_same rfl (fun hfinished => hfinished)
    exact hother (hsame.fails server sync.caller) (by simp) (by simp)
  | registers hsync hlisted hfetch => exact h.registers hlinked horderly ⟨hsync, _, hlisted, hfetch⟩ _ _
  | @listedTwice sync rawNames refused refusedBack hsync hlisted hfetch =>
    have hsame : ({ s with syncing := none } : McpConnection).InStep := h.of_same rfl (fun hfinished => hfinished)
    refine iff_of_true (hsame.fails server sync.caller) ?_
    intro hstrays
    obtain ⟨sync', tools, hsync', rawNames', hlisted', hfetch'⟩ := hstrays.fetched
    obtain rfl : sync = sync' := Option.some.inj (hsync.symm.trans hsync')
    obtain rfl : rawNames = rawNames' := Option.some.inj (hlisted.symm.trans hlisted')
    rw [hfetch] at hfetch'
    cases hfetch'
  | syncCancelled hsync hcaller => exact hother (h.of_same rfl (fun hfinished => hfinished)) (by simp) (by simp)
  | waitCancelled hplace => exact hother (h.of_same rfl (fun hfinished => hfinished)) (by simp) (by simp)
  | giveUp hphase hnot =>
    have hsame : ({ s with supervisor := { s.supervisor with gaveUp := true } } : McpConnection).InStep :=
      h.of_same rfl (fun hfinished => hfinished)
    exact hother (hsame.enters .giveUp) (by simp) (by simp)
  | disposed hdisposed => exact hother h (by simp) (by simp)
  | disposeCancels hdisposed hretrying =>
    refine hother (h.of_same rfl ?_) (by simp) (by simp)
    rintro (hended | hdone | hcancelled)
    · cases hended
    · cases hdone
    · cases hcancelled
  | disposes hdisposed hretrying =>
    have hsame : ({ s with disposed := true } : McpConnection).InStep := h.of_same rfl (fun hfinished => hfinished)
    exact hother hsame.closes (by simp) (by simp)
  | disposeGoesOn hdisposing => exact hother h.closes (by simp) (by simp)
  | disposeEnds hdisposing => exact hother (h.clear rfl) (by simp) (by simp)
  | disposeCancelled hdisposing =>
    constructor
    · intro hin hstrays
      cases hstrays with
      | interrupted hclosing htool =>
        exact none_iff.mp (hin.gone (Or.inr (Or.inr rfl))) ⟨_, _, htool⟩
    · intro hnot
      refine ⟨h.registered, h.removable, ?_⟩
      intro _
      refine none_iff.mpr ?_
      rintro ⟨name, tool, htool⟩
      exact hnot (.interrupted hdisposing htool)
  | endOfInput hpeer hlive => exact hother (h.of_same rfl (fun hfinished => hfinished)) (by simp) (by simp)
  | tick => exact hother (h.of_same rfl (fun hfinished => hfinished)) (by simp) (by simp)
  | @register name owner hfree =>
    refine hother ⟨?_, h.removable, h.gone⟩ (by simp) (by simp)
    intro name' tool
    have hset := Dict.get?_set s.catalogue.registry name (.other owner) name'
    simp only [hset]
    split
    · rename_i heq
      have hregistered := h.registered name tool
      rw [hfree] at hregistered
      rw [heq, ← hregistered]
      simp
    · exact h.registered name' tool
  | @unregister name owner hheld =>
    refine hother ⟨?_, h.removable, h.gone⟩ (by simp) (by simp)
    intro name' tool
    have hpop := Dict.get?_pop s.catalogue.registry name name'
    simp only [hpop]
    split
    · rename_i heq
      have hregistered := h.registered name tool
      rw [hheld] at hregistered
      rw [heq, ← hregistered]
      simp
    · exact h.registered name' tool

theorem inStep_start : ({} : McpConnection).InStep := by
  constructor
  · intro name tool
    constructor
    · rintro ⟨⟩
    · rintro ⟨⟩
  · intro name
    exact iff_of_false List.not_mem_nil Bool.false_ne_true
  · intro _ name
    rfl

end McpConnection

open McpConnection in
/-- In every run a step leaves the tools of other owners as they are, unless the owner takes one out. In every run in which no step strays
the server's tools in the registry are those of the current generation, and none are left after a give-up or a disposal; the next step
keeps the registry in step exactly if it does not stray. -/
theorem catalogue_in_step (sha : Sha256) (server : McpServer) :
    (∀ s, Machine.Reach (step sha server) Machine.anyStep {} s → ∀ a s', s.step sha server a = some s' →
      ∀ name owner, s.catalogue.registry.get? name = some (.other owner) → a ≠ .unregister name →
        s'.catalogue.registry.get? name = some (.other owner)) ∧
    ∀ s, Machine.Reach (step sha server) (fun s a => ¬ Strays sha server s a) {} s →
      (∀ name tool, s.catalogue.registry.get? name = some (.server tool) ↔ s.catalogue.generation.tools.get? name = some tool) ∧
      (s.Finished → ∀ name tool, s.catalogue.registry.get? name ≠ some (.server tool)) ∧
      ∀ a s', s.step sha server a = some s' → (s'.InStep ↔ ¬ Strays sha server s a) := by
  constructor
  · intro s hreach a s' hstep
    have hlinked : s.Linked :=
      hreach.invariant (P := fun s => s.Linked) linked_start (fun _ _ _ hlinked _ hnext => (hlinked.step hnext).1)
    exact (hlinked.step hstep).2
  · intro s hreach
    obtain ⟨horderly, hlinked, hin⟩ := hreach.invariant (P := fun s => s.Orderly ∧ s.Linked ∧ s.InStep)
      ⟨orderly_start, linked_start, inStep_start⟩ (by
        rintro s a s' ⟨horderly, hlinked, hin⟩ hnot hstep
        exact ⟨horderly.step hstep, (hlinked.step hstep).1, (hin.step hlinked horderly hstep).mpr hnot⟩)
    refine ⟨hin.registered, ?_, ?_⟩
    · intro hfinished name tool hheld
      have hclaimed := (hin.registered name tool).mp hheld
      rw [hin.gone hfinished name] at hclaimed
      cases hclaimed
    · intro a s' hstep
      exact hin.step hlinked horderly hstep

/-- A connection to a server with one tool, up to the answer of its first sync. -/
def listedOnce : List ConnectionAction := [.start true, .spawned, .connected, .listed ["a"]]

/-- The state after some actions. -/
def connectionAfter (actions : List ConnectionAction) : McpConnection :=
  (Machine.exec (McpConnection.step oneHash retriedOnce) {} actions).getD {}

open McpConnection in
theorem not_strays_listedOnce :
    ¬ Strays oneHash retriedOnce (connectionAfter listedOnce) (.syncs (fun _ => false) (fun _ => false)) := by
  have haccepts : ∀ sync tools, (connectionAfter listedOnce).Accepts (fun _ => false) sync tools := by
    intro sync tools name tool _
    refine ⟨?_, rfl⟩
    rw [get?_leaves]
    split <;> rfl
  have hnot : ¬ (connectionAfter listedOnce).Finished := by
    rintro (⟨⟨⟩⟩ | ⟨⟨⟩⟩ | ⟨⟨⟩⟩)
  intro hstrays
  cases hstrays with
  | late _ hfinished _ _ => exact hnot hfinished
  | restoredLate _ _ hrefuses _ _ => exact hrefuses (haccepts _ _)
  | forgotten _ _ hrefuses _ _ => exact hrefuses (haccepts _ _)
  | lost _ _ hrefuses _ _ => exact hrefuses (haccepts _ _)

open McpConnection in
theorem not_strays_other {s : McpConnection} {a : ConnectionAction} (hsyncs : ∀ refused refusedBack, a ≠ .syncs refused refusedBack)
    (hcancelled : a ≠ .disposeCancelled) : ¬ Strays oneHash retriedOnce s a := by
  intro hstrays
  rcases hstrays.action with ⟨refused, refusedBack, heq⟩ | heq
  · exact hsyncs refused refusedBack heq
  · exact hcancelled heq

open McpConnection in
/-- The server's tool is registered; and when the connection is disposed of, it is gone. -/
theorem catalogue_in_step_disposed : ∃ s t,
    Machine.exec (step oneHash retriedOnce) {} (listedOnce ++ [.syncs (fun _ => false) (fun _ => false)]) = some s ∧
    s.catalogue.registry.get? "mcp__s__a" = some (.server ⟨"a", 0⟩) ∧
    Machine.exec (step oneHash retriedOnce) s [.dispose, .disposeEnds] = some t ∧
    t.catalogue.registry.get? "mcp__s__a" ≠ some (.server ⟨"a", 0⟩) := by
  have hstarted : Machine.Reach (step oneHash retriedOnce) (fun s a => ¬ Strays oneHash retriedOnce s a) {}
      (connectionAfter listedOnce) := by
    refine .next (.listed ["a"]) (.next .connected (.next .spawned (.next (.start true) .start ?_ rfl) ?_ rfl) ?_ rfl) ?_ rfl
    · exact not_strays_other (by simp) (by simp)
    · exact not_strays_other (by simp) (by simp)
    · exact not_strays_other (by simp) (by simp)
    · exact not_strays_other (by simp) (by simp)
  refine ⟨_, _, rfl, by decide +kernel, rfl, ?_⟩
  refine ((catalogue_in_step oneHash retriedOnce).2 _ ?_).2.1 (Or.inr (Or.inl rfl)) _ _
  refine .next .disposeEnds (.next .dispose (.next (.syncs (fun _ => false) (fun _ => false)) hstarted ?_ rfl) ?_ rfl) ?_ rfl
  · exact not_strays_listedOnce
  · exact not_strays_other (by simp) (by simp)
  · exact not_strays_other (by simp) (by simp)

open McpConnection in
/-- The connection was given up, and a `list_changed` of the client that is still open registers its tool again. -/
theorem catalogue_after_give_up : ∃ s, Machine.exec (step oneHash retriedOnce) {}
      [.start true, .spawned, .connected, .fetchFails, .wake false, .giveUp, .sync, .listed ["a"],
        .syncs (fun _ => false) (fun _ => false)] = some s ∧
    s.Finished ∧ s.catalogue.registry.get? "mcp__s__a" = some (.server ⟨"a", 0⟩) := by
  refine ⟨_, rfl, Or.inl rfl, ?_⟩
  decide +kernel

end Pydsh
