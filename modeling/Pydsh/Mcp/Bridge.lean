import Pydsh.Lib.Enrolment
import Pydsh.Mcp.Naming

/-!
# A sync of a server's tools

`mcp/bridge.py`: the tools that a server lists become entries of the tool registry, under public names. A generation is a complete set of
them with what takes each out again. A sync takes the previous generation out, enters the new one, and where the registry refuses a tool
of it puts the previous one back. The registry refuses a name that it holds; what else it refuses is left open.
-/

namespace Pydsh

/-- A tool of the server, as the registry has it: what the server calls it, and the client that its calls go to. -/
structure McpTool where
  rawName : String
  client : Nat
  deriving DecidableEq

/-- An entry of the tool registry: a tool of the server, or one of another owner. -/
inductive Registered where
  | server (tool : McpTool)
  | other (owner : Nat)
  deriving DecidableEq

/-- `Generation`: the tools by their public names, and the names that it has disposers for. -/
structure Generation where
  tools : Dict String McpTool := .empty
  disposers : List String := []

/-- `fetch_tools`, on what the server listed on all its pages; `none` where it raises, as two have one name. -/
def fetchTools (sha : Sha256) (serverName : String) (client : Nat) : List String → Dict String McpTool → Option (Dict String McpTool)
  | [], tools => some tools
  | rawName :: rest, tools =>
    let name := publicToolName sha ⟨serverName, rawName⟩
    if (tools.get? name).isSome then none else fetchTools sha serverName client rest (tools.set name ⟨rawName, client⟩)

/-- `_register_all`. -/
def registerAll (refused : String → Bool) (registry : Dict String Registered) (tools : Dict String McpTool) :
    Dict String Registered × Option (List String) :=
  Enrolment.enrol refused registry (tools.mapValues .server)

/-- The registry takes all tools. -/
def TakesAll (refused : String → Bool) (registry : Dict String Registered) (tools : Dict String McpTool) : Prop :=
  ∀ name tool, tools.get? name = some tool → registry.get? name = none ∧ refused name = false

/-- The registry and the generation of a connection. -/
structure Catalogue where
  registry : Dict String Registered := .empty
  generation : Generation := {}

/-- What a sync leaves: the registry, and the new generation, `none` where it raises. -/
structure SyncResult where
  registry : Dict String Registered
  generation : Option Generation

/-- `Generation.dispose`, on the registry. -/
def Generation.leaves (generation : Generation) (registry : Dict String Registered) : Dict String Registered :=
  Enrolment.withdraw registry generation.disposers

/-- `sync_tools`, once the tools are fetched. The registry may refuse other names when the previous generation is put back. -/
def syncTools (throws : Bool) (refused refusedBack : String → Bool) (registry : Dict String Registered) (previous : Generation)
    (tools : Dict String McpTool) : SyncResult :=
  match registerAll refused (previous.leaves registry) tools with
  | (registry, some disposers) => ⟨registry, some ⟨tools, disposers⟩⟩
  | (registry, none) =>
    let restored := registerAll refusedBack registry previous.tools
    ⟨restored.1, if throws then none else some ⟨previous.tools, restored.2.getD []⟩⟩

/-! ## What a sync leaves -/

theorem get?_leaves (generation : Generation) (registry : Dict String Registered) (name : String) :
    (generation.leaves registry).get? name = if name ∈ generation.disposers then none else registry.get? name :=
  Enrolment.get?_withdraw registry generation.disposers name

section Registering

variable {refused : String → Bool} {registry registry' : Dict String Registered} {tools : Dict String McpTool} {disposers : List String}

theorem get?_server {name : String} {entry : Registered} :
    (tools.mapValues Registered.server).get? name = some entry ↔ ∃ tool, tools.get? name = some tool ∧ entry = .server tool := by
  rw [Dict.get?_mapValues, Option.map_eq_some_iff]
  constructor
  · rintro ⟨tool, hget, rfl⟩
    exact ⟨tool, hget, rfl⟩
  · rintro ⟨tool, hget, rfl⟩
    exact ⟨tool, hget, rfl⟩

theorem registerAll_isSome_iff : (registerAll refused registry tools).2.isSome ↔ TakesAll refused registry tools := by
  refine Enrolment.enrol_isSome_iff.trans ?_
  constructor
  · intro h name tool hget
    exact h name (.server tool) (get?_server.mpr ⟨tool, hget, rfl⟩)
  · intro h name entry hget
    obtain ⟨tool, htool, -⟩ := get?_server.mp hget
    exact h name tool htool

/-- Tools that were registered are in the registry, with what was in it, and have disposers. -/
theorem get?_registerAll_some (h : registerAll refused registry tools = (registry', some disposers)) :
    (∀ name, name ∈ disposers ↔ (tools.get? name).isSome) ∧
    ∀ name entry, registry'.get? name = some entry ↔
      (∃ tool, tools.get? name = some tool ∧ entry = .server tool) ∨ registry.get? name = some entry := by
  obtain ⟨hkeys, hget⟩ := Enrolment.get?_enrol_some h
  constructor
  · intro name
    rw [hkeys, Dict.get?_mapValues, Option.isSome_map]
  · intro name entry
    rw [hget, get?_server]

theorem get?_registerAll_none (h : registerAll refused registry tools = (registry', none)) (name : String) :
    registry'.get? name = registry.get? name :=
  Enrolment.get?_enrol_none h name

end Registering

section Syncing

variable {throws : Bool} {refused refusedBack : String → Bool} {registry : Dict String Registered} {previous : Generation}
  {tools : Dict String McpTool}

/-- The registry holds the tools and what another held, and a generation of the tools has the disposers for them. -/
structure Holds (registry before : Dict String Registered) (tools : Dict String McpTool) (generation : Generation) : Prop where
  same : generation.tools = tools
  disposers : ∀ name, name ∈ generation.disposers ↔ (tools.get? name).isSome
  entries : ∀ name entry, registry.get? name = some entry ↔
    (∃ tool, tools.get? name = some tool ∧ entry = .server tool) ∨ before.get? name = some entry

theorem Holds.owns {before : Dict String Registered} {generation : Generation} (h : Holds registry before tools generation) :
    ∀ name, name ∈ generation.disposers → ∃ tool, registry.get? name = some (.server tool) := by
  intro name hmem
  obtain ⟨tool, htool⟩ := Option.isSome_iff_exists.mp ((h.disposers name).mp hmem)
  exact ⟨tool, (h.entries name _).mpr (Or.inl ⟨tool, htool, rfl⟩)⟩

/-- The registry takes the new tools; or it does not, and takes the previous ones back; or not even those. -/
theorem syncTools_cases : let synced := syncTools throws refused refusedBack registry previous tools
    (TakesAll refused (previous.leaves registry) tools ∧
      ∃ generation, synced.generation = some generation ∧ Holds synced.registry (previous.leaves registry) tools generation) ∨
    (¬ TakesAll refused (previous.leaves registry) tools ∧ TakesAll refusedBack (previous.leaves registry) previous.tools ∧
      ∃ generation, synced.generation = (if throws then none else some generation) ∧
        Holds synced.registry (previous.leaves registry) previous.tools generation) ∨
    (¬ TakesAll refused (previous.leaves registry) tools ∧ ¬ TakesAll refusedBack (previous.leaves registry) previous.tools ∧
      synced.generation = (if throws then none else some ⟨previous.tools, []⟩) ∧
      ∀ name, synced.registry.get? name = (previous.leaves registry).get? name) := by
  intro synced
  have hsynced : synced = syncTools throws refused refusedBack registry previous tools := rfl
  unfold syncTools at hsynced
  split at hsynced
  · rename_i registry' disposers hall
    left
    obtain ⟨hdisposers, hget⟩ := get?_registerAll_some hall
    refine ⟨registerAll_isSome_iff.mp (by rw [hall]; rfl), ⟨tools, disposers⟩, by rw [hsynced], rfl, hdisposers, ?_⟩
    rw [hsynced]
    exact hget
  · rename_i registry' hnone
    have hrefused : ¬ TakesAll refused (previous.leaves registry) tools := by
      rw [← registerAll_isSome_iff, hnone]
      exact Bool.false_ne_true
    have hsame := get?_registerAll_none hnone
    have htakes : TakesAll refusedBack registry' previous.tools ↔ TakesAll refusedBack (previous.leaves registry) previous.tools := by
      simp only [TakesAll, hsame]
    right
    cases hback : registerAll refusedBack registry' previous.tools with
    | mk registry'' restored =>
      cases restored with
      | some disposers =>
        left
        obtain ⟨hdisposers, hget⟩ := get?_registerAll_some hback
        refine ⟨hrefused, htakes.mp (registerAll_isSome_iff.mp (by rw [hback]; rfl)), ⟨previous.tools, disposers⟩, ?_, rfl, hdisposers, ?_⟩
        · rw [hsynced, hback]
          rfl
        · intro name entry
          rw [hsynced, hback, ← hsame]
          exact hget name entry
      | none =>
        right
        refine ⟨hrefused, ?_, ?_, ?_⟩
        · rw [← htakes, ← registerAll_isSome_iff, hback]
          exact Bool.false_ne_true
        · rw [hsynced, hback]
          rfl
        · intro name
          rw [hsynced, hback, ← hsame]
          exact get?_registerAll_none hback name

end Syncing

end Pydsh
