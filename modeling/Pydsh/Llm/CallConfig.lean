import Pydsh.Agent.Loop
import Pydsh.Llm.Routing

/-!
# The call configuration of a request

`llm/call_config.py` and what `agent/agent.py` and `llm/service.py` make of it: the options of an agent become a request, the session's
header keeps what the request sets, and the service merges it with the defaults of its route. The merge has a layer for the header, but
no caller fills it: a request goes by what was set, then the header, then the defaults exactly if the header would add nothing
(`requests_layered_iff`).
-/

namespace Pydsh

/-- A layer of the merge; `None` is a field that it does not set. -/
structure CallLayer where
  provider : Option String := none
  model : Option String := none
  reasoningEffort : Option String := none
  temperature : Option Rat := none
  maxTokens : Option Int := none
  stop : Option (List String) := none
  deriving DecidableEq

/-- `LlmCallConfig`. -/
structure LlmCallConfig where
  provider : String := ""
  model : String := ""
  reasoningEffort : Option String := none
  temperature : Option Rat := none
  maxTokens : Option Int := none
  stop : Option (List String) := none
  deriving DecidableEq

/-- `GenerateOptions`, up to its signal. -/
structure GenerateOptions where
  provider : String
  model : String
  messages : List PyValue
  system : Option String := none
  tools : Option (List Json) := none
  temperature : Option Rat := none
  maxTokens : Option Int := none
  stop : Option (List String) := none
  reasoningEffort : Option String := none
  sessionId : Option String := none
  purpose : Option String := none

/-- What a layer sets is set in the merge. -/
def CallLayer.update (merged layer : CallLayer) : CallLayer :=
  { provider := layer.provider.or merged.provider
    model := layer.model.or merged.model
    reasoningEffort := layer.reasoningEffort.or merged.reasoningEffort
    temperature := layer.temperature.or merged.temperature
    maxTokens := layer.maxTokens.or merged.maxTokens
    stop := layer.stop.or merged.stop }

/-- `merge_call_config`. -/
def mergeCallConfig (providerDefaults header request : Option CallLayer) : LlmCallConfig :=
  let merged := [providerDefaults.getD {}, header.getD {}, request.getD {}].foldl CallLayer.update {}
  { provider := merged.provider.getD ""
    model := merged.model.getD ""
    reasoningEffort := merged.reasoningEffort
    temperature := merged.temperature
    maxTokens := merged.maxTokens
    stop := merged.stop }

/-- `call_config_from_options`. -/
def callConfigFromOptions (options : GenerateOptions) : CallLayer :=
  { provider := if options.provider = "" then none else some options.provider
    model := if options.model = "" then none else some options.model
    reasoningEffort := options.reasoningEffort
    temperature := options.temperature
    maxTokens := options.maxTokens
    stop := options.stop }

/-- `_effective_options`. -/
def effectiveOptions (providerDefaults : Dict String CallLayer) (options : GenerateOptions) : GenerateOptions :=
  let merged := mergeCallConfig (providerDefaults.get? options.provider) none (some (callConfigFromOptions options))
  { options with
    provider := if merged.provider = "" then options.provider else merged.provider
    model := if merged.model = "" then options.model else merged.model
    reasoningEffort := merged.reasoningEffort
    temperature := merged.temperature
    maxTokens := merged.maxTokens
    stop := merged.stop }

/-- The request that `_build_request` makes of an agent's options. -/
def AgentOptions.request (options : AgentOptions) (messages : List PyValue) (system : Option String) (tools : Option (List Json))
    (sessionId : String) : GenerateOptions :=
  { provider := options.provider
    model := options.model
    messages
    system
    tools
    maxTokens := options.maxTokens
    sessionId := some sessionId }

/-- The dict that a layer is kept as. -/
def CallLayer.toDict (layer : CallLayer) : List (String × Json) :=
  (layer.provider.map (fun provider => ("provider", Json.str provider))).toList ++
    (layer.model.map (fun model => ("model", Json.str model))).toList ++
    (layer.reasoningEffort.map (fun effort => ("reasoning_effort", Json.str effort))).toList ++
    (layer.temperature.map (fun temperature => ("temperature", Json.float temperature))).toList ++
    (layer.maxTokens.map (fun n => ("max_tokens", Json.int n))).toList ++
    (layer.stop.map (fun stop => ("stop", Json.arr (stop.map Json.str)))).toList

/-- The header keeps of the agent's requests what its options set. -/
theorem callConfigFromOptions_request (options : AgentOptions) (messages : List PyValue) (system : Option String)
    (tools : Option (List Json)) (sessionId : String) :
    (callConfigFromOptions (options.request messages system tools sessionId)).toDict = options.callConfig := by
  have hempty : ∀ s : String, s.isEmpty = decide (s = "") := by
    intro s
    rw [Bool.eq_iff_iff, String.isEmpty_iff, decide_eq_true_iff]
  unfold AgentOptions.callConfig
  rw [hempty, hempty]
  by_cases hprovider : options.provider = "" <;> by_cases hmodel : options.model = "" <;> cases hmax : options.maxTokens <;>
    simp [callConfigFromOptions, CallLayer.toDict, AgentOptions.request, hprovider, hmodel, hmax]

/-- The call configuration of a request. -/
def GenerateOptions.callConfig (options : GenerateOptions) : LlmCallConfig :=
  { provider := options.provider
    model := options.model
    reasoningEffort := options.reasoningEffort
    temperature := options.temperature
    maxTokens := options.maxTokens
    stop := options.stop }

/-! ## What the request sets, then the header, then the defaults of the route -/

/-- Each field is what the request sets, else what the header has, else what the defaults of the route say. -/
def layeredConfig (providerDefaults : Dict String CallLayer) (header : Option CallLayer) (options : GenerateOptions) : LlmCallConfig :=
  let request := callConfigFromOptions options
  let header := header.getD {}
  let provider := (request.provider.or header.provider).getD ""
  let defaults := (providerDefaults.get? provider).getD {}
  { provider
    model := (request.model.or (header.model.or defaults.model)).getD ""
    reasoningEffort := request.reasoningEffort.or (header.reasoningEffort.or defaults.reasoningEffort)
    temperature := request.temperature.or (header.temperature.or defaults.temperature)
    maxTokens := request.maxTokens.or (header.maxTokens.or defaults.maxTokens)
    stop := request.stop.or (header.stop.or defaults.stop) }

/-- Where a field is not set, what the header has is what the defaults say. -/
def Adds {α : Type} (request header defaults : Option α) : Prop := request = none → ∀ v, header = some v → defaults = some v

/-- The header adds nothing to a request: no provider where none is set, and of the other fields that are not set only what the defaults
of the route say. -/
structure HeaderAddsNothing (providerDefaults : Dict String CallLayer) (header : Option CallLayer) (options : GenerateOptions) :
    Prop where
  provider : options.provider = "" → (header.getD {}).provider.getD "" = ""
  model : options.model = "" → ∀ model, (header.getD {}).model = some model →
    ((providerDefaults.get? options.provider).getD {}).model.getD "" = model
  reasoningEffort : Adds options.reasoningEffort (header.getD {}).reasoningEffort
    ((providerDefaults.get? options.provider).getD {}).reasoningEffort
  temperature : Adds options.temperature (header.getD {}).temperature ((providerDefaults.get? options.provider).getD {}).temperature
  maxTokens : Adds options.maxTokens (header.getD {}).maxTokens ((providerDefaults.get? options.provider).getD {}).maxTokens
  stop : Adds options.stop (header.getD {}).stop ((providerDefaults.get? options.provider).getD {}).stop

theorem adds_iff {α : Type} (request header defaults : Option α) :
    request.or defaults = request.or (header.or defaults) ↔ Adds request header defaults := by
  unfold Adds
  cases request <;> cases header <;> simp [eq_comm]

theorem effectiveOptions_callConfig {providerDefaults : Dict String CallLayer} (hunnamed : providerDefaults.get? "" = none)
    (options : GenerateOptions) :
    (effectiveOptions providerDefaults options).callConfig =
      { provider := options.provider
        model := ((callConfigFromOptions options).model.or ((providerDefaults.get? options.provider).getD {}).model).getD ""
        reasoningEffort := options.reasoningEffort.or ((providerDefaults.get? options.provider).getD {}).reasoningEffort
        temperature := options.temperature.or ((providerDefaults.get? options.provider).getD {}).temperature
        maxTokens := options.maxTokens.or ((providerDefaults.get? options.provider).getD {}).maxTokens
        stop := options.stop.or ((providerDefaults.get? options.provider).getD {}).stop } := by
  by_cases hprovider : options.provider = ""
  · rw [hprovider, hunnamed]
    by_cases hmodel : options.model = "" <;>
      simp [effectiveOptions, GenerateOptions.callConfig, mergeCallConfig, CallLayer.update, callConfigFromOptions, hprovider, hmodel,
        hunnamed]
  · by_cases hmodel : options.model = "" <;>
      simp [effectiveOptions, GenerateOptions.callConfig, mergeCallConfig, CallLayer.update, callConfigFromOptions, hprovider, hmodel]

/-- A request goes by the three layers exactly if the header adds nothing to it. -/
theorem effectiveOptions_layered_iff {providerDefaults : Dict String CallLayer} (hunnamed : providerDefaults.get? "" = none)
    (header : Option CallLayer) (options : GenerateOptions) :
    (effectiveOptions providerDefaults options).callConfig = layeredConfig providerDefaults header options ↔
      HeaderAddsNothing providerDefaults header options := by
  rw [effectiveOptions_callConfig hunnamed]
  constructor
  · intro hsame
    have hroute := congrArg LlmCallConfig.provider hsame
    have hdefaults : ((callConfigFromOptions options).provider.or (header.getD {}).provider).getD "" = options.provider := hroute.symm
    unfold layeredConfig at hsame
    simp only [hdefaults, LlmCallConfig.mk.injEq, true_and] at hsame
    obtain ⟨hmodel, heffort, htemperature, hmax, hstop⟩ := hsame
    refine ⟨?_, ?_, (adds_iff _ _ _).mp heffort, (adds_iff _ _ _).mp htemperature, (adds_iff _ _ _).mp hmax, (adds_iff _ _ _).mp hstop⟩
    · intro hunset
      rw [hunset] at hdefaults
      simpa [callConfigFromOptions, hunset] using hdefaults
    · intro hunset model hheader
      simpa [callConfigFromOptions, hunset, hheader] using hmodel
  · intro h
    have hroute : ((callConfigFromOptions options).provider.or (header.getD {}).provider).getD "" = options.provider := by
      by_cases hunset : options.provider = ""
      · simpa [callConfigFromOptions, hunset] using h.provider hunset
      · simp [callConfigFromOptions, hunset]
    unfold layeredConfig
    simp only [hroute, LlmCallConfig.mk.injEq, true_and]
    refine ⟨?_, (adds_iff _ _ _).mpr h.reasoningEffort, (adds_iff _ _ _).mpr h.temperature, (adds_iff _ _ _).mpr h.maxTokens,
      (adds_iff _ _ _).mpr h.stop⟩
    by_cases hunset : options.model = ""
    · cases hheader : (header.getD {}).model with
      | none => simp [callConfigFromOptions, hunset]
      | some model => simpa [callConfigFromOptions, hunset] using h.model hunset model hheader
    · simp [callConfigFromOptions, hunset]

/-- A header that was recorded of the same options adds nothing. -/
theorem headerAddsNothing_recorded (providerDefaults : Dict String CallLayer) (options : GenerateOptions) :
    HeaderAddsNothing providerDefaults (some (callConfigFromOptions options)) options := by
  have hnone : ∀ {α : Type} (own defaults : Option α), Adds own own defaults := by
    intro α own defaults hunset v hset
    rw [hunset] at hset
    cases hset
  refine ⟨?_, ?_, hnone _ _, hnone _ _, hnone _ _, hnone _ _⟩
  · intro hunset
    simp [callConfigFromOptions, hunset]
  · intro hunset model hset
    simp [callConfigFromOptions, hunset] at hset

/-! ## The requests of a session -/

/-- A request that was made: what the header had, the request, the defaults of the routes, and what the service made of it. -/
structure RequestMade where
  header : Option CallLayer
  options : GenerateOptions
  providerDefaults : Dict String CallLayer
  effective : GenerateOptions

/-- A session with its agent, over the routing table: the call configuration of its header, the agent's options, and the requests that
were made. -/
structure CallRun (ρ : Type) where
  routing : RoutingRun ρ CallLayer := {}
  header : Option CallLayer := none
  options : AgentOptions := {}
  made : List RequestMade := []

/-- What happens: the routing table changes; the session is created or resumed with a header, and an agent is put on it; an agent takes a
step; or a request of the session is made by other code. -/
inductive CallAction (ρ : Type) where
  | route (a : RoutingAction ρ CallLayer)
  | session (header : Option CallLayer) (options : AgentOptions)
  | step (messages : List PyValue) (system : Option String) (tools : Option (List Json)) (sessionId : String)
  | request (options : GenerateOptions)

namespace CallRun

variable {ρ : Type}

/-- `stream` of a request, up to its first middleware. -/
def call (s : CallRun ρ) (options : GenerateOptions) : CallRun ρ :=
  { s with made := s.made ++
      [{ header := s.header
         options
         providerDefaults := s.routing.table.providerDefaults
         effective := effectiveOptions s.routing.table.providerDefaults options }] }

/-- What an action does; `none` where it cannot happen. A step keeps on the header what its request sets. -/
def step (s : CallRun ρ) : CallAction ρ → Option (CallRun ρ)
  | .route a => (s.routing.step a).map (fun routing => { s with routing })
  | .session header options => some { s with header, options }
  | .step messages system tools sessionId =>
    let options := s.options.request messages system tools sessionId
    some { s.call options with header := some (callConfigFromOptions options) }
  | .request options => some (s.call options)

end CallRun

/-- Each field of the effective request is what the request sets, else what the header had, else what the defaults say. -/
def RequestMade.Layered (m : RequestMade) : Prop := m.effective.callConfig = layeredConfig m.providerDefaults m.header m.options

/-- What the header had adds nothing to the request. -/
def RequestMade.Unaided (m : RequestMade) : Prop := HeaderAddsNothing m.providerDefaults m.header m.options

namespace CallRun

variable {ρ : Type} {s s' : CallRun ρ}

/-- Nothing is routed under an empty name, nor was it when a request was made. -/
structure Unnamed (s : CallRun ρ) : Prop where
  route : s.routing.table.route "" = ⟨none, none, none⟩
  made : ∀ m ∈ s.made, m.effective = effectiveOptions m.providerDefaults m.options ∧ m.providerDefaults.get? "" = none

theorem Unnamed.call (h : s.Unnamed) (options : GenerateOptions) : (s.call options).Unnamed := by
  refine ⟨h.route, ?_⟩
  intro m hm
  rcases List.mem_append.mp hm with hm | hm
  · exact h.made m hm
  · rw [List.mem_singleton.mp hm]
    exact ⟨rfl, congrArg Route.defaults h.route⟩

theorem Unnamed.step {a : CallAction ρ} (h : s.Unnamed) (hstep : s.step a = some s') : s'.Unnamed := by
  cases a with
  | route a =>
    obtain ⟨routing, hrouting, rfl⟩ := Option.map_eq_some_iff.mp hstep
    exact ⟨RoutingRun.step_unnamed h.route hrouting, h.made⟩
  | session header options =>
    obtain rfl := Option.some.inj hstep
    exact ⟨h.route, h.made⟩
  | step messages system tools sessionId =>
    obtain rfl := Option.some.inj hstep
    have hcall := h.call (s.options.request messages system tools sessionId)
    exact ⟨hcall.route, hcall.made⟩
  | request options =>
    obtain rfl := Option.some.inj hstep
    exact h.call options

/-- The header has what the agent's options set. -/
def Recorded (s : CallRun ρ) : Prop := s.header = some (callConfigFromOptions (s.options.request [] none none ""))

theorem step_recorded {messages : List PyValue} {system : Option String} {tools : Option (List Json)} {sessionId : String}
    (hstep : s.step (.step messages system tools sessionId) = some s') : s'.Recorded := by
  obtain rfl := Option.some.inj hstep
  rfl

/-- They stay recorded until the session is resumed or another agent is put on it. -/
theorem Recorded.step {a : CallAction ρ} (h : s.Recorded) (ha : ∀ header options, a ≠ .session header options)
    (hstep : s.step a = some s') : s'.Recorded := by
  cases a with
  | route a =>
    obtain ⟨routing, -, rfl⟩ := Option.map_eq_some_iff.mp hstep
    exact h
  | session header options => exact absurd rfl (ha header options)
  | step messages system tools sessionId => exact step_recorded hstep
  | request options =>
    obtain rfl := Option.some.inj hstep
    exact h

/-- Where they are recorded, the header adds nothing to the request of the agent's next step: it matters to the first one only. -/
theorem Recorded.unaided (h : s.Recorded) (messages : List PyValue) (system : Option String) (tools : Option (List Json))
    (sessionId : String) (providerDefaults : Dict String CallLayer) :
    HeaderAddsNothing providerDefaults s.header (s.options.request messages system tools sessionId) := by
  rw [h]
  exact headerAddsNothing_recorded providerDefaults (s.options.request messages system tools sessionId)

theorem Recorded.exec {actions : List (CallAction ρ)} (h : s.Recorded) (hrun : Machine.exec CallRun.step s actions = some s')
    (hactions : ∀ a ∈ actions, ∀ header options, a ≠ .session header options) : s'.Recorded := by
  induction actions generalizing s with
  | nil => exact Option.some.inj hrun ▸ h
  | cons a actions ih =>
    obtain ⟨s₁, hstep, hrest⟩ := Option.bind_eq_some_iff.mp hrun
    obtain ⟨ha, hothers⟩ := List.forall_mem_cons.mp hactions
    exact ih (h.step ha hstep) hrest hothers

end CallRun

/-- In every run, a request goes by what it sets, then the header, then the defaults of its route exactly if the header adds nothing. -/
theorem requests_layered_iff {ρ : Type} {s : CallRun ρ} (h : Machine.Reach CallRun.step Machine.anyStep {} s) :
    ∀ m ∈ s.made, m.Layered ↔ m.Unaided := by
  have hunnamed : s.Unnamed := by
    refine h.invariant ⟨rfl, fun _ hm => absurd hm List.not_mem_nil⟩ ?_
    exact fun _ _ _ hs _ hstep => hs.step hstep
  intro m hm
  obtain ⟨heffective, hnone⟩ := hunnamed.made m hm
  unfold RequestMade.Layered RequestMade.Unaided
  rw [heffective]
  exact effectiveOptions_layered_iff hnone m.header m.options

/-- A session is resumed whose header has a route, by an agent with a model only. -/
def resumedRequest : RequestMade :=
  { header := some { provider := some "acme", model := some "large" }
    options := AgentOptions.request { model := "small" } [] none none "s1"
    providerDefaults := .empty
    effective := { provider := "", model := "small", messages := [], sessionId := some "s1" } }

/-- A run with one request, of a session with a header. -/
theorem requests_layered_iff_resumed : ∃ s : CallRun Nat, s.made = [resumedRequest] ∧ ∀ m ∈ s.made, m.Layered ↔ m.Unaided := by
  have hstart : Machine.Reach (CallRun.step (ρ := Nat)) Machine.anyStep {} {} := .start
  have hresumed := hstart.next (CallAction.session (some { provider := some "acme", model := some "large" }) { model := "small" })
    trivial rfl
  have hstep := hresumed.next (CallAction.step [] none none "s1") trivial rfl
  exact ⟨_, rfl, requests_layered_iff hstep⟩

/-- The route of the header is lost: the request goes to no provider. -/
theorem header_route_lost : ∃ s : CallRun Nat, Machine.exec CallRun.step {}
    [.session (some { provider := some "acme", model := some "large" }) {}, .step [] none none "s1"] = some s ∧
      ∃ m ∈ s.made, m.effective.callConfig.provider = "" ∧ ¬m.Layered := by
  refine ⟨_, rfl, _, List.mem_singleton_self _, rfl, ?_⟩
  intro hlayered
  have hprovider := congrArg LlmCallConfig.provider hlayered
  revert hprovider
  decide +kernel

/-- Every step of an agent but its first goes by what it sets, then the header, then the defaults, whatever happens in between. -/
theorem later_steps_layered {ρ : Type} {s s₁ s₂ s₃ : CallRun ρ} (h : Machine.Reach CallRun.step Machine.anyStep {} s)
    {messages messages' : List PyValue} {system system' : Option String} {tools tools' : Option (List Json)} {id id' : String}
    (hfirst : s.step (.step messages system tools id) = some s₁) (actions : List (CallAction ρ))
    (hrun : Machine.exec CallRun.step s₁ actions = some s₂) (hactions : ∀ a ∈ actions, ∀ header options, a ≠ .session header options)
    (hlater : s₂.step (.step messages' system' tools' id') = some s₃) : ∃ m, s₃.made = s₂.made ++ [m] ∧ m.Layered := by
  have hunnamed : s₂.Unnamed := by
    refine ((h.next _ trivial hfirst).exec hrun).invariant ⟨rfl, fun _ hm => absurd hm List.not_mem_nil⟩ ?_
    exact fun _ _ _ hs _ hstep => hs.step hstep
  have hrecorded := (CallRun.step_recorded hfirst).exec hrun hactions
  obtain rfl := Option.some.inj hlater
  refine ⟨_, rfl, (effectiveOptions_layered_iff (congrArg Route.defaults hunnamed.route) _ _).mpr ?_⟩
  exact hrecorded.unaided messages' system' tools' id' _

/-- The second step of an agent on a resumed session. -/
theorem later_steps_layered_resumed : ∃ s s' : CallRun Nat, s.step (.step [] none none "s1") = some s' ∧
    ∃ m, s'.made = s.made ++ [m] ∧ m.Layered := by
  have hresumed : Machine.exec (CallRun.step (ρ := Nat)) {} [.session (some { provider := some "acme" }) {}] = some _ := rfl
  have hfirst : CallRun.step (ρ := Nat) { header := some { provider := some "acme" } } (.step [] none none "s1") = some _ := rfl
  exact ⟨_, _, rfl, later_steps_layered (.exec .start hresumed) hfirst [] rfl (by simp) rfl⟩

end Pydsh
