import Pydsh.Lib.Result
import Pydsh.Llm.Routing
import Pydsh.Llm.Service

/-!
# The retry policies of the pi-ai routes

`llm/adapters/pi_ai.py`, as far as its retries: every profile has a policy (`resolve_profiles`), the adapter can say which
(`provider_retry_policy`), and the plugin registers its routes with the service, which looks a policy up among those that came with a
registration. No registration of this plugin comes with one (`route_mount`).
-/

namespace Pydsh

variable {χ δ : Type}

/-- The `LlmError` of `_adapter` for a provider with no adapter, whose `repr` is given. -/
def noAdapter (provider : String) : LlmError :=
  { message := "no adapter registered for provider " ++ provider
    code := "INVALID_REQUEST" }

/-- A call of the service for a provider, with no middleware: `_adapter_stream` over the attempts of the adapter of the route. -/
def RoutingTable.stream (t : RoutingTable ResolvedRetryPolicy δ) (repr : String → String) (provider : String)
    (outcomes : List (AttemptOutcome χ)) : ServedCall χ :=
  match t.adapters.get? provider with
  | none => { result := some (.error (.llm (noAdapter (repr provider)))) }
  | some _ => adapterStream (t.providerRetry.get? provider) 0 [] outcomes

/-- A resolved profile, up to what no retry depends on. -/
structure PiAiProfile where
  retryPolicy : ResolvedRetryPolicy

/-- `PiAi`, with its profiles by route and the identity of its adapter. -/
structure PiAi where
  profiles : Dict String PiAiProfile
  adapter : Nat

namespace PiAi

variable (plugin : PiAi)

/-- `provider_retry_policy`. -/
def providerRetryPolicy (provider : String) : Option ResolvedRetryPolicy := (plugin.profiles.get? provider).map (·.retryPolicy)

/-- The registration of `__init__`; with no profiles there is none. -/
def mount (t : RoutingTable ResolvedRetryPolicy δ) :
    Except RoutingRefusal (RoutingTable ResolvedRetryPolicy δ × Option (AdapterHandle ResolvedRetryPolicy δ)) :=
  if plugin.profiles.entries.isEmpty then .ok (t, none)
  else do
    let (t, handle) ← t.registerAdapter (plugin.profiles.entries.map (·.1))
      { adapter := plugin.adapter, retry := none, defaults := none } false
    return (t, some handle)

end PiAi

/-! ## A route that is free has no policy left -/

/-- A provider without an adapter has neither a policy nor defaults. -/
def RoutingTable.Clean (t : RoutingTable ResolvedRetryPolicy δ) : Prop :=
  ∀ p, (t.route p).adapter = none → t.route p = ⟨none, none, none⟩

namespace RoutingTable.Clean

variable {t t' : RoutingTable ResolvedRetryPolicy δ}

theorem release (h : t.Clean) (adapter : Nat) (providers : List String) : (t.release adapter providers).Clean := by
  intro p hp
  rw [route_release] at hp ⊢
  split at hp <;> rename_i hreleased
  · rw [if_pos hreleased]
  · rw [if_neg hreleased]
    exact h p hp

theorem bind (h : t.Clean) (adapter : Nat) (providers owned : List String) : (t.bind adapter providers owned).1.Clean := by
  intro p hp
  rw [route_bind] at hp ⊢
  by_cases hmem : p ∈ providers
  · simp [hmem] at hp
  · simp only [if_neg hmem] at hp ⊢
    exact h p hp

theorem registerAdapter {providers : List String} {terms : RouteTerms ResolvedRetryPolicy δ} {replace : Bool}
    {handle : AdapterHandle ResolvedRetryPolicy δ} (h : t.Clean)
    (haccepted : t.registerAdapter providers terms replace = .ok (t', handle)) : t'.Clean := by
  obtain ⟨-, rfl, -, -⟩ := registerAdapter_eq_ok haccepted
  intro p hp
  rw [route_setTerms, route_bind] at hp ⊢
  by_cases hmem : p ∈ providers
  · simp [hmem] at hp
  · simp only [if_neg hmem] at hp ⊢
    exact h p hp

/-- Every run of registrations and their handles leaves the table clean. -/
theorem of_reach {s : RoutingRun ResolvedRetryPolicy δ} (hreach : Machine.Reach RoutingRun.step Machine.anyStep {} s) :
    s.table.Clean := by
  refine hreach.invariant (P := fun s => s.table.Clean) ?_ ?_
  · intro p hp
    rfl
  · intro s a s' h _ hstep
    cases a with
    | register providers terms replace =>
      simp only [RoutingRun.step] at hstep
      split at hstep
      · obtain rfl := Option.some.inj hstep
        exact h
      · rename_i haccepted
        obtain rfl := Option.some.inj hstep
        exact h.registerAdapter haccepted
    | release k =>
      simp only [RoutingRun.step] at hstep
      split at hstep
      · cases hstep
      · obtain rfl := Option.some.inj hstep
        exact h.release _ _
    | replace k candidates =>
      simp only [RoutingRun.step] at hstep
      split at hstep
      · cases hstep
      · split at hstep
        · obtain rfl := Option.some.inj hstep
          exact h
        · rename_i haccepted
          obtain rfl := Option.some.inj hstep
          obtain ⟨-, rfl, -⟩ := replaceHandle_eq_ok.mp haccepted
          exact (h.release _ _).bind _ _ []

end RoutingTable.Clean

namespace PiAi

variable {plugin : PiAi} {t t' : RoutingTable ResolvedRetryPolicy δ} {handle : Option (AdapterHandle ResolvedRetryPolicy δ)}

/-- The routes of a mounted plugin have its adapter, and no policy. -/
theorem route_mount (hclean : t.Clean) (hmount : plugin.mount t = .ok (t', handle)) {provider : String} {profile : PiAiProfile}
    (hprofile : plugin.profiles.get? provider = some profile) : t'.route provider = ⟨some plugin.adapter, none, none⟩ := by
  have hmem : provider ∈ plugin.profiles.entries.map (·.1) :=
    List.mem_map.mpr ⟨(provider, profile), Dict.get?_eq_some.mp hprofile, rfl⟩
  have hne : plugin.profiles.entries.isEmpty = false := by
    cases hentries : plugin.profiles.entries with
    | nil => simp [hentries] at hmem
    | cons entry entries => rfl
  unfold mount at hmount
  rw [hne, if_neg Bool.false_ne_true] at hmount
  obtain ⟨⟨t'', handle'⟩, haccepted, hrest⟩ := Except.bind_eq_ok_iff.mp hmount
  cases hrest
  obtain ⟨-, rfl, -, hfree⟩ := RoutingTable.registerAdapter_eq_ok haccepted
  have hnothing := hclean provider (hfree rfl provider hmem)
  rw [RoutingTable.route_setTerms, RoutingTable.route_bind, hnothing]
  simp [hmem]

end PiAi

/-- The failure is one that the policy has another attempt for: the first attempt raised an `LlmError` before it yielded anything, and the
policy asks for a retry. -/
def ResolvedRetryPolicy.WantsRetry (policy : ResolvedRetryPolicy) (o : AttemptOutcome χ) : Prop :=
  o.chunks = [] ∧ ∃ e, o.result = .error (.llm e) ∧ policy.shouldRetry e.code 0 = true

/-- What is raised where the policy asks for a retry is not the failure. -/
theorem afterFailure_asked {policy : ResolvedRetryPolicy} {o : AttemptOutcome χ} {e : LlmError} {error : StreamError}
    (hasked : policy.shouldRetry e.code 0 = true) (h : afterFailure (some policy) 0 false o e = .error error) :
    error ≠ .llm e := by
  rintro rfl
  cases hchecked : o.checked with
  | error raised => simp [afterFailure, hasked, hchecked, Except.mapError, bind, Except.bind] at h
  | ok u =>
    cases hslept : o.slept <;>
      simp [afterFailure, hasked, hchecked, hslept, Except.mapError, bind, Except.bind, pure, Except.pure] at h

/-- A call without a policy goes as one with a policy exactly if its first attempt is none that the policy retries. -/
theorem adapterStream_none_iff (policy : ResolvedRetryPolicy) (outcomes : List (AttemptOutcome χ)) :
    adapterStream none 0 [] outcomes = adapterStream (some policy) 0 [] outcomes ↔
      ∀ o, outcomes.head? = some o → ¬policy.WantsRetry o := by
  cases outcomes with
  | nil => simp [adapterStream]
  | cons o outcomes =>
    have hnone : ∀ e, afterFailure none 0 (!o.chunks.isEmpty) o e = .error (.llm e) := by
      intro e
      cases hemitted : o.chunks.isEmpty <;> simp [afterFailure]
    constructor
    · rintro hsame o' ⟨⟩ ⟨hsilent, e, hfailed, hasked⟩
      have hfirst : adapterStream none 0 [] (o :: outcomes) =
          { last := some o, chunks := o.chunks, result := some (.error (.llm e)) } := by
        simp [adapterStream, hfailed, hnone]
      rw [hfirst] at hsame
      cases hafter : afterFailure (some policy) 0 false o e with
      | error error =>
        have hresult := congrArg ServedCall.result hsame
        simp only [adapterStream, hfailed, passOn_eq, hsilent, List.isEmpty_nil, Bool.not_true, hafter, Option.some.injEq,
          Except.error.injEq] at hresult
        exact afterFailure_asked hasked hafter hresult.symm
      | ok delay =>
        have hretried := congrArg ServedCall.retried hsame
        simp [adapterStream, hfailed, hsilent, hafter] at hretried
    · intro hunasked
      cases hresult : o.result with
      | ok u => simp [adapterStream, hresult]
      | error error =>
        cases error with
        | other e => simp [adapterStream, hresult]
        | llm e =>
          have hsurfaces : afterFailure (some policy) 0 (!o.chunks.isEmpty) o e = .error (.llm e) := by
            cases hchunks : o.chunks with
            | cons chunk chunks => simp [afterFailure]
            | nil =>
              have hasked : policy.shouldRetry e.code 0 ≠ true := fun hasked => hunasked o rfl ⟨hchunks, e, hresult, hasked⟩
              simp [afterFailure, hasked]
          simp [adapterStream, hresult, hnone, hsurfaces]

/-! ## What a configured policy does -/

/-- After the plugin is mounted, a call for one of its routes goes by the policy that is configured for it exactly if the first attempt is
none that this policy retries: the service has no policy for the route. -/
theorem PiAi.retried_as_configured_iff {s : RoutingRun ResolvedRetryPolicy δ} {plugin : PiAi}
    {t : RoutingTable ResolvedRetryPolicy δ} {handle : Option (AdapterHandle ResolvedRetryPolicy δ)} {provider : String}
    {profile : PiAiProfile} (hreach : Machine.Reach RoutingRun.step Machine.anyStep {} s)
    (hmount : plugin.mount s.table = .ok (t, handle)) (hprofile : plugin.profiles.get? provider = some profile)
    (repr : String → String) (outcomes : List (AttemptOutcome χ)) :
    t.stream repr provider outcomes = adapterStream (some profile.retryPolicy) 0 [] outcomes ↔
      ∀ o, outcomes.head? = some o → ¬profile.retryPolicy.WantsRetry o := by
  have hroute := route_mount (.of_reach hreach) hmount hprofile
  have hadapter : t.adapters.get? provider = some plugin.adapter := congrArg Route.adapter hroute
  have hpolicy : t.providerRetry.get? provider = none := congrArg Route.retry hroute
  have hstream : t.stream repr provider outcomes = adapterStream none 0 [] outcomes := by
    unfold RoutingTable.stream
    rw [hadapter, hpolicy]
  rw [hstream, adapterStream_none_iff]

/-- A plugin with one route, and the default policy for it. -/
def PiAi.openRouter : PiAi where
  profiles := Dict.empty.set "openrouter" { retryPolicy := { mode := .normal } }
  adapter := 0

/-- The attempt is refused for its rate. -/
def rateLimited : AttemptOutcome String where
  chunks := []
  result := .error (.llm { message := "slow down", code := "RATE_LIMIT" })

/-- A call that is answered at once goes by the policy. -/
theorem PiAi.retried_as_configured_answered :
    ∃ t handle, PiAi.openRouter.mount (δ := Unit) {} = .ok (t, handle) ∧
      t.stream id "openrouter" [⟨["hello"], .ok (), .ok (), 0, .ok ()⟩] =
        adapterStream (some { mode := .normal }) 0 [] [⟨["hello"], .ok (), .ok (), 0, .ok ()⟩] := by
  refine ⟨_, _, rfl, ?_⟩
  have hiff := @PiAi.retried_as_configured_iff String Unit {} PiAi.openRouter _ _ "openrouter" { retryPolicy := { mode := .normal } }
    .start rfl rfl id [⟨["hello"], .ok (), .ok (), 0, .ok ()⟩]
  refine hiff.mpr ?_
  rintro o ⟨⟩ ⟨hsilent, -⟩
  cases hsilent

/-- A rate limit ends a call whose policy has two retries for it. -/
theorem PiAi.policy_not_applied :
    ∃ t handle, PiAi.openRouter.mount (δ := Unit) {} = .ok (t, handle) ∧
      PiAi.openRouter.providerRetryPolicy "openrouter" = some { mode := .normal } ∧
      (adapterStream (some { mode := .normal }) 0 [] [rateLimited, rateLimited]).retried.length = 2 ∧
      (t.stream id "openrouter" [rateLimited, rateLimited]).retried.length = 0 :=
  ⟨_, _, rfl, rfl, rfl, rfl⟩

end Pydsh
