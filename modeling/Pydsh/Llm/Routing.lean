import Pydsh.Lib.Dict
import Pydsh.Lib.Machine

/-!
# The routing table

`llm/service.py` up to its streams: three maps from a provider to its adapter, its retry policy and its defaults, and the handles
that registrations leave. An adapter is known by its identity, and may serve several registrations; a handle releases the routes
that have its adapter. A route goes by the registration that holds it exactly as long as nothing is left behind or taken along by
mistake (`routes_of_holders`).
-/

namespace Pydsh

variable {ρ δ : Type}

/-- The maps of `LlmService`. -/
structure RoutingTable (ρ δ : Type) where
  adapters : Dict String Nat := .empty
  providerRetry : Dict String ρ := .empty
  providerDefaults : Dict String δ := .empty

/-- What the maps hold for a provider. -/
structure Route (ρ δ : Type) where
  adapter : Option Nat
  retry : Option ρ
  defaults : Option δ
  deriving DecidableEq

/-- Why a registration is refused: "a provider name must not be empty", or a provider "already has an adapter". -/
inductive RoutingRefusal where
  | emptyName
  | hasAdapter (provider : String)
  deriving DecidableEq

/-- What a registration says of its routes. -/
structure RouteTerms (ρ δ : Type) where
  adapter : Nat
  retry : Option ρ
  defaults : Option δ

/-- `AdapterRegistration`, with what its registration said. -/
structure AdapterHandle (ρ δ : Type) where
  terms : RouteTerms ρ δ
  owned : List String

namespace RoutingTable

variable (t : RoutingTable ρ δ)

/-- The route of a provider. -/
def route (provider : String) : Route ρ δ :=
  { adapter := t.adapters.get? provider
    retry := t.providerRetry.get? provider
    defaults := t.providerDefaults.get? provider }

/-- `_assert_bindable`. -/
def assertBindable (providers : List String) (exempt : List String) : Except RoutingRefusal Unit :=
  match providers with
  | [] => .ok ()
  | provider :: providers =>
    if provider = "" then .error .emptyName
    else if (t.adapters.get? provider).isSome && !exempt.contains provider then .error (.hasAdapter provider)
    else assertBindable providers exempt

/-- `_bind`. -/
def bind (adapter : Nat) (providers owned : List String) : RoutingTable ρ δ × List String :=
  ({ t with adapters := providers.foldl (fun d provider => d.set provider adapter) t.adapters }, owned ++ providers)

/-- A route of the adapter is dropped. -/
def releaseOne (adapter : Nat) (provider : String) : RoutingTable ρ δ :=
  if t.adapters.get? provider = some adapter then
    { adapters := t.adapters.pop provider
      providerRetry := t.providerRetry.pop provider
      providerDefaults := t.providerDefaults.pop provider }
  else t

/-- `_release`. -/
def release (adapter : Nat) (providers : List String) : RoutingTable ρ δ :=
  providers.foldl (fun t provider => t.releaseOne adapter provider) t

/-- The policy and the defaults of a registration, where it has them. -/
def setTerms (terms : RouteTerms ρ δ) (providers : List String) : RoutingTable ρ δ :=
  { t with
    providerRetry := match terms.retry with
      | some retry => providers.foldl (fun d provider => d.set provider retry) t.providerRetry
      | none => t.providerRetry
    providerDefaults := match terms.defaults with
      | some defaults => providers.foldl (fun d provider => d.set provider defaults) t.providerDefaults
      | none => t.providerDefaults }

/-- `register_adapter`. -/
def registerAdapter (providers : List String) (terms : RouteTerms ρ δ) (replace : Bool) :
    Except RoutingRefusal (RoutingTable ρ δ × AdapterHandle ρ δ) := do
  if replace then
    if providers.contains "" then .error .emptyName
  else t.assertBindable providers []
  let (bound, owned) := t.bind terms.adapter providers []
  return (bound.setTerms terms providers, { terms, owned })

/-- A call of a handle. -/
def releaseHandle (handle : AdapterHandle ρ δ) : RoutingTable ρ δ × AdapterHandle ρ δ :=
  (t.release handle.terms.adapter handle.owned, { handle with owned := [] })

/-- `replace` of a handle. -/
def replaceHandle (handle : AdapterHandle ρ δ) (candidates : List String) :
    Except RoutingRefusal (RoutingTable ρ δ × AdapterHandle ρ δ) := do
  t.assertBindable candidates handle.owned
  let (bound, owned) := (t.release handle.terms.adapter handle.owned).bind handle.terms.adapter candidates []
  return (bound, { handle with owned })

end RoutingTable

/-! ## What the operations do to a route -/

namespace RoutingTable

variable {t : RoutingTable ρ δ}

theorem route_bind (adapter : Nat) (providers owned : List String) (p : String) :
    (t.bind adapter providers owned).1.route p =
      { t.route p with adapter := if p ∈ providers then some adapter else (t.route p).adapter } := by
  simp only [route, bind, Dict.get?_foldl_set]

theorem route_setTerms (terms : RouteTerms ρ δ) (providers : List String) (p : String) :
    (t.setTerms terms providers).route p =
      { adapter := (t.route p).adapter
        retry := if p ∈ providers then terms.retry.or (t.route p).retry else (t.route p).retry
        defaults := if p ∈ providers then terms.defaults.or (t.route p).defaults else (t.route p).defaults } := by
  simp only [route, setTerms]
  cases terms.retry <;> cases terms.defaults <;> simp [Dict.get?_foldl_set]

theorem route_releaseOne (adapter : Nat) (provider p : String) :
    (t.releaseOne adapter provider).route p =
      if p = provider ∧ (t.route p).adapter = some adapter then ⟨none, none, none⟩ else t.route p := by
  unfold releaseOne
  split
  · rename_i hadapter
    by_cases hp : p = provider
    · subst hp
      simp [route, hadapter]
    · simp [route, hp, Dict.get?_pop_of_ne]
  · rename_i hadapter
    by_cases hp : p = provider
    · subst hp
      rw [if_neg (fun h => hadapter h.2)]
    · rw [if_neg (fun h => hp h.1)]

/-- A release drops the routes that have the adapter, and leaves the others. -/
theorem route_release (adapter : Nat) (providers : List String) (p : String) :
    (t.release adapter providers).route p =
      if p ∈ providers ∧ (t.route p).adapter = some adapter then ⟨none, none, none⟩ else t.route p := by
  induction providers generalizing t with
  | nil => simp [release]
  | cons provider providers ih =>
    have hrest : t.release adapter (provider :: providers) = (t.releaseOne adapter provider).release adapter providers := rfl
    rw [hrest, ih, route_releaseOne]
    by_cases hadapter : (t.route p).adapter = some adapter
    · by_cases hp : p = provider
      · simp [hp ▸ hadapter, hp]
      · simp [hp, hadapter]
    · simp [hadapter]

/-- Every route is free, or the handle's own, and none has an empty name. -/
theorem assertBindable_eq_ok {providers exempt : List String} :
    t.assertBindable providers exempt = .ok () ↔ ∀ p ∈ providers, p ≠ "" ∧ ((t.route p).adapter ≠ none → p ∈ exempt) := by
  induction providers with
  | nil => simp [assertBindable]
  | cons provider providers ih =>
    rw [List.forall_mem_cons, ← ih, assertBindable]
    by_cases hempty : provider = ""
    · simp [hempty]
    · by_cases hbound : (t.adapters.get? provider).isSome && !exempt.contains provider
      · rw [if_neg hempty, if_pos hbound]
        simp only [Bool.and_eq_true, Bool.not_eq_true', List.contains_eq_mem, decide_eq_false_iff_not] at hbound
        have hsome : (t.route provider).adapter ≠ none := Option.isSome_iff_ne_none.mp hbound.1
        simp [hsome, hbound.2]
      · rw [if_neg hempty, if_neg hbound]
        simp only [Bool.and_eq_true, Bool.not_eq_true', List.contains_eq_mem, decide_eq_false_iff_not, not_and_not_right] at hbound
        have himp : (t.route provider).adapter ≠ none → provider ∈ exempt := fun h => hbound (Option.isSome_iff_ne_none.mpr h)
        exact ⟨fun h => ⟨⟨hempty, himp⟩, h⟩, fun h => h.2⟩

end RoutingTable

/-! ## Registrations and their handles -/

/-- The service with the handles of its registrations in order, and for each route the registration that holds it: the last one that
bound it, until it lets go. -/
structure RoutingRun (ρ δ : Type) where
  table : RoutingTable ρ δ := {}
  handles : List (AdapterHandle ρ δ) := []
  holder : String → Option Nat := fun _ => none

/-- `register_adapter`, with what it is told; a handle is called; a handle's `replace`. -/
inductive RoutingAction (ρ δ : Type) where
  | register (providers : List String) (terms : RouteTerms ρ δ) (replace : Bool)
  | release (handle : Nat)
  | replace (handle : Nat) (candidates : List String)

namespace RoutingRun

/-- What an action does; a call that raises changes nothing. `none` where there is no such handle. -/
def step (s : RoutingRun ρ δ) : RoutingAction ρ δ → Option (RoutingRun ρ δ)
  | .register providers terms replace =>
    match s.table.registerAdapter providers terms replace with
    | .error _ => some s
    | .ok (table, handle) => some
      { table
        handles := s.handles ++ [handle]
        holder := fun p => if p ∈ providers then some s.handles.length else s.holder p }
  | .release k =>
    match s.handles[k]? with
    | none => none
    | some handle => some
      { table := (s.table.releaseHandle handle).1
        handles := s.handles.set k (s.table.releaseHandle handle).2
        holder := fun p => if s.holder p = some k then none else s.holder p }
  | .replace k candidates =>
    match s.handles[k]? with
    | none => none
    | some handle =>
      match s.table.replaceHandle handle candidates with
      | .error _ => some s
      | .ok (table, handle) => some
        { table
          handles := s.handles.set k handle
          holder := fun p => if p ∈ candidates then some k else if s.holder p = some k then none else s.holder p }

/-- The terms of the registration that holds a route. -/
def held (s : RoutingRun ρ δ) (p : String) : Option (RouteTerms ρ δ) :=
  (s.holder p).bind (fun k => s.handles[k]?.map (·.terms))

/-- Each route has the adapter, the retry policy and the defaults of the registration that holds it. -/
def Routed (s : RoutingRun ρ δ) : Prop :=
  ∀ p, s.table.route p =
    { adapter := (s.held p).map (·.adapter)
      retry := (s.held p).bind (·.retry)
      defaults := (s.held p).bind (·.defaults) }

/-- Between two states the routes that registrations other than one hold are as they were. -/
def Untouched (s s' : RoutingRun ρ δ) (k : Nat) : Prop :=
  ∀ p j, s.holder p = some j → j ≠ k → s'.holder p = some j ∧ s'.table.route p = s.table.route p

/-- Releasing or replacing a handle leaves the routes of the others. -/
def Apart (s : RoutingRun ρ δ) (a : RoutingAction ρ δ) (s' : RoutingRun ρ δ) : Prop :=
  match a with
  | .register _ _ _ => True
  | .release k | .replace k _ => s.Untouched s' k

/-- No route that a handle once bound is held by another registration of the same adapter, some routes apart. -/
def Unshared (s : RoutingRun ρ δ) (k : Nat) (handle : AdapterHandle ρ δ) (apart : List String) : Prop :=
  ∀ p ∈ handle.owned, p ∉ apart → ∀ j, s.holder p = some j → j ≠ k → (s.table.route p).adapter ≠ some handle.terms.adapter

/-- A registration that takes routes over has a policy and defaults where they do; a handle that is released shares no adapter with the
registrations that took over routes of it; and a handle that moves to other routes does neither, nor did its registration have a policy
or defaults. -/
def Undisturbed (s : RoutingRun ρ δ) : RoutingAction ρ δ → Prop
  | .register providers terms replace =>
    replace = true → "" ∉ providers → ∀ p ∈ providers,
      (terms.retry = none → (s.table.route p).retry = none) ∧ (terms.defaults = none → (s.table.route p).defaults = none)
  | .release k => ∀ handle, s.handles[k]? = some handle → s.Unshared k handle []
  | .replace k candidates =>
    ∀ handle, s.handles[k]? = some handle →
      (∀ p ∈ candidates, p ≠ "" ∧ ((s.table.route p).adapter ≠ none → p ∈ handle.owned)) →
        s.Unshared k handle candidates ∧ (∀ p ∈ candidates, ∀ j, s.holder p = some j → j = k) ∧
          (candidates ≠ [] → handle.terms.retry = none ∧ handle.terms.defaults = none)

end RoutingRun

/-! ## Which calls are refused -/

namespace RoutingTable

variable {t t' : RoutingTable ρ δ} {providers : List String} {terms : RouteTerms ρ δ} {handle handle' : AdapterHandle ρ δ}

theorem registerAdapter_eq_ok {replace : Bool} (h : t.registerAdapter providers terms replace = .ok (t', handle)) :
    handle = ⟨terms, providers⟩ ∧ t' = (t.bind terms.adapter providers []).1.setTerms terms providers ∧
      "" ∉ providers ∧ (replace = false → ∀ p ∈ providers, (t.route p).adapter = none) := by
  cases replace with
  | true =>
    unfold registerAdapter at h
    by_cases hempty : providers.contains ""
    · rw [if_pos rfl, if_pos hempty] at h
      cases h
    · rw [if_pos rfl, if_neg hempty] at h
      cases h
      refine ⟨rfl, rfl, by simpa using hempty, ?_⟩
      intro hfalse
      cases hfalse
  | false =>
    unfold registerAdapter at h
    rw [if_neg Bool.false_ne_true] at h
    cases hfree : t.assertBindable providers [] with
    | error e =>
      rw [hfree] at h
      cases h
    | ok u =>
      rw [hfree] at h
      cases h
      refine ⟨rfl, rfl, fun hmem => (assertBindable_eq_ok.mp hfree "" hmem).1 rfl, ?_⟩
      intro _ p hp
      by_contra hbound
      exact List.not_mem_nil ((assertBindable_eq_ok.mp hfree p hp).2 hbound)

/-- A registration that may take routes over is refused for an empty name only. -/
theorem registerAdapter_replace (h : "" ∉ providers) :
    t.registerAdapter providers terms true =
      .ok ((t.bind terms.adapter providers []).1.setTerms terms providers, ⟨terms, providers⟩) := by
  have hempty : ¬providers.contains "" := by simpa using h
  unfold registerAdapter
  rw [if_pos rfl, if_neg hempty]
  rfl

theorem replaceHandle_eq_ok {candidates : List String} :
    t.replaceHandle handle candidates = .ok (t', handle') ↔
      (∀ p ∈ candidates, p ≠ "" ∧ ((t.route p).adapter ≠ none → p ∈ handle.owned)) ∧
        t' = ((t.release handle.terms.adapter handle.owned).bind handle.terms.adapter candidates []).1 ∧
          handle' = ⟨handle.terms, candidates⟩ := by
  rw [← assertBindable_eq_ok]
  unfold replaceHandle
  cases t.assertBindable candidates handle.owned with
  | error e =>
    constructor
    · intro h
      cases h
    · intro h
      cases h.1
  | ok u =>
    constructor
    · intro h
      cases h
      exact ⟨rfl, rfl, rfl⟩
    · rintro ⟨-, rfl, rfl⟩
      rfl

end RoutingTable

namespace RoutingRun

variable {s s' : RoutingRun ρ δ} {k : Nat} {handle : AdapterHandle ρ δ}

/-- Whoever holds a route has bound it and not let go of it. -/
def Holds (s : RoutingRun ρ δ) : Prop := ∀ p j, s.holder p = some j → ∃ handle, s.handles[j]? = some handle ∧ p ∈ handle.owned

theorem held_of_holder {p : String} (hk : s.handles[k]? = some handle) (hp : s.holder p = some k) : s.held p = some handle.terms := by
  rw [held, hp, Option.bind_some, hk]
  rfl

theorem Routed.free (h : s.Routed) {p : String} (hp : (s.table.route p).adapter = none) : s.table.route p = ⟨none, none, none⟩ := by
  rw [h p] at hp ⊢
  cases hheld : s.held p with
  | none => rfl
  | some terms =>
    rw [hheld] at hp
    cases hp

theorem Routed.unheld (h : s.Routed) {p : String} (hp : s.holder p = none) : s.table.route p = ⟨none, none, none⟩ := by
  have hheld : s.held p = none := by rw [held, hp, Option.bind_none]
  rw [h p, hheld]
  rfl

theorem Routed.held (h : s.Routed) {p : String} (hk : s.handles[k]? = some handle) (hp : s.holder p = some k) :
    s.table.route p = ⟨some handle.terms.adapter, handle.terms.retry, handle.terms.defaults⟩ := by
  rw [h p, held_of_holder hk hp]
  rfl

theorem terms_set {handles : List (AdapterHandle ρ δ)} {handle' : AdapterHandle ρ δ} (hk : handles[k]? = some handle)
    (hterms : handle'.terms = handle.terms) (j : Nat) : ((handles.set k handle')[j]?).map (·.terms) = (handles[j]?).map (·.terms) := by
  rw [List.getElem?_set]
  split
  · rename_i hj
    subst hj
    have hlt := (List.getElem?_eq_some_iff.mp hk).1
    rw [if_pos hlt, hk, Option.map_some, Option.map_some, hterms]
  · rfl

theorem Holds.start : Holds ({} : RoutingRun ρ δ) := by
  intro p j hp
  cases hp

/-- A new handle holds what its registration bound, and others what they held but for that. -/
theorem Holds.register (h : s.Holds) (table : RoutingTable ρ δ) (terms : RouteTerms ρ δ) (providers : List String) :
    Holds { table
            handles := s.handles ++ [⟨terms, providers⟩]
            holder := fun p => if p ∈ providers then some s.handles.length else s.holder p } := by
  intro p j hp
  change (if p ∈ providers then some s.handles.length else s.holder p) = some j at hp
  split at hp
  · rename_i hmem
    cases hp
    exact ⟨_, List.getElem?_concat_length, hmem⟩
  · obtain ⟨handle, hj, howned⟩ := h p j hp
    exact ⟨handle, List.getElem?_append_left (List.getElem?_eq_some_iff.mp hj).1 ▸ hj, howned⟩

/-- A handle holds from now on what it has bound, and others what they held but for that. -/
theorem Holds.rebind (h : s.Holds) (hk : s.handles[k]? = some handle) (table : RoutingTable ρ δ) (candidates : List String) :
    Holds { table
            handles := s.handles.set k ⟨handle.terms, candidates⟩
            holder := fun p => if p ∈ candidates then some k else if s.holder p = some k then none else s.holder p } := by
  intro p j hp
  change (if p ∈ candidates then some k else if s.holder p = some k then none else s.holder p) = some j at hp
  split at hp
  · rename_i hmem
    cases hp
    exact ⟨_, List.getElem?_set_self (List.getElem?_eq_some_iff.mp hk).1, hmem⟩
  · split at hp
    · cases hp
    · rename_i hne
      have hjk : j ≠ k := by
        rintro rfl
        exact hne hp
      obtain ⟨handle', hj, howned⟩ := h p j hp
      refine ⟨handle', ?_, howned⟩
      change (s.handles.set k _)[j]? = _
      rw [List.getElem?_set_ne hjk.symm, hj]

/-- What a call finds, and the state it leaves. -/
inductive Does (s : RoutingRun ρ δ) : RoutingAction ρ δ → RoutingRun ρ δ → Prop where
  | refused {providers : List String} {terms : RouteTerms ρ δ} {replace : Bool} (hempty : replace = true → "" ∈ providers) :
      Does s (.register providers terms replace) s
  | registers {providers : List String} {terms : RouteTerms ρ δ} {replace : Bool} (hnames : "" ∉ providers)
      (hfree : replace = false → ∀ p ∈ providers, (s.table.route p).adapter = none) : Does s (.register providers terms replace)
        { table := (s.table.bind terms.adapter providers []).1.setTerms terms providers
          handles := s.handles ++ [⟨terms, providers⟩]
          holder := fun p => if p ∈ providers then some s.handles.length else s.holder p }
  | releases {k : Nat} {handle : AdapterHandle ρ δ} (hk : s.handles[k]? = some handle) : Does s (.release k)
      { table := ((s.table.release handle.terms.adapter handle.owned).bind handle.terms.adapter [] []).1
        handles := s.handles.set k ⟨handle.terms, []⟩
        holder := fun p => if p ∈ [] then some k else if s.holder p = some k then none else s.holder p }
  | stays {k : Nat} {candidates : List String} {handle : AdapterHandle ρ δ} (hk : s.handles[k]? = some handle)
      (hbound : ¬∀ p ∈ candidates, p ≠ "" ∧ ((s.table.route p).adapter ≠ none → p ∈ handle.owned)) : Does s (.replace k candidates) s
  | moves {k : Nat} {candidates : List String} {handle : AdapterHandle ρ δ} (hk : s.handles[k]? = some handle)
      (hok : ∀ p ∈ candidates, p ≠ "" ∧ ((s.table.route p).adapter ≠ none → p ∈ handle.owned)) : Does s (.replace k candidates)
        { table := ((s.table.release handle.terms.adapter handle.owned).bind handle.terms.adapter candidates []).1
          handles := s.handles.set k ⟨handle.terms, candidates⟩
          holder := fun p => if p ∈ candidates then some k else if s.holder p = some k then none else s.holder p }

theorem does_of_step {a : RoutingAction ρ δ} (hstep : s.step a = some s') : s.Does a s' := by
  cases a with
  | register providers terms replace =>
    simp only [step] at hstep
    split at hstep
    · rename_i e hreg
      obtain rfl := Option.some.inj hstep
      refine .refused ?_
      rintro rfl
      by_contra hempty
      rw [RoutingTable.registerAdapter_replace hempty] at hreg
      cases hreg
    · rename_i table handle hreg
      obtain rfl := Option.some.inj hstep
      obtain ⟨rfl, rfl, hnames, hfree⟩ := RoutingTable.registerAdapter_eq_ok hreg
      exact .registers hnames hfree
  | release k =>
    simp only [step] at hstep
    split at hstep
    · cases hstep
    · rename_i handle hk
      have hdoes := Does.releases hk
      simp only [List.not_mem_nil, if_false] at hdoes
      obtain rfl := Option.some.inj hstep
      exact hdoes
  | replace k candidates =>
    simp only [step] at hstep
    split at hstep
    · cases hstep
    · rename_i handle hk
      split at hstep
      · rename_i e hreplace
        obtain rfl := Option.some.inj hstep
        refine .stays hk ?_
        intro hok
        rw [RoutingTable.replaceHandle_eq_ok.mpr ⟨hok, rfl, rfl⟩] at hreplace
        cases hreplace
      · rename_i table handle' hreplace
        obtain rfl := Option.some.inj hstep
        obtain ⟨hok, rfl, rfl⟩ := RoutingTable.replaceHandle_eq_ok.mp hreplace
        exact .moves hk hok

theorem Holds.step {a : RoutingAction ρ δ} (h : s.Holds) (hstep : s.step a = some s') : s'.Holds := by
  cases does_of_step hstep with
  | refused _ => exact h
  | registers _ _ => exact h.register _ _ _
  | releases hk => exact h.rebind hk _ []
  | stays _ _ => exact h
  | moves hk _ => exact h.rebind hk _ _

theorem step_unnamed {a : RoutingAction ρ δ} (h : s.table.route "" = ⟨none, none, none⟩) (hstep : s.step a = some s') :
    s'.table.route "" = ⟨none, none, none⟩ := by
  cases does_of_step hstep with
  | refused _ => exact h
  | registers hnames _ =>
    rw [RoutingTable.route_setTerms, RoutingTable.route_bind, h]
    simp [hnames]
  | releases _ => rw [RoutingTable.route_bind, RoutingTable.route_release, h, ite_self, if_neg List.not_mem_nil]
  | stays _ _ => exact h
  | @moves k candidates handle _ hok =>
    have hnames : "" ∉ candidates := fun hmem => (hok "" hmem).1 rfl
    rw [RoutingTable.route_bind, RoutingTable.route_release, h, ite_self, if_neg hnames]

/-! ## One call -/

theorem Routed.register_iff (h : s.Routed) (hholds : s.Holds) (terms : RouteTerms ρ δ) (providers : List String) :
    Routed { table := (s.table.bind terms.adapter providers []).1.setTerms terms providers
             handles := s.handles ++ [⟨terms, providers⟩]
             holder := fun p => if p ∈ providers then some s.handles.length else s.holder p } ↔
      ∀ p ∈ providers, (terms.retry = none → (s.table.route p).retry = none) ∧
        (terms.defaults = none → (s.table.route p).defaults = none) := by
  have hheld : ∀ p, RoutingRun.held { table := (s.table.bind terms.adapter providers []).1.setTerms terms providers
                                      handles := s.handles ++ [⟨terms, providers⟩]
                                      holder := fun p => if p ∈ providers then some s.handles.length else s.holder p } p =
      if p ∈ providers then some terms else s.held p := by
    intro p
    by_cases hp : p ∈ providers
    · simp [RoutingRun.held, hp]
    · simp only [RoutingRun.held, if_neg hp]
      cases hholder : s.holder p with
      | none => rfl
      | some j =>
        obtain ⟨handle, hj, -⟩ := hholds p j hholder
        rw [Option.bind_some, Option.bind_some, List.getElem?_append_left (List.getElem?_eq_some_iff.mp hj).1]
  constructor
  · intro hrouted p hp
    have hp' := hrouted p
    rw [hheld p, if_pos hp, RoutingTable.route_setTerms, RoutingTable.route_bind, Route.mk.injEq, if_pos hp, if_pos hp] at hp'
    obtain ⟨-, hretry, hdefaults⟩ := hp'
    refine ⟨fun hnone => ?_, fun hnone => ?_⟩
    · simpa [hnone] using hretry
    · simpa [hnone] using hdefaults
  · intro hterms p
    rw [hheld p, RoutingTable.route_setTerms, RoutingTable.route_bind]
    by_cases hp : p ∈ providers
    · obtain ⟨hretry, hdefaults⟩ := hterms p hp
      rw [if_pos hp, if_pos hp, if_pos hp, if_pos hp, Route.mk.injEq]
      refine ⟨rfl, ?_, ?_⟩
      · cases hgiven : terms.retry with
        | none => simp [hretry hgiven, hgiven]
        | some retry => simp [hgiven]
      · cases hgiven : terms.defaults with
        | none => simp [hdefaults hgiven, hgiven]
        | some defaults => simp [hgiven]
    · rw [if_neg hp, if_neg hp, if_neg hp, if_neg hp]
      exact h p

/-- A release drops what the handle holds; a route nobody holds stays free. -/
theorem Routed.let_go (h : s.Routed) (hholds : s.Holds) (hk : s.handles[k]? = some handle) {p : String}
    (hp : ∀ j, s.holder p = some j → j = k) : (s.table.release handle.terms.adapter handle.owned).route p = ⟨none, none, none⟩ := by
  rw [RoutingTable.route_release]
  cases hholder : s.holder p with
  | none =>
    rw [h.unheld hholder]
    split <;> rfl
  | some j =>
    obtain rfl := hp j hholder
    obtain ⟨handle', hj, howned⟩ := hholds p j hholder
    obtain rfl : handle' = handle := Option.some.inj (hj.symm.trans hk)
    rw [h.held hk hholder, if_pos ⟨howned, rfl⟩]

/-- A handle has let go of its routes and bound others. -/
structure Rebound (s s' : RoutingRun ρ δ) (k : Nat) (handle : AdapterHandle ρ δ) (candidates : List String) : Prop where
  route : ∀ p, s'.table.route p = { (s.table.release handle.terms.adapter handle.owned).route p with
    adapter := if p ∈ candidates then some handle.terms.adapter
      else ((s.table.release handle.terms.adapter handle.owned).route p).adapter }
  holder : ∀ p, s'.holder p = if p ∈ candidates then some k else if s.holder p = some k then none else s.holder p
  held : ∀ p, s'.held p = (s'.holder p).bind (fun j => (s.handles[j]?).map (·.terms))

theorem rebound (hk : s.handles[k]? = some handle) (candidates : List String) : Rebound s
    { table := ((s.table.release handle.terms.adapter handle.owned).bind handle.terms.adapter candidates []).1
      handles := s.handles.set k ⟨handle.terms, candidates⟩
      holder := fun p => if p ∈ candidates then some k else if s.holder p = some k then none else s.holder p } k handle candidates := by
  refine ⟨fun p => RoutingTable.route_bind _ _ [] p, fun _ => rfl, ?_⟩
  have hsame : (⟨handle.terms, candidates⟩ : AdapterHandle ρ δ).terms = handle.terms := rfl
  intro p
  simp only [RoutingRun.held, terms_set hk hsame]

/-- A route of another handle that the release leaves is as it was. -/
theorem Rebound.other {candidates : List String} (hrebound : Rebound s s' k handle candidates)
    (hunshared : s.Unshared k handle candidates) {p : String} {j : Nat} (hp : p ∉ candidates) (hj : s.holder p = some j) (hjk : j ≠ k) :
    s'.holder p = some j ∧ s'.table.route p = s.table.route p := by
  constructor
  · rw [hrebound.holder, if_neg hp, if_neg, hj]
    rw [hj]
    exact fun heq => hjk (Option.some.inj heq)
  · rw [hrebound.route, if_neg hp, RoutingTable.route_release, if_neg]
    rintro ⟨howned, hadapter⟩
    exact hunshared p howned hp j hj hjk hadapter

/-- Each route goes by its handle where nothing was left behind or taken along. -/
theorem Rebound.routed {candidates : List String} (hrebound : Rebound s s' k handle candidates) (h : s.Routed) (hholds : s.Holds)
    (hk : s.handles[k]? = some handle) (hunshared : s.Unshared k handle candidates)
    (htakes : ∀ p ∈ candidates, ∀ j, s.holder p = some j → j = k)
    (hlost : candidates ≠ [] → handle.terms.retry = none ∧ handle.terms.defaults = none) : s'.Routed := by
  intro p
  by_cases hp : p ∈ candidates
  · obtain ⟨hretry, hdefaults⟩ := hlost (List.ne_nil_of_mem hp)
    rw [hrebound.route, h.let_go hholds hk (htakes p hp), hrebound.held, hrebound.holder, if_pos hp, if_pos hp, Option.bind_some, hk,
      Option.map_some, Option.map_some, Option.bind_some, Option.bind_some, hretry, hdefaults]
  · by_cases hother : ∃ j, s.holder p = some j ∧ j ≠ k
    · obtain ⟨j, hj, hjk⟩ := hother
      obtain ⟨hholder, hroute⟩ := hrebound.other hunshared hp hj hjk
      rw [hroute, hrebound.held, hholder, ← hj]
      exact h p
    · -- the handle's own route, or nobody's, is free from now on
      have hown : ∀ j, s.holder p = some j → j = k := fun j hj => not_not.mp (fun hjk => hother ⟨j, hj, hjk⟩)
      have hfree : s'.holder p = none := by
        rw [hrebound.holder, if_neg hp]
        split
        · rfl
        · rename_i hne
          cases hj : s.holder p with
          | none => rfl
          | some j => exact absurd (hown j hj ▸ hj) hne
      rw [hrebound.route, h.let_go hholds hk hown, hrebound.held, hfree, if_neg hp]
      rfl

/-- What a handle must not have done, where the table is routed and the other handles were left alone. -/
theorem Rebound.of_routed {candidates : List String} (hrebound : Rebound s s' k handle candidates) (h : s.Routed) (hholds : s.Holds)
    (hk : s.handles[k]? = some handle) (hrouted : s'.Routed) (huntouched : s.Untouched s' k) :
    s.Unshared k handle candidates ∧ (∀ p ∈ candidates, ∀ j, s.holder p = some j → j = k) ∧
      (candidates ≠ [] → handle.terms.retry = none ∧ handle.terms.defaults = none) := by
  have htakes : ∀ p ∈ candidates, ∀ j, s.holder p = some j → j = k := by
    intro p hp j hj
    by_contra hjk
    have hkept := (huntouched p j hj hjk).1
    rw [hrebound.holder, if_pos hp] at hkept
    exact hjk (Option.some.inj hkept).symm
  refine ⟨?_, htakes, ?_⟩
  · intro p howned hp j hj hjk hadapter
    have hkept := (huntouched p j hj hjk).2
    rw [hrebound.route, if_neg hp, RoutingTable.route_release, if_pos ⟨howned, hadapter⟩] at hkept
    rw [← hkept] at hadapter
    cases hadapter
  · intro hne
    obtain ⟨p, hp⟩ := List.exists_mem_of_ne_nil candidates hne
    have hp' := hrouted p
    rw [hrebound.route, h.let_go hholds hk (htakes p hp), hrebound.held, hrebound.holder, if_pos hp, if_pos hp, Option.bind_some, hk,
      Route.mk.injEq] at hp'
    exact ⟨hp'.2.1.symm, hp'.2.2.symm⟩

/-- A handle lets go of its routes and binds others: the table is routed, and the other handles are left alone, exactly if it shares no
adapter with those that took over routes of it, takes none of theirs, and had no policy or defaults to lose. -/
theorem Rebound.iff {candidates : List String} (hrebound : Rebound s s' k handle candidates) (h : s.Routed) (hholds : s.Holds)
    (hk : s.handles[k]? = some handle) : s'.Routed ∧ s.Untouched s' k ↔
      s.Unshared k handle candidates ∧ (∀ p ∈ candidates, ∀ j, s.holder p = some j → j = k) ∧
        (candidates ≠ [] → handle.terms.retry = none ∧ handle.terms.defaults = none) := by
  constructor
  · rintro ⟨hrouted, huntouched⟩
    exact hrebound.of_routed h hholds hk hrouted huntouched
  · rintro ⟨hunshared, htakes, hlost⟩
    refine ⟨hrebound.routed h hholds hk hunshared htakes hlost, ?_⟩
    intro p j hj hjk
    exact hrebound.other hunshared (fun hp => hjk (htakes p hp j hj)) hj hjk

/-- From a routed table a call leads to a routed table, and leaves the routes of other handles where it releases or moves one, exactly
if the call is undisturbed. -/
theorem Routed.step_iff (h : s.Routed) (hholds : s.Holds) {a : RoutingAction ρ δ} (hstep : s.step a = some s') :
    s'.Routed ∧ s.Apart a s' ↔ s.Undisturbed a := by
  cases does_of_step hstep with
  | refused hempty =>
    refine ⟨fun _ hreplace hnames => ?_, fun _ => ⟨h, trivial⟩⟩
    exact absurd (hempty hreplace) hnames
  | @registers providers terms replace hnames hfree =>
    have hiff := h.register_iff hholds terms providers
    constructor
    · intro hs' _ _
      exact hiff.mp hs'.1
    · intro hok
      refine ⟨hiff.mpr ?_, trivial⟩
      intro p hp
      cases replace with
      | true => exact hok rfl hnames p hp
      | false =>
        rw [h.free (hfree rfl p hp)]
        exact ⟨fun _ => rfl, fun _ => rfl⟩
  | @releases k handle hk =>
    refine ((rebound hk []).iff h hholds hk).trans ?_
    constructor
    · rintro ⟨hunshared, -⟩ handle' hk'
      obtain rfl := Option.some.inj (hk.symm.trans hk')
      exact hunshared
    · intro hok
      exact ⟨hok handle hk, fun _ hp => absurd hp List.not_mem_nil, fun hne => absurd rfl hne⟩
  | stays hk hbound =>
    refine ⟨fun _ handle' hk' hok => ?_, fun _ => ⟨h, fun _ _ hj _ => ⟨hj, rfl⟩⟩⟩
    obtain rfl := Option.some.inj (hk.symm.trans hk')
    exact absurd hok hbound
  | @moves k candidates handle hk hok =>
    refine ((rebound hk candidates).iff h hholds hk).trans ?_
    constructor
    · intro hall handle' hk' _
      obtain rfl := Option.some.inj (hk.symm.trans hk')
      exact hall
    · exact fun hall => hall handle hk hok

end RoutingRun

/-- In every run whose calls are undisturbed, each route has the adapter, the policy and the defaults of the registration that holds it;
and the next call keeps it so, leaving the routes of the other handles where it releases or moves one, exactly if it is undisturbed. -/
theorem routes_of_holders {s : RoutingRun ρ δ} (h : Machine.Reach RoutingRun.step RoutingRun.Undisturbed {} s) :
    s.Routed ∧ ∀ a s', s.step a = some s' → (s'.Routed ∧ s.Apart a s' ↔ s.Undisturbed a) := by
  have hboth : s.Routed ∧ s.Holds := by
    refine Machine.Reach.invariant (P := fun s => s.Routed ∧ s.Holds) h ⟨fun _ => rfl, RoutingRun.Holds.start⟩ ?_
    intro s a s' hs hok hstep
    exact ⟨((hs.1.step_iff hs.2 hstep).mpr hok).1, hs.2.step hstep⟩
  exact ⟨hboth.1, fun a s' hstep => hboth.1.step_iff hboth.2 hstep⟩

/-- A route is taken over by another adapter with a policy of its own, and the old handle is released. -/
theorem routes_of_holders_taken_over : ∃ s : RoutingRun Nat Nat, s.table.route "acme" = ⟨some 1, some 3, none⟩ ∧ s.Routed := by
  have hstart : Machine.Reach (RoutingRun.step (ρ := Nat) (δ := Nat)) RoutingRun.Undisturbed {} {} := .start
  have hfirst := hstart.next (RoutingAction.register ["acme"] ⟨0, some 2, none⟩ false) ?_ rfl
  have htaken := hfirst.next (RoutingAction.register ["acme"] ⟨1, some 3, none⟩ true) ?_ rfl
  have hreleased := htaken.next (RoutingAction.release 0) ?_ rfl
  · exact ⟨_, by decide +kernel, (routes_of_holders hreleased).1⟩
  · intro handle hhandle p hp hapart j hj hne hadapter
    obtain rfl := Option.some.inj hhandle
    obtain rfl := List.mem_singleton.mp hp
    cases hadapter
  · intro _ _ p _
    refine ⟨fun hnone => ?_, fun _ => rfl⟩
    cases hnone
  · intro hreplace
    cases hreplace

/-- A route is taken over by a registration without a retry policy: it keeps the policy of the one before. -/
theorem left_behind : ∃ s : RoutingRun Nat Nat, Machine.exec RoutingRun.step {}
    [.register ["acme"] ⟨0, some 2, none⟩ false, .register ["acme"] ⟨1, none, none⟩ true] = some s ∧ ¬s.Routed := by
  refine ⟨_, rfl, ?_⟩
  intro hrouted
  have hretry := congrArg Route.retry (hrouted "acme")
  revert hretry
  decide +kernel

/-! ## Letting go -/

namespace RoutingRun

variable {s s' : RoutingRun ρ δ} {k : Nat} {handle : AdapterHandle ρ δ}

/-- A route has nothing, or a handle with its adapter owns it. -/
def Owned (s : RoutingRun ρ δ) : Prop := ∀ p, s.table.route p = ⟨none, none, none⟩ ∨
  ∃ handle ∈ s.handles, p ∈ handle.owned ∧ (s.table.route p).adapter = some handle.terms.adapter

theorem Owned.rebind (h : s.Owned) (hk : s.handles[k]? = some handle) (candidates : List String) (holder : String → Option Nat) :
    Owned { table := ((s.table.release handle.terms.adapter handle.owned).bind handle.terms.adapter candidates []).1
            handles := s.handles.set k ⟨handle.terms, candidates⟩
            holder } := by
  intro p
  dsimp only
  rw [RoutingTable.route_bind, RoutingTable.route_release]
  by_cases hp : p ∈ candidates
  · exact .inr ⟨_, List.mem_set (List.getElem?_eq_some_iff.mp hk).1 _, hp, by rw [if_pos hp]⟩
  · rw [if_neg hp]
    split
    next => exact .inl rfl
    next hkept =>
      refine (h p).imp_right ?_
      rintro ⟨other, hother, howned, hadapter⟩
      obtain ⟨j, hj⟩ := List.mem_iff_getElem?.mp hother
      have hne : k ≠ j := by
        rintro rfl
        obtain rfl := Option.some.inj (hk.symm.trans hj)
        exact hkept ⟨howned, hadapter⟩
      exact ⟨other, List.mem_iff_getElem?.mpr ⟨j, by rw [List.getElem?_set_ne hne, hj]⟩, howned, hadapter⟩

theorem Owned.step {a : RoutingAction ρ δ} (h : s.Owned) (hstep : s.step a = some s') : s'.Owned := by
  cases does_of_step hstep with
  | refused _ => exact h
  | @registers providers terms _ _ _ =>
    intro p
    dsimp only
    rw [RoutingTable.route_setTerms, RoutingTable.route_bind]
    by_cases hp : p ∈ providers
    · exact .inr ⟨_, List.mem_append_right _ List.mem_cons_self, hp, by rw [if_pos hp]⟩
    · simp only [if_neg hp]
      refine (h p).imp_right ?_
      rintro ⟨handle, hhandle, hroute⟩
      exact ⟨handle, List.mem_append_left _ hhandle, hroute⟩
  | releases hk => exact h.rebind hk [] _
  | stays _ _ => exact h
  | moves hk _ => exact h.rebind hk _ _

end RoutingRun

/-- No route is left over, whoever shared adapters or took routes over: each is owned by a handle with its adapter, and once all handles
have let go there is no adapter, policy or default for any provider. -/
theorem no_route_left {s : RoutingRun ρ δ} (h : Machine.Reach RoutingRun.step Machine.anyStep {} s) :
    s.Owned ∧ ((∀ handle ∈ s.handles, handle.owned = []) → ∀ p, s.table.route p = ⟨none, none, none⟩) := by
  have howned : s.Owned := h.invariant (fun _ => .inl rfl) (fun _ _ _ hs _ hstep => hs.step hstep)
  refine ⟨howned, fun hreleased p => (howned p).resolve_right ?_⟩
  rintro ⟨handle, hhandle, hp, -⟩
  rw [hreleased handle hhandle] at hp
  contradiction

/-- The route of `left_behind`, once both handles have let go. -/
theorem no_route_left_behind : ∃ s : RoutingRun Nat Nat, s.handles = [⟨⟨0, some 2, none⟩, []⟩, ⟨⟨1, none, none⟩, []⟩] ∧
    s.table.route "acme" = ⟨none, none, none⟩ := by
  have hrun : Machine.exec (RoutingRun.step (ρ := Nat) (δ := Nat)) {} [.register ["acme"] ⟨0, some 2, none⟩ false,
    .register ["acme"] ⟨1, none, none⟩ true, .release 0, .release 1] = some _ := rfl
  refine ⟨_, rfl, (no_route_left (.exec .start hrun)).2 ?_ "acme"⟩
  intro handle hhandle
  rcases List.mem_pair.mp hhandle with rfl | rfl <;> rfl

end Pydsh
