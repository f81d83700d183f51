import Pydsh.Lib.Result
import Pydsh.Llm.Translate
import Pydsh.Operating.Credentials
import Pydsh.Python.Dynamic

/-!
# The key of a request

`normalize_api_key` of `llm/errors.py`, and `api_key_for` and `_authorization` of the adapters over `operating/credentials.py`. A request
carries the key that is set at the moment, in a header that no value can break out of (`authorization_current`). What is shown of a
credential, in a description, an announcement or a refusal, depends on whether it is there and can be used, and on nothing else of its value
(`secrets_not_shown`).
-/

namespace Pydsh

/-- `normalize_api_key`'s verdict. -/
inductive KeyVerdict where
  | ok | empty | illegal
  deriving DecidableEq

/-- `[\x21-\x7E]`. -/
def isKeyChar (c : Char) : Bool := '!' ≤ c && c ≤ '~'

/-- `normalize_api_key`. -/
def normalizeApiKey (raw : String) : KeyVerdict × String :=
  let value := pyStrip raw
  if value = "" then (.empty, "")
  else if value.toList.all isKeyChar then (.ok, value)
  else (.illegal, "")

/-- What the adapters read of an endpoint or a route, and the word they have for it. -/
structure KeyEndpoint where
  noun : String := "provider"
  provider : String
  apiKeyRef : String := ""
  allowEmptyKey : Bool := false

/-- Why a request has no key: an `LlmError`, or a ref that is no name. -/
inductive KeyRefusal where
  | llm (error : LlmError)
  | badRef (message : String)

/-- `PLACEHOLDER_KEY`. -/
def placeholderKey : String := "not-needed"

/-- `api_key_for`; the credentials may not be mounted. -/
def apiKeyFor (repr : String → String) (mounted : Option Credentials) (endpoint : KeyEndpoint) : Except KeyRefusal String :=
  if endpoint.apiKeyRef = "" then .ok ""
  else
    match mounted with
    | none =>
      if endpoint.allowEmptyKey then .ok ""
      else .error (.llm {
        message := s!"{endpoint.noun} {repr endpoint.provider} needs the credential {repr endpoint.apiKeyRef}, but ctx.credentials is not mounted"
        code := "MISSING_CREDENTIAL" })
    | some credentials =>
      if isRef endpoint.apiKeyRef then .ok (((credentials.resolve endpoint.apiKeyRef).map (·.1)).getD "")
      else .error (.badRef (badRef repr endpoint.apiKeyRef))

/-- The header of a key, or its refusal. -/
def bearer (repr : String → String) (endpoint : KeyEndpoint) (key : String) : Except KeyRefusal String :=
  match normalizeApiKey key with
  | (.empty, _) =>
    if endpoint.allowEmptyKey then .ok ("Bearer " ++ placeholderKey)
    else .error (.llm {
      message := s!"{endpoint.noun} {repr endpoint.provider} has no API key; set the credential {repr endpoint.apiKeyRef}"
      code := "MISSING_CREDENTIAL" })
  | (.illegal, _) => .error (.llm {
      message := s!"the API key for {endpoint.noun} {repr endpoint.provider} contains characters that cannot go in a header (printable ASCII only)"
      code := "ILLEGAL_API_KEY" })
  | (.ok, value) => .ok ("Bearer " ++ value)

/-- `_authorization`. -/
def authorization (repr : String → String) (mounted : Option Credentials) (endpoint : KeyEndpoint) : Except KeyRefusal String := do
  let key ← apiKeyFor repr mounted endpoint
  bearer repr endpoint key

/-! ## Runs -/

/-- What is done: a credential is set or deleted, the environment of the process changes, and a credential is described or asked for. -/
inductive CredentialAction where
  | set (ref value : String)
  | delete (ref : String)
  | putenv (name value : String)
  | unsetenv (name : String)
  | describe (ref : String)
  | authorize (mounted : Bool) (endpoint : KeyEndpoint)

/-- What others than the provider are shown: an announcement, a result, or the text of an error; of a request, that it was sent. -/
inductive Shown where
  | announced (ref : String)
  | deleted (found : Bool)
  | described (info : CredentialInfo)
  | raised (refusal : KeyRefusal)
  | sent

/-- What an attempt to ask for a key shows. -/
def shownOf : Except KeyRefusal String → Shown
  | .ok _ => .sent
  | .error refusal => .raised refusal

namespace Credentials

/-- An action, with what it shows. -/
def act (repr : String → String) (c : Credentials) : CredentialAction → Credentials × List Shown
  | .set ref value =>
    if isRef ref then ({ c with store := c.store.set ref value }, [.announced ref]) else (c, [.raised (.badRef (badRef repr ref))])
  | .delete ref =>
    if isRef ref then
      if (c.store.get? ref).isSome then ({ c with store := c.store.pop ref }, [.announced ref, .deleted true]) else (c, [.deleted false])
    else (c, [.raised (.badRef (badRef repr ref))])
  | .putenv name value => ({ c with environ := c.environ.set name value }, [])
  | .unsetenv name => ({ c with environ := c.environ.pop name }, [])
  | .describe ref => (c, [if isRef ref then .described (c.describe ref) else .raised (.badRef (badRef repr ref))])
  | .authorize mounted endpoint => (c, [shownOf (authorization repr (if mounted then some c else none) endpoint)])

/-- A run, with all that it shows. -/
def run (repr : String → String) (c : Credentials) : List CredentialAction → Credentials × List Shown
  | [] => (c, [])
  | a :: as =>
    let (c₁, shown) := c.act repr a
    let (c₂, more) := run repr c₁ as
    (c₂, shown ++ more)

end Credentials

/-! ## The key that is sent -/

/-- The value that actions leave in the store under a ref. -/
def storedAfter (ref : String) (before : Option String) : CredentialAction → Option String
  | .set ref' value => if ref' = ref then some value else before
  | .delete ref' => if ref' = ref then none else before
  | _ => before

/-- The value that actions leave in the environment under a name. -/
def environAfter (name : String) (before : Option String) : CredentialAction → Option String
  | .putenv name' value => if name' = name then some value else before
  | .unsetenv name' => if name' = name then none else before
  | _ => before

namespace Credentials

variable {repr : String → String}

theorem act_store (c : Credentials) (a : CredentialAction) {ref : String} (href : isRef ref = true) :
    (c.act repr a).1.store.get? ref = storedAfter ref (c.store.get? ref) a := by
  cases a with
  | set ref' value =>
    dsimp only [act, storedAfter]
    by_cases heq : ref' = ref
    · subst heq
      simp [href]
    · rw [if_neg heq]
      split
      · exact Dict.get?_set_of_ne _ _ (Ne.symm heq)
      · rfl
  | delete ref' =>
    dsimp only [act, storedAfter]
    by_cases heq : ref' = ref
    · subst heq
      rw [if_pos href, if_pos rfl]
      split
      · exact Dict.get?_pop_self _ _
      next hnone => simpa using hnone
    · rw [if_neg heq]
      split
      · split
        · exact Dict.get?_pop_of_ne _ (Ne.symm heq)
        · rfl
      · rfl
  | putenv name value => rfl
  | unsetenv name => rfl
  | describe ref' => rfl
  | authorize mounted endpoint => rfl

theorem act_environ (c : Credentials) (a : CredentialAction) (name : String) :
    (c.act repr a).1.environ.get? name = environAfter name (c.environ.get? name) a := by
  cases a with
  | set ref value => dsimp only [act, environAfter]; split <;> rfl
  | delete ref =>
    dsimp only [act, environAfter]
    split
    · split <;> rfl
    · rfl
  | putenv name' value =>
    dsimp only [act, environAfter]
    rw [Dict.get?_set]
    by_cases heq : name' = name
    · simp [heq]
    · rw [if_neg heq, if_neg (Ne.symm heq)]
  | unsetenv name' =>
    dsimp only [act, environAfter]
    rw [Dict.get?_pop]
    by_cases heq : name' = name
    · simp [heq]
    · rw [if_neg heq, if_neg (Ne.symm heq)]
  | describe ref => rfl
  | authorize mounted endpoint => rfl

theorem run_store (c : Credentials) (as : List CredentialAction) {ref : String} (href : isRef ref = true) :
    (c.run repr as).1.store.get? ref = as.foldl (storedAfter ref) (c.store.get? ref) := by
  induction as generalizing c with
  | nil => rfl
  | cons a as ih =>
    rw [List.foldl_cons, ← act_store c a href]
    exact ih (c.act repr a).1

theorem run_environ (c : Credentials) (as : List CredentialAction) (name : String) :
    (c.run repr as).1.environ.get? name = as.foldl (environAfter name) (c.environ.get? name) := by
  induction as generalizing c with
  | nil => rfl
  | cons a as ih =>
    rw [List.foldl_cons, ← act_environ c a name]
    exact ih (c.act repr a).1

theorem run_resolve (c : Credentials) (as : List CredentialAction) {ref : String} (href : isRef ref = true) :
    ((c.run repr as).1.resolve ref).map (·.1) =
      (as.foldl (storedAfter ref) (c.store.get? ref)).or (as.foldl (environAfter ref) (c.environ.get? ref)) := by
  rw [← @run_store repr c as ref href, ← @run_environ repr c as ref]
  unfold resolve
  cases (c.run repr as).1.store.get? ref with
  | some value => rfl
  | none => simp [Function.comp_def]

end Credentials

theorem bearer_ok_iff {repr : String → String} {endpoint : KeyEndpoint} {key header : String} :
    bearer repr endpoint key = .ok header ↔
      pyStrip key = "" ∧ endpoint.allowEmptyKey = true ∧ header = "Bearer " ++ placeholderKey ∨
        pyStrip key ≠ "" ∧ (∀ c ∈ (pyStrip key).toList, isKeyChar c = true) ∧ header = "Bearer " ++ pyStrip key := by
  unfold bearer normalizeApiKey
  dsimp only
  by_cases hempty : pyStrip key = ""
  · rw [if_pos hempty]
    dsimp only
    split
    next hallowed =>
      constructor
      · intro h
        exact Or.inl ⟨hempty, hallowed, (Except.ok.inj h).symm⟩
      · rintro (⟨-, -, rfl⟩ | ⟨hne, -⟩)
        · rfl
        · contradiction
    next hallowed =>
      refine iff_of_false (by simp) ?_
      rintro (⟨-, hyes, -⟩ | ⟨hne, -⟩)
      · contradiction
      · contradiction
  · rw [if_neg hempty]
    by_cases hlegal : (pyStrip key).toList.all isKeyChar = true
    · rw [if_pos hlegal]
      dsimp only
      constructor
      · intro h
        exact Or.inr ⟨hempty, List.all_eq_true.mp hlegal, (Except.ok.inj h).symm⟩
      · rintro (⟨hkey, -⟩ | ⟨-, -, rfl⟩)
        · contradiction
        · rfl
    · rw [if_neg hlegal]
      refine iff_of_false (by simp) ?_
      rintro (⟨hkey, -⟩ | ⟨-, hyes, -⟩)
      · contradiction
      · exact hlegal (List.all_eq_true.mpr hyes)

theorem printable_of_bearer {repr : String → String} {endpoint : KeyEndpoint} {key header : String}
    (h : bearer repr endpoint key = .ok header) : ∀ c ∈ header.toList, (' ' ≤ c && c ≤ '~') = true := by
  have hbearer : ∀ c ∈ ("Bearer " : String).toList, (' ' ≤ c && c ≤ '~') = true := List.all_eq_true.mp rfl
  have hplaceholder : ∀ c ∈ placeholderKey.toList, (' ' ≤ c && c ≤ '~') = true := List.all_eq_true.mp rfl
  have hafter : ∀ text : String, (∀ c ∈ text.toList, (' ' ≤ c && c ≤ '~') = true) →
      ∀ c ∈ ("Bearer " ++ text).toList, (' ' ≤ c && c ≤ '~') = true := by
    intro text htext c hc
    rw [String.toList_append] at hc
    exact (List.mem_append.mp hc).elim (hbearer c) (htext c)
  rcases bearer_ok_iff.mp h with ⟨-, -, rfl⟩ | ⟨-, hlegal, rfl⟩
  · exact hafter _ hplaceholder
  · refine hafter _ (fun c hc => ?_)
    have hkey := hlegal c hc
    simp only [isKeyChar, Bool.and_eq_true, decide_eq_true_eq] at hkey ⊢
    exact ⟨Char.le_trans (by decide) hkey.1, hkey.2⟩

section Mounted

variable {repr : String → String} {c : Credentials} {endpoint : KeyEndpoint}

theorem authorization_plain (hempty : endpoint.apiKeyRef = "") (mounted : Option Credentials) :
    authorization repr mounted endpoint = bearer repr endpoint "" := by
  unfold authorization apiKeyFor
  rw [if_pos hempty]
  rfl

theorem authorization_mounted (hne : endpoint.apiKeyRef ≠ "") (hlegal : isRef endpoint.apiKeyRef = true) :
    authorization repr (some c) endpoint = bearer repr endpoint (((c.resolve endpoint.apiKeyRef).map (·.1)).getD "") := by
  unfold authorization apiKeyFor
  rw [if_neg hne]
  dsimp only
  rw [if_pos hlegal]
  rfl

theorem authorization_badRef (hne : endpoint.apiKeyRef ≠ "") (hillegal : ¬isRef endpoint.apiKeyRef = true) :
    authorization repr (some c) endpoint = .error (.badRef (badRef repr endpoint.apiKeyRef)) := by
  unfold authorization apiKeyFor
  rw [if_neg hne]
  dsimp only
  rw [if_neg hillegal]
  rfl

end Mounted

/-- After any run a request carries the value that was set last for its ref and not deleted since, or else what the environment has for it,
without the white space around it: where that is empty, the placeholder if the endpoint allows it, and otherwise only if all of it can go
in a header. A header that is made is printable ASCII on one line. -/
theorem authorization_current (repr : String → String) (as : List CredentialAction) (endpoint : KeyEndpoint) :
    let result := authorization repr (some (Credentials.run repr {} as).1) endpoint
    let ref := endpoint.apiKeyRef
    let key := pyStrip (if ref = "" then "" else ((as.foldl (storedAfter ref) none).or (as.foldl (environAfter ref) none)).getD "")
    (∀ header, result = .ok header ↔
      (ref = "" ∨ isRef ref = true) ∧
        (key = "" ∧ endpoint.allowEmptyKey = true ∧ header = "Bearer " ++ placeholderKey ∨
          key ≠ "" ∧ (∀ c ∈ key.toList, isKeyChar c = true) ∧ header = "Bearer " ++ key)) ∧
      ∀ header, result = .ok header → ∀ c ∈ header.toList, (' ' ≤ c && c ≤ '~') = true := by
  intro result ref key
  by_cases hempty : ref = ""
  · have hresult : result = bearer repr endpoint "" := authorization_plain hempty _
    have hkey : key = pyStrip "" := congrArg pyStrip (if_pos hempty)
    rw [hresult, hkey]
    refine ⟨fun header => ?_, fun header hheader => printable_of_bearer hheader⟩
    rw [bearer_ok_iff, and_iff_right (Or.inl hempty)]
  by_cases hlegal : isRef ref = true
  · have hfound := @Credentials.run_resolve repr {} as ref hlegal
    rw [show ({} : Credentials).store.get? ref = none from rfl] at hfound
    have hresult : result = bearer repr endpoint (((as.foldl (storedAfter ref) none).or (as.foldl (environAfter ref) none)).getD "") := by
      rw [← hfound]
      exact authorization_mounted hempty hlegal
    have hkey : key = pyStrip (((as.foldl (storedAfter ref) none).or (as.foldl (environAfter ref) none)).getD "") := by
      dsimp only [key]
      rw [if_neg hempty]
    rw [hresult, hkey]
    refine ⟨fun header => ?_, fun header hheader => printable_of_bearer hheader⟩
    rw [bearer_ok_iff, and_iff_right (Or.inr hlegal)]
  · have hresult : result = .error (.badRef (badRef repr ref)) := authorization_badRef hempty hlegal
    rw [hresult]
    refine ⟨fun header => iff_of_false (by simp) ?_, by simp⟩
    rintro ⟨hplain | href, -⟩
    · contradiction
    · contradiction

/-! ## What is shown -/

/-- Whether a value can be used as a key. -/
def verdict (value : String) : KeyVerdict := (normalizeApiKey value).1

/-- Two tables have the same keys, with values of the same verdict. -/
def SameVerdicts (d d' : Dict String String) : Prop := ∀ key, (d.get? key).map verdict = (d'.get? key).map verdict

/-- The same credentials are there, each with the same verdict. -/
structure Credentials.Alike (c c' : Credentials) : Prop where
  store : SameVerdicts c.store c'.store
  environ : SameVerdicts c.environ c'.environ

/-- The same action, but for a value with the same verdict. -/
inductive CredentialAction.Alike : CredentialAction → CredentialAction → Prop where
  | set (ref : String) {value value' : String} : verdict value = verdict value' → Alike (.set ref value) (.set ref value')
  | delete (ref : String) : Alike (.delete ref) (.delete ref)
  | putenv (name : String) {value value' : String} : verdict value = verdict value' → Alike (.putenv name value) (.putenv name value')
  | unsetenv (name : String) : Alike (.unsetenv name) (.unsetenv name)
  | describe (ref : String) : Alike (.describe ref) (.describe ref)
  | authorize (mounted : Bool) (endpoint : KeyEndpoint) : Alike (.authorize mounted endpoint) (.authorize mounted endpoint)

theorem SameVerdicts.set {d d' : Dict String String} (h : SameVerdicts d d') (key : String) {value value' : String}
    (hvalue : verdict value = verdict value') : SameVerdicts (d.set key value) (d'.set key value') := by
  intro k
  rw [Dict.get?_set, Dict.get?_set]
  split
  · exact congrArg some hvalue
  · exact h k

theorem SameVerdicts.pop {d d' : Dict String String} (h : SameVerdicts d d') (key : String) : SameVerdicts (d.pop key) (d'.pop key) := by
  intro k
  rw [Dict.get?_pop, Dict.get?_pop]
  split
  · rfl
  · exact h k

theorem shownOf_bearer {repr : String → String} (endpoint : KeyEndpoint) {key key' : String} (h : verdict key = verdict key') :
    shownOf (bearer repr endpoint key) = shownOf (bearer repr endpoint key') := by
  unfold verdict at h
  unfold bearer
  rcases hkey : normalizeApiKey key with ⟨v, value⟩
  rcases hkey' : normalizeApiKey key' with ⟨v', value'⟩
  obtain rfl : v = v' := by simpa [hkey, hkey'] using h
  cases v <;> rfl

namespace Credentials.Alike

variable {repr : String → String} {c c' : Credentials}

theorem resolve (h : c.Alike c') (ref : String) :
    (c.resolve ref).map (fun found => (verdict found.1, found.2)) = (c'.resolve ref).map (fun found => (verdict found.1, found.2)) := by
  have hstore := h.store ref
  have henviron := h.environ ref
  unfold Credentials.resolve
  cases hc : c.store.get? ref <;> cases hc' : c'.store.get? ref <;> simp only [hc, hc', Option.map_none, Option.map_some] at hstore
  · cases he : c.environ.get? ref <;> cases he' : c'.environ.get? ref <;>
      simp only [he, he', Option.map_none, Option.map_some] at henviron <;> first | contradiction | skip
    · rfl
    · simpa using henviron
  · contradiction
  · contradiction
  · simpa using hstore

theorem describe (h : c.Alike c') (ref : String) : c.describe ref = c'.describe ref := by
  have hresolve := h.resolve ref
  unfold Credentials.describe
  cases hc : c.resolve ref <;> cases hc' : c'.resolve ref <;> simp [hc, hc'] at hresolve ⊢
  exact hresolve.2

theorem authorize (h : c.Alike c') (mounted : Bool) (endpoint : KeyEndpoint) :
    shownOf (authorization repr (if mounted then some c else none) endpoint) =
      shownOf (authorization repr (if mounted then some c' else none) endpoint) := by
  have hresolve := h.resolve endpoint.apiKeyRef
  have hverdict : verdict (((c.resolve endpoint.apiKeyRef).map (·.1)).getD "") = verdict (((c'.resolve endpoint.apiKeyRef).map (·.1)).getD "") := by
    cases hc : c.resolve endpoint.apiKeyRef <;> cases hc' : c'.resolve endpoint.apiKeyRef <;> simp [hc, hc'] at hresolve ⊢
    exact hresolve.1
  by_cases hempty : endpoint.apiKeyRef = ""
  · rw [authorization_plain hempty, authorization_plain hempty]
  cases mounted with
  | false => rfl
  | true =>
    rw [if_pos rfl, if_pos rfl]
    by_cases hlegal : isRef endpoint.apiKeyRef = true
    · rw [authorization_mounted hempty hlegal, authorization_mounted hempty hlegal]
      exact shownOf_bearer endpoint hverdict
    · rw [authorization_badRef hempty hlegal, authorization_badRef hempty hlegal]

theorem act (h : c.Alike c') {a a' : CredentialAction} (ha : a.Alike a') :
    (c.act repr a).2 = (c'.act repr a').2 ∧ (c.act repr a).1.Alike (c'.act repr a').1 := by
  cases ha with
  | set ref hvalue =>
    dsimp only [Credentials.act]
    split
    · exact ⟨rfl, h.store.set ref hvalue, h.environ⟩
    · exact ⟨rfl, h⟩
  | delete ref =>
    have hthere : (c.store.get? ref).isSome = (c'.store.get? ref).isSome := by
      simpa using congrArg Option.isSome (h.store ref)
    dsimp only [Credentials.act]
    rw [hthere]
    split
    · split
      · exact ⟨rfl, h.store.pop ref, h.environ⟩
      · exact ⟨rfl, h⟩
    · exact ⟨rfl, h⟩
  | putenv name hvalue => exact ⟨rfl, h.store, h.environ.set name hvalue⟩
  | unsetenv name => exact ⟨rfl, h.store, h.environ.pop name⟩
  | describe ref =>
    dsimp only [Credentials.act]
    rw [h.describe ref]
    exact ⟨rfl, h⟩
  | authorize mounted endpoint => exact ⟨congrArg (fun shown => [shown]) (h.authorize mounted endpoint), h⟩

end Credentials.Alike

/-- Two runs in which the same is done, but that values differ and have the same verdict, show the same: every announcement, description and
refusal tells of a value at most whether it is there and whether it can be used. -/
theorem secrets_not_shown {repr : String → String} {c c' : Credentials} (h : c.Alike c') {as as' : List CredentialAction}
    (has : List.Forall₂ CredentialAction.Alike as as') :
    (c.run repr as).2 = (c'.run repr as').2 ∧ (c.run repr as).1.Alike (c'.run repr as').1 := by
  induction has generalizing c c' with
  | nil => exact ⟨rfl, h⟩
  | cons ha _ ih =>
    obtain ⟨hshown, hnext⟩ := @Credentials.Alike.act repr _ _ h _ _ ha
    obtain ⟨hmore, hend⟩ := ih hnext
    exact ⟨congrArg₂ (· ++ ·) hshown hmore, hend⟩

/-- A key that is set, asked for, and replaced by one with a line break in it. -/
theorem secrets_not_shown_broken :
    (Credentials.run id {} [.set "KEY" "abc", .authorize true { provider := "p", apiKeyRef := "KEY" }, .set "KEY" "a\nb",
        .authorize true { provider := "p", apiKeyRef := "KEY" }]).2 =
      (Credentials.run id {} [.set "KEY" "xyz", .authorize true { provider := "p", apiKeyRef := "KEY" }, .set "KEY" "x z",
        .authorize true { provider := "p", apiKeyRef := "KEY" }]).2 :=
  (secrets_not_shown ⟨fun _ => rfl, fun _ => rfl⟩
    (.cons (.set "KEY" (by decide +kernel)) (.cons (.authorize _ _) (.cons (.set "KEY" (by decide +kernel)) (.cons (.authorize _ _) .nil))))).1

end Pydsh
