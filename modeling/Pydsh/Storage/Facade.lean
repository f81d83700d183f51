import Pydsh.Lib.Dict
import Pydsh.Lib.Machine
import Pydsh.Storage.Unit

/-!
# One open domain per name

The calls `open` and `close` of the storage facade (`storage/domain.py`) in any order. `open` looks a name up before it awaits the
backend and registers the domain afterwards without looking again; `close` awaits and then pops the name, whatever domain it stands
for by then. So two overlapping opens of one name give two open domains, and a close that ends after another close of the same domain
takes a later domain out of the registry (`two_open_domains`). A run keeps the law exactly as long as its steps avoid these two
(`one_open_domain`).
-/

namespace Pydsh

/-- A `Domain`, as far as its lifetime goes. -/
structure DomainObject where
  name : String
  closing : Bool := false
  closed : Bool := false

/-- Why a call of the facade raises. -/
inductive FacadeError where
  /-- `duplicate-domain`. -/
  | duplicate (message : String)
  /-- No such backend, or one without the facet. -/
  | notServed
  /-- The backend or a schema raised, or the caller was cancelled. -/
  | failed
  deriving DecidableEq

/-- The text of `duplicate-domain`. -/
def alreadyOpen (name : String) : FacadeError :=
  .duplicate ("domain " ++ quoted name ++
    " is already open — two runtimes over one medium would each believe their memory is authoritative")

/-- The facade: the domains made so far, each at its number; `_open`; the opens and closes that await the backend; the answer to the
call that ended last; and, beside the number of the domain, what each close took out of `_open`. -/
structure Facade where
  domains : List DomainObject := []
  registry : Dict String Nat := .empty
  opening : List String := []
  closing : List Nat := []
  answer : Option (Except FacadeError Unit) := none
  removed : List (Nat × Nat) := []

/-- What happens: a call begins, the backend lets it go on, or it raises while it awaits. -/
inductive FacadeAction where
  | open (name : String) (served : Bool)
  | opened (n : Nat)
  | openFails (n : Nat)
  | close (d : Nat)
  | closed (n : Nat)
  | closeFails (n : Nat)

namespace Facade

/-- A call ends. -/
def answers (s : Facade) (result : Except FacadeError Unit) : Facade := { s with answer := some result }

/-- The end of `open`: a new domain under its name. -/
def register (s : Facade) (name : String) : Facade :=
  { s with
    domains := s.domains ++ [{ name }]
    registry := s.registry.set name s.domains.length }

/-- The end of `close`: the domain is closed, and its name leaves `_open`. -/
def unregister (s : Facade) (d : Nat) (domain : DomainObject) : Facade :=
  { s with
    domains := s.domains.set d { domain with closed := true }
    registry := s.registry.pop domain.name
    removed := s.removed ++ ((s.registry.get? domain.name).map (fun e => (d, e))).toList }

/-- What an action does; `none` where it cannot happen. -/
def step (s : Facade) : FacadeAction → Option Facade
  | .open name served =>
    if (s.registry.get? name).isSome then some (s.answers (.error (alreadyOpen name)))
    else if served then some { s with opening := s.opening ++ [name] }
    else some (s.answers (.error .notServed))
  | .opened n =>
    match s.opening[n]? with
    | some name => some (({ s with opening := s.opening.eraseIdx n }.register name).answers (.ok ()))
    | none => none
  | .openFails n =>
    match s.opening[n]? with
    | some _ => some ({ s with opening := s.opening.eraseIdx n }.answers (.error .failed))
    | none => none
  | .close d =>
    match s.domains[d]? with
    | some domain =>
      if domain.closed then some (s.answers (.ok ()))
      else some { s with
        domains := s.domains.set d { domain with closing := true }
        closing := s.closing ++ [d] }
    | none => none
  | .closed n =>
    match s.closing[n]? with
    | some d =>
      match s.domains[d]? with
      | some domain => some (({ s with closing := s.closing.eraseIdx n }.unregister d domain).answers (.ok ()))
      | none => none
    | none => none
  | .closeFails n =>
    match s.closing[n]? with
    | some _ => some ({ s with closing := s.closing.eraseIdx n }.answers (.error .failed))
    | none => none

/-! ## The law -/

/-- A domain of a name is open. -/
def IsOpen (s : Facade) (d : Nat) (name : String) : Prop :=
  ∃ domain, s.domains[d]? = some domain ∧ domain.name = name ∧ domain.closed = false

/-- One domain of a name is open, an open of its name is refused, and no close took another domain out of `_open`. -/
structure OneOpen (s : Facade) : Prop where
  one : ∀ d e name, s.IsOpen d name → s.IsOpen e name → d = e
  refused : ∀ d name served, s.IsOpen d name → s.step (.open name served) = some (s.answers (.error (alreadyOpen name)))
  own : ∀ d e, (d, e) ∈ s.removed → d = e

/-- The step avoids both. When an open ends, its name is not registered; when a close ends, its name stands for its own domain, or
for none. -/
def Avoids (s : Facade) : FacadeAction → Prop
  | .opened n => ∀ name ∈ s.opening[n]?, s.registry.get? name = none
  | .closed n => ∀ d ∈ s.closing[n]?, ∀ domain ∈ s.domains[d]?, ∀ e, s.registry.get? domain.name = some e → d = e
  | _ => True

/-- What every run that avoids both keeps: the names registered are those of the open domains. -/
structure Inv (s : Facade) : Prop where
  registered : ∀ name d, s.registry.get? name = some d ↔ s.IsOpen d name
  own : ∀ d e, (d, e) ∈ s.removed → d = e

variable {s s' : Facade}

theorem Inv.oneOpen (h : s.Inv) : s.OneOpen := by
  constructor
  · intro d e name hd he
    exact Option.some.inj (((h.registered name d).mpr hd).symm.trans ((h.registered name e).mpr he))
  · intro d name served hd
    simp [step, (h.registered name d).mpr hd]
  · exact h.own

theorem isOpen_set {d : Nat} {domain domain' : DomainObject} (hget : s.domains[d]? = some domain) {registry : Dict String Nat}
    {opening : List String} {closing : List Nat} {answer : Option (Except FacadeError Unit)} {removed : List (Nat × Nat)}
    (e : Nat) (name : String) :
    IsOpen { domains := s.domains.set d domain', registry, opening, closing, answer, removed } e name ↔
      if e = d then domain'.name = name ∧ domain'.closed = false else s.IsOpen e name := by
  have hlt : d < s.domains.length := (List.getElem?_eq_some_iff.mp hget).1
  unfold IsOpen
  by_cases he : e = d
  · subst he
    simp [hlt]
  · simp [he, Ne.symm he]

theorem Inv.register (h : s.Inv) {name : String} (hfree : s.registry.get? name = none) : (s.register name).Inv := by
  refine ⟨fun name' d => ?_, h.own⟩
  have hopen : (s.register name).IsOpen d name' ↔ (d = s.domains.length ∧ name = name') ∨ s.IsOpen d name' := by
    unfold IsOpen Facade.register
    by_cases hd : d < s.domains.length
    · have hne : d ≠ s.domains.length := Nat.ne_of_lt hd
      simp [List.getElem?_append_left hd, hne]
    · rw [List.getElem?_append_right (Nat.le_of_not_lt hd)]
      by_cases heq : d = s.domains.length
      · simp [heq]
      · have hbeyond : d - s.domains.length ≠ 0 := by omega
        simp [heq, hd, hbeyond]
  rw [hopen, ← h.registered]
  simp only [Facade.register, Dict.get?_set]
  by_cases hname : name' = name
  · subst hname
    simp [hfree, eq_comm (a := d)]
  · simp [hname, Ne.symm hname]

theorem Inv.not_one (h : s.Inv) {name : String} {d : Nat} (hd : s.registry.get? name = some d) :
    ¬ ∀ e e' name', (s.register name).IsOpen e name' → (s.register name).IsOpen e' name' → e = e' := by
  intro hone
  obtain ⟨domain, hget, hname, hclosed⟩ := (h.registered name d).mp hd
  have hlt : d < s.domains.length := (List.getElem?_eq_some_iff.mp hget).1
  have hold : (s.register name).IsOpen d name := ⟨domain, (List.getElem?_append_left hlt).trans hget, hname, hclosed⟩
  have hnew : (s.register name).IsOpen s.domains.length name := ⟨{ name }, by simp [Facade.register], rfl, rfl⟩
  exact Nat.ne_of_lt hlt (hone d s.domains.length name hold hnew)

theorem Inv.unregister (h : s.Inv) {d : Nat} {domain : DomainObject} (hget : s.domains[d]? = some domain)
    (hown : ∀ e, s.registry.get? domain.name = some e → d = e) : (s.unregister d domain).Inv := by
  constructor
  · intro name e
    have hopen : (s.unregister d domain).IsOpen e name ↔ if e = d then domain.name = name ∧ true = false else s.IsOpen e name :=
      isOpen_set hget e name
    have hpop : (s.unregister d domain).registry.get? name = if name = domain.name then none else s.registry.get? name :=
      Dict.get?_pop ..
    rw [hopen, hpop]
    by_cases he : e = d
    · subst he
      rw [if_pos rfl]
      split
      · simp
      · rename_i hname
        rw [h.registered]
        constructor
        · rintro ⟨domain', hget', hname', -⟩
          cases hget.symm.trans hget'
          exact absurd hname'.symm hname
        · rintro ⟨-, hfalse⟩
          cases hfalse
    · rw [if_neg he, ← h.registered]
      split
      · rename_i hname
        subst hname
        constructor
        · intro hnone
          cases hnone
        · intro hreg
          exact absurd (hown e hreg).symm he
      · rfl
  · intro x y hxy
    rcases List.mem_append.mp hxy with hxy | hxy
    · exact h.own x y hxy
    · obtain ⟨e, he, heq⟩ := Option.map_eq_some_iff.mp (Option.mem_toList.mp hxy)
      obtain ⟨rfl, rfl⟩ := Prod.mk.inj heq
      exact hown _ he

/-- What one step is about: it keeps the invariant when it avoids both, and the law exactly when it avoids both. -/
structure Settles (s : Facade) (a : FacadeAction) (s' : Facade) : Prop where
  inv : s.Avoids a → s'.Inv
  exact : s'.OneOpen ↔ s.Avoids a

theorem Settles.of_inv {a : FacadeAction} (hinv : s'.Inv) (havoids : s.Avoids a) : s.Settles a s' :=
  ⟨fun _ => hinv, ⟨fun _ => havoids, fun _ => hinv.oneOpen⟩⟩

theorem Inv.opened (h : s.Inv) {n : Nat} (hstep : s.step (.opened n) = some s') : s.Settles (.opened n) s' := by
  simp only [Facade.step] at hstep
  split at hstep
  · rename_i name hname
    obtain rfl := Option.some.inj hstep
    have hinv : Inv { s with opening := s.opening.eraseIdx n } := ⟨h.registered, h.own⟩
    cases hreg : s.registry.get? name with
    | none =>
      refine .of_inv ⟨(hinv.register hreg).registered, (hinv.register hreg).own⟩ (fun name' hname' => ?_)
      cases hname.symm.trans hname'
      exact hreg
    | some d =>
      have hnot : ¬ s.Avoids (.opened n) := by
        intro havoids
        cases hreg.symm.trans (havoids name hname)
      refine ⟨fun havoids => absurd havoids hnot, fun hone => ?_, fun havoids => absurd havoids hnot⟩
      exact absurd hone.one (hinv.not_one hreg)
  · cases hstep

theorem Inv.close (h : s.Inv) {d : Nat} (hstep : s.step (.close d) = some s') : s.Settles (.close d) s' := by
  simp only [Facade.step] at hstep
  split at hstep
  · rename_i domain hget
    split at hstep
    · obtain rfl := Option.some.inj hstep
      exact .of_inv ⟨h.registered, h.own⟩ trivial
    · rename_i hclosed
      obtain rfl := Option.some.inj hstep
      refine .of_inv ⟨fun name e => ?_, h.own⟩ trivial
      rw [isOpen_set hget]
      by_cases he : e = d
      · subst he
        rw [if_pos rfl, h.registered]
        constructor
        · rintro ⟨domain', hget', hname, hclosed'⟩
          cases hget.symm.trans hget'
          exact ⟨hname, hclosed'⟩
        · rintro ⟨hname, hclosed'⟩
          exact ⟨domain, hget, hname, hclosed'⟩
      · rw [if_neg he]
        exact h.registered name e
  · cases hstep

theorem Inv.closed (h : s.Inv) {n : Nat} (hstep : s.step (.closed n) = some s') : s.Settles (.closed n) s' := by
  simp only [Facade.step] at hstep
  split at hstep
  · rename_i d hd
    split at hstep
    · rename_i domain hget
      obtain rfl := Option.some.inj hstep
      have hinv : Inv { s with closing := s.closing.eraseIdx n } := ⟨h.registered, h.own⟩
      have havoids : s.Avoids (.closed n) ↔ ∀ e, s.registry.get? domain.name = some e → d = e := by
        constructor
        · intro havoids
          exact havoids d hd domain hget
        · intro hown d' hd' domain' hget'
          cases hd.symm.trans hd'
          cases hget.symm.trans hget'
          exact hown
      refine ⟨fun hyes => ?_, fun hone => havoids.mpr (fun e he => ?_), fun hyes => ?_⟩
      · have hclosed := hinv.unregister hget (havoids.mp hyes)
        exact ⟨hclosed.registered, hclosed.own⟩
      · refine hone.own d e ?_
        simp [answers, Facade.unregister, he]
      · have hclosed := hinv.unregister hget (havoids.mp hyes)
        exact Inv.oneOpen ⟨hclosed.registered, hclosed.own⟩
    · cases hstep
  · cases hstep

theorem Inv.step (h : s.Inv) {a : FacadeAction} (hstep : s.step a = some s') : s.Settles a s' := by
  cases a with
  | opened n => exact h.opened hstep
  | close d => exact h.close hstep
  | closed n => exact h.closed hstep
  | «open» name served =>
    simp only [Facade.step] at hstep
    split at hstep
    · obtain rfl := Option.some.inj hstep
      exact .of_inv ⟨h.registered, h.own⟩ trivial
    · split at hstep
      · obtain rfl := Option.some.inj hstep
        exact .of_inv ⟨h.registered, h.own⟩ trivial
      · obtain rfl := Option.some.inj hstep
        exact .of_inv ⟨h.registered, h.own⟩ trivial
  | openFails n =>
    simp only [Facade.step] at hstep
    split at hstep
    · obtain rfl := Option.some.inj hstep
      exact .of_inv ⟨h.registered, h.own⟩ trivial
    · cases hstep
  | closeFails n =>
    simp only [Facade.step] at hstep
    split at hstep
    · obtain rfl := Option.some.inj hstep
      exact .of_inv ⟨h.registered, h.own⟩ trivial
    · cases hstep

end Facade

/-- In every run of the facade whose steps avoid both, one domain of a name is open, and the next step keeps the law exactly when it
avoids both, too. -/
theorem one_open_domain {s : Facade} (h : Machine.Reach Facade.step Facade.Avoids {} s) :
    s.OneOpen ∧ ∀ a s', s.step a = some s' → (s'.OneOpen ↔ s.Avoids a) := by
  have hstart : Facade.Inv {} := by
    constructor
    · intro name d
      simp [Facade.IsOpen]
    · intro d e hmem
      cases hmem
  have hinv := h.invariant hstart (fun _ _ _ hinv hok hstep => (hinv.step hstep).inv hok)
  exact ⟨hinv.oneOpen, fun a s' hstep => (hinv.step hstep).exact⟩

namespace FacadeRuns

/-- Two opens of one name that overlap. -/
def openedTwice : List FacadeAction := [.open "feedback" true, .open "feedback" true, .opened 0, .opened 0]

/-- Two closes of one domain that overlap, the second of which ends after the name was opened again. -/
def closedTwice : List FacadeAction :=
  [.open "feedback" true, .opened 0, .close 0, .close 0, .closed 0, .open "feedback" true, .opened 0, .closed 0]

/-- A domain is open, and an open of another name awaits its backend. -/
def openTwo : List FacadeAction := [.open "feedback" true, .opened 0, .open "memory" true]

/-- The state after some calls. -/
def after (actions : List FacadeAction) : Facade := (Machine.exec Facade.step {} actions).getD {}

theorem openTwo_reach : Machine.Reach Facade.step Facade.Avoids {} (after openTwo) := by
  refine .next (.open "memory" true) (.next (.opened 0) (.next (.open "feedback" true) .start trivial rfl) ?_ rfl) trivial rfl
  intro name hname
  cases hname
  rfl

end FacadeRuns

open FacadeRuns in
/-- An open that ends while its name is not registered. -/
theorem one_open_domain_other :
    ∃ s, (after openTwo).step (.opened 0) = some s ∧ s.domains.map (·.name) = ["feedback", "memory"] ∧ s.OneOpen := by
  refine ⟨_, rfl, rfl, ((one_open_domain openTwo_reach).2 (.opened 0) _ rfl).mpr ?_⟩
  intro name hname
  cases hname
  rfl

open FacadeRuns in
/-- After two overlapping opens two domains of one name are open; and a close that ends late takes a later domain out of the
registry. -/
theorem two_open_domains :
    (∃ s, Machine.Reach Facade.step Machine.anyStep {} s ∧ s.IsOpen 0 "feedback" ∧ s.IsOpen 1 "feedback" ∧ ¬s.OneOpen) ∧
      ∃ s, Machine.Reach Facade.step Machine.anyStep {} s ∧ s.IsOpen 1 "feedback" ∧ s.registry.get? "feedback" = none ∧
        (0, 1) ∈ s.removed ∧ ¬s.OneOpen := by
  constructor
  · have hrun : Machine.exec Facade.step {} openedTwice = some (after openedTwice) := rfl
    have hfirst : (after openedTwice).IsOpen 0 "feedback" := ⟨_, rfl, rfl, rfl⟩
    have hsecond : (after openedTwice).IsOpen 1 "feedback" := ⟨_, rfl, rfl, rfl⟩
    refine ⟨_, Machine.Reach.start.exec hrun, hfirst, hsecond, fun hone => ?_⟩
    cases hone.one 0 1 "feedback" hfirst hsecond
  · have hrun : Machine.exec Facade.step {} closedTwice = some (after closedTwice) := rfl
    have hopen : (after closedTwice).IsOpen 1 "feedback" := ⟨_, rfl, rfl, rfl⟩
    have hremoved : (0, 1) ∈ (after closedTwice).removed := List.mem_cons_of_mem _ List.mem_cons_self
    refine ⟨_, Machine.Reach.start.exec hrun, hopen, rfl, hremoved, fun hone => ?_⟩
    cases hone.own 0 1 hremoved

end Pydsh
