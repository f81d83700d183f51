import Pydsh.Bounded.Spill
import Pydsh.Tools.Shell

/-!
# Spilled results

`SpillPolicy` of `tools/guards.py`. A result over the threshold is saved whole under the name of its tool and the id of its call, and the
model is given the path. Providers choose the ids: where two results of a session have the same name, the later one takes the place of
the earlier one (`stable_iff`).
-/

namespace Pydsh

/-- `RETRIEVAL_HINT` -/
def retrievalHint : String := "Read this path with an offset and limit, or grep it, to search within it."

/-- `str(path)` -/
def FilePath.text (path : FilePath) : String := "/" ++ "/".intercalate path

/-- A tool call that has finished: who called, and the value of its result. -/
structure FinishedCall where
  callerId : Option String
  name : String
  id : String
  value : PyValue

/-- The session that a spill is scoped to. -/
def FinishedCall.sessionId (call : FinishedCall) : String := call.callerId.getD "no-session"

/-- `f"{execution.name}-{execution.id}.txt"` -/
def FinishedCall.fileName (call : FinishedCall) : String := call.name ++ "-" ++ call.id ++ ".txt"

structure SpillPolicy where
  threshold : Int
  headBytes : Int
  tailBytes : Int
  store : Option LocalSpillStore

/-- What the model is given in place of a result, with the path that its locator is the text of. -/
structure SpillNotice where
  path : FilePath
  text : String

/-- What `_spill` raises. -/
inductive SpillPolicyError where
  | store (e : SpillError)
  /-- `ValueError`: a budget that is negative. -/
  | budget (message : String)

namespace SpillPolicy

/-- `_spill`; `none` is the decision as it was. -/
def spill (p : SpillPolicy) (fault : Option WriteFault) (files : SpillFiles) (call : FinishedCall) :
    Except SpillPolicyError (Option SpillNotice) × SpillFiles :=
  match call.value with
  | .str value =>
    if (value.length : Int) ≤ p.threshold then (.ok none, files)
    else
      match p.store with
      | none => (.ok none, files)
      | some store =>
        match store.saveText fault files call.sessionId call.fileName value with
        | (.error e, files) => (.error (.store e), files)
        | (.ok saved, files) =>
          match TextRetainer.headTail p.headBytes p.tailBytes with
          | .error message => (.error (.budget message), files)
          | .ok retainer =>
            let kept := (retainer.push (.str value)).1.finish
            let notice := formatRetentionNotice kept.omittedBytes "bytes"
              (fun _ => s!"The whole output is at {saved.path.text}. {retrievalHint}")
            (.ok (some ⟨saved.path, kept.text ++ "\n\n" ++ notice⟩), files)
  | _ => (.ok none, files)

/-- `_maybe_spill`: a spill that failed leaves the decision. -/
def maybeSpill (p : SpillPolicy) (fault : Option WriteFault) (files : SpillFiles) (call : FinishedCall) :
    Option SpillNotice × SpillFiles :=
  match p.spill fault files call with
  | (.ok decision, files) => (decision, files)
  | (.error _, files) => (none, files)

/-- The text that a call leaves in the store. -/
def saves (p : SpillPolicy) (fault : Option WriteFault) (call : FinishedCall) : Option String :=
  match fault, p.store, call.value with
  | none, some _, .str value => if (value.length : Int) ≤ p.threshold then none else some value
  | _, _, _ => none

/-- A call of a run, and what goes wrong while its result is written. -/
abbrev Step : Type := FinishedCall × Option WriteFault

/-- The files after some calls. -/
def run (p : SpillPolicy) (files : SpillFiles) (steps : List Step) : SpillFiles :=
  steps.foldl (fun files step => (p.maybeSpill step.2 files step.1).2) files

/-- What was to be read at a locator that the model was given stays. -/
def Stable (p : SpillPolicy) (files : SpillFiles) (steps : List Step) : Prop :=
  ∀ earlier step between later notice, steps = earlier ++ step :: between ++ later →
    (p.maybeSpill step.2 (p.run files earlier) step.1).1 = some notice →
    p.run files (earlier ++ step :: between) notice.path = p.run files (earlier ++ [step]) notice.path

/-- The path of what a store saves of a call. -/
def pathOf (store : LocalSpillStore) (call : FinishedCall) : FilePath :=
  store.root ++ [encodeSegment call.sessionId, encodeSegment call.fileName]

/-! ## One call -/

variable {p : SpillPolicy} {store : LocalSpillStore} {fault : Option WriteFault} {files : SpillFiles} {call : FinishedCall}

/-- What is saved is a text over the threshold, and nothing went wrong. -/
theorem saves_eq_some {text : String} (h : p.saves fault call = some text) :
    fault = none ∧ (∃ store, p.store = some store) ∧ call.value = .str text ∧ ¬(text.length : Int) ≤ p.threshold := by
  unfold saves at h
  split at h
  · rename_i store value hstore hvalue
    split at h
    · cases h
    · rename_i hover
      cases h
      exact ⟨rfl, ⟨store, hstore⟩, hvalue, hover⟩
  · cases h

theorem headTail_cases (headBytes tailBytes : Int) :
    (∃ message, TextRetainer.headTail headBytes tailBytes = .error message ∧ ¬(0 ≤ headBytes ∧ 0 ≤ tailBytes)) ∨
      ∃ retainer, TextRetainer.headTail headBytes tailBytes = .ok retainer ∧ 0 ≤ headBytes ∧ 0 ≤ tailBytes := by
  simp only [TextRetainer.headTail, TextRetainer.new, assertBudget]
  by_cases hhead : headBytes < 0
  · exact .inl ⟨_, by rw [if_pos hhead]; rfl, by omega⟩
  · by_cases htail : tailBytes < 0
    · exact .inl ⟨_, by rw [if_neg hhead, if_pos htail]; rfl, by omega⟩
    · exact .inr ⟨_, by rw [if_neg hhead, if_neg htail]; rfl, by omega, by omega⟩

/-- A call that saves its result puts it under its path, and the model is given the path unless a budget is negative. -/
theorem maybeSpill_of_saves (hstore : p.store = some store) (hplain : store.Plain) {text : String} (h : p.saves fault call = some text) :
    (p.maybeSpill fault files call).2 = Function.update files (pathOf store call) (some text) ∧
      ((0 ≤ p.headBytes ∧ 0 ≤ p.tailBytes) → ∃ shown, (p.maybeSpill fault files call).1 = some ⟨pathOf store call, shown⟩) ∧
      ∀ notice, (p.maybeSpill fault files call).1 = some notice →
        notice.path = pathOf store call ∧ 0 ≤ p.headBytes ∧ 0 ≤ p.tailBytes := by
  obtain ⟨rfl, -, hvalue, hover⟩ := saves_eq_some h
  have hsave := LocalSpillStore.saveText_none hplain files call.sessionId call.fileName text
  unfold maybeSpill spill
  simp only [hvalue, if_neg hover, hstore, hsave]
  obtain ⟨message, hretainer, hneg⟩ | ⟨retainer, hretainer, hpos⟩ := headTail_cases p.headBytes p.tailBytes
  · rw [hretainer]
    exact ⟨rfl, fun hpos => absurd hpos hneg, fun _ hnotice => by cases hnotice⟩
  · rw [hretainer]
    refine ⟨rfl, fun _ => ⟨_, rfl⟩, ?_⟩
    intro notice hnotice
    cases hnotice
    exact ⟨rfl, hpos⟩

/-- A call that saves nothing leaves the store, and the model its result. -/
theorem maybeSpill_of_not_saves (hplain : ∀ store, p.store = some store → store.Plain) (h : p.saves fault call = none) :
    p.maybeSpill fault files call = (none, files) := by
  cases hvalue : call.value with
  | str value =>
    by_cases hfits : (value.length : Int) ≤ p.threshold
    · simp only [maybeSpill, spill, hvalue, if_pos hfits]
    · cases hstore : p.store with
      | none => simp only [maybeSpill, spill, hvalue, if_neg hfits, hstore]
      | some store =>
        cases fault with
        | none => simp only [saves, hstore, hvalue, if_neg hfits, reduceCtorEq] at h
        | some stage =>
          obtain ⟨e, hsave⟩ := LocalSpillStore.saveText_fault (hplain store hstore) stage files call.sessionId call.fileName value
          simp only [maybeSpill, spill, hvalue, if_neg hfits, hstore, hsave]
  | _ => simp only [maybeSpill, spill, hvalue]

/-! ## A run -/

theorem run_append (p : SpillPolicy) (files : SpillFiles) (steps others : List Step) :
    p.run files (steps ++ others) = p.run (p.run files steps) others := List.foldl_append

/-- If a store holds a text under a path, and what is saved there afterwards is the same, it still does. -/
theorem run_keeps (hstore : p.store = some store) (hplain : store.Plain) {steps : List Step} {path : FilePath} {text : String}
    (hsame : ∀ step ∈ steps, ∀ text', p.saves step.2 step.1 = some text' → pathOf store step.1 = path → text' = text)
    (hfile : files path = some text) : p.run files steps path = some text := by
  induction steps generalizing files with
  | nil => exact hfile
  | cons step steps ih =>
    refine ih (fun other hother => hsame other (List.mem_cons_of_mem step hother)) ?_
    show (p.maybeSpill step.2 files step.1).2 path = some text
    cases hsaves : p.saves step.2 step.1 with
    | none =>
      have hplains : ∀ store', p.store = some store' → store'.Plain := by
        intro store' hstore'
        rw [← Option.some.inj (hstore.symm.trans hstore')]
        exact hplain
      rw [maybeSpill_of_not_saves hplains hsaves]
      exact hfile
    | some text' =>
      rw [(maybeSpill_of_saves hstore hplain hsaves).1]
      by_cases hpath : path = pathOf store step.1
      · rw [hpath, Function.update_self, hsame step List.mem_cons_self text' hsaves hpath.symm]
      · rw [Function.update_of_ne hpath, hfile]

/-- The second call does not take the place of another text of the first. -/
def Agrees (p : SpillPolicy) (step other : Step) : Prop :=
  ∀ text text', p.saves step.2 step.1 = some text → p.saves other.2 other.1 = some text' →
    (step.1.sessionId = other.1.sessionId ∨ Confused step.1.sessionId other.1.sessionId) → step.1.fileName = other.1.fileName → text = text'

/-- Names of spills end with their suffix, so none is empty or an underscore. -/
theorem not_confused_fileName (call other : FinishedCall) : ¬Confused call.fileName other.fileName := by
  have hne : ∀ call : FinishedCall, call.fileName ≠ "" := by
    intro call hempty
    have hlength := congrArg String.length hempty
    simp only [FinishedCall.fileName, String.length_append] at hlength
    exact absurd hlength (Nat.ne_of_gt (Nat.lt_of_lt_of_le (by decide) (Nat.le_add_left _ _)))
  rintro (⟨hempty, -⟩ | ⟨-, hempty⟩)
  · exact hne call hempty
  · exact hne other hempty

theorem pathOf_eq_iff (store : LocalSpillStore) (call other : FinishedCall) : pathOf store call = pathOf store other ↔
    (call.sessionId = other.sessionId ∨ Confused call.sessionId other.sessionId) ∧ call.fileName = other.fileName := by
  unfold pathOf
  rw [List.append_cancel_left_eq, List.cons.injEq, encodeSegment_eq_iff, List.cons.injEq, encodeSegment_eq_iff]
  simp only [not_confused_fileName, or_false, and_true]

/-- Of what stands in order in a list, every earlier element is related to every later one. -/
theorem pairwise_of_splits {α : Type*} {R : α → α → Prop} {xs : List α}
    (h : ∀ earlier x between y later, xs = earlier ++ x :: between ++ y :: later → R x y) : xs.Pairwise R := by
  induction xs with
  | nil => exact .nil
  | cons x xs ih =>
    refine .cons ?_ (ih ?_)
    · intro y hy
      obtain ⟨between, later, rfl⟩ := List.append_of_mem hy
      exact h [] x between y later rfl
    · intro earlier x' between y later heq
      exact h (x :: earlier) x' between y later (by rw [heq]; rfl)

/-- What the model finds at the locators that it was given stays through a run if and only if no two results that are saved in it for one
session under one name are different texts. -/
theorem stable_iff (hplain : ∀ store, p.store = some store → store.Plain) (files : SpillFiles) (steps : List Step) :
    p.Stable files steps ↔ (0 ≤ p.headBytes → 0 ≤ p.tailBytes → steps.Pairwise p.Agrees) := by
  constructor
  · intro hstable hhead htail
    refine pairwise_of_splits ?_
    rintro earlier step between other later rfl text text' hsaves hsaves' hsession hname
    obtain ⟨-, ⟨store, hstore⟩, -, -⟩ := saves_eq_some hsaves
    have hpath : pathOf store step.1 = pathOf store other.1 := (pathOf_eq_iff store _ _).mpr ⟨hsession, hname⟩
    obtain ⟨hfiles, hgiven, -⟩ := @maybeSpill_of_saves p store step.2 (p.run files earlier) step.1 hstore (hplain store hstore) text hsaves
    obtain ⟨shown, hnotice⟩ := hgiven ⟨hhead, htail⟩
    have hkept := hstable earlier step (between ++ [other]) later _ (by simp) hnotice
    have hlast : earlier ++ step :: (between ++ [other]) = (earlier ++ step :: between) ++ [other] := by simp
    have hthen : p.run files (earlier ++ [step]) (pathOf store step.1) = some text := by
      rw [run_append]
      show (p.maybeSpill step.2 (p.run files earlier) step.1).2 _ = _
      rw [hfiles, Function.update_self]
    have hnow : p.run files (earlier ++ step :: (between ++ [other])) (pathOf store step.1) = some text' := by
      rw [hlast, run_append, hpath]
      show (p.maybeSpill other.2 (p.run files (earlier ++ step :: between)) other.1).2 _ = _
      rw [(maybeSpill_of_saves hstore (hplain store hstore) hsaves').1, Function.update_self]
    exact Option.some.inj (hthen.symm.trans (hkept.symm.trans hnow))
  · rintro hagree earlier step between later notice rfl hnotice
    cases hsaves : p.saves step.2 step.1 with
    | none =>
      rw [maybeSpill_of_not_saves hplain hsaves] at hnotice
      cases hnotice
    | some text =>
      obtain ⟨-, ⟨store, hstore⟩, -, -⟩ := saves_eq_some hsaves
      obtain ⟨hfiles, -, hgiven⟩ := @maybeSpill_of_saves p store step.2 (p.run files earlier) step.1 hstore (hplain store hstore) text hsaves
      obtain ⟨hpath, hhead, htail⟩ := hgiven notice hnotice
      have hpairs := hagree hhead htail
      rw [List.append_assoc, List.pairwise_append, List.cons_append, List.pairwise_cons] at hpairs
      have hfile : p.run files (earlier ++ [step]) notice.path = some text := by
        rw [run_append, hpath]
        show (p.maybeSpill step.2 (p.run files earlier) step.1).2 _ = _
        rw [hfiles, Function.update_self]
      have hlast : earlier ++ step :: between = (earlier ++ [step]) ++ between := by simp
      rw [hfile, hlast, run_append]
      refine run_keeps hstore (hplain store hstore) ?_ hfile
      intro other hother text' hsaves' hsame
      rw [hpath, eq_comm] at hsame
      obtain ⟨hsession, hname⟩ := (pathOf_eq_iff store _ _).mp hsame
      exact (hpairs.2.1.1 other (List.mem_append_left _ hother) text text' hsaves hsaves' hsession hname).symm

/-- A result of one character, spilled by a policy whose threshold is none. -/
def spillAll : SpillPolicy := ⟨0, 8, 8, some LocalSpillStore.plainStore⟩

/-- A result of a tool under an id that its provider chose. -/
def result (id text : String) : Step := (⟨some "chat-1", "grep", id, .str text⟩, none)

/-- The case of two results with ids of their own. -/
theorem stable_iff_two : spillAll.Stable (fun _ => none) [result "c1" "a", result "c2" "b"] := by
  refine (stable_iff (p := spillAll) ?_ (fun _ => none) [result "c1" "a", result "c2" "b"]).mpr ?_
  · intro store hstore
    cases hstore
    exact fun _ _ _ _ => rfl
  · intro _ _
    refine .cons ?_ (.cons (fun _ h => absurd h List.not_mem_nil) .nil)
    intro other hother text text' _ _ _ hname
    rw [List.mem_singleton.mp hother] at hname
    exact absurd hname (by decide)

/-- Two results whose calls have no id: the first is gone. -/
theorem not_stable_empty_ids : ¬spillAll.Stable (fun _ => none) [result "" "a", result "" "b"] := by
  intro hstable
  have hkept := hstable [] (result "" "a") [result "" "b"] [] ⟨["srv", "spill", "chat-1", "grep-.txt"], _⟩ rfl rfl
  revert hkept
  decide

end SpillPolicy

end Pydsh
