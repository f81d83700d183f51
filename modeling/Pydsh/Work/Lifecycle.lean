import Pydsh.Lib.Machine
import Pydsh.Work.Jobs

/-!
# What becomes of a job

`work/jobs.py`, the whole life of a job: the task of it begins, its command ends, its kills return, and the unmount cancels what is left.
A job's terminal status stays in every run. The rest holds in a run that keeps to `Orderly`, and from a step that does not the run can
come to a state in which it fails (`jobs_settle_once`): a task that is cancelled before its first step announces nothing, a kill that
awaits a task raises when the task is cancelled, and a job that is to stop is `failed` when the shell raises.
The callers of the service are not cancelled here.
-/

namespace Pydsh

/-- What happened to a job: its task has begun, was cancelled, the job was to be killed before the task ended; and what was announced. -/
structure JobRecord where
  begun : Bool := false
  cancelling : Bool := false
  requested : Bool := false
  announced : List JobSnapshot := []

/-- The registry, what happened to each job, and for each `kill` of a job of its caller that ended the id and the answer. -/
structure JobLife where
  registry : Jobs := {}
  records : String → JobRecord := fun _ => {}
  ended : List (String × JobAnswer) := []

/-- What happens: something to the registry, the first step of a job's task, or the end of a task that was cancelled before it. -/
inductive LifeAction where
  | act (a : JobAction)
  | begin (id : String)
  | drop (id : String)

namespace JobLife

/-- What can happen to the registry: a command ends after its task began, and in a cancellation only if the task was cancelled. -/
def can (s : JobLife) : JobAction → Bool
  | .finish id .cancelled => (s.records id).begun && (s.records id).cancelling
  | .finish id _ => (s.records id).begun
  | .abandoned _ _ => false
  | _ => true

/-- What happened to the jobs after an action that leaves a registry: `kill` asks for the end of a running task, `_announce_done` follows
the end of a task that began, and `_shutdown` cancels the running tasks. -/
def recorded (s : JobLife) (registry : Jobs) : JobAction → String → JobRecord
  | .kill id owner _ =>
    if (s.registry.owned id owner).any (fun job => decide (job.task = .running)) then
      Function.update s.records id { s.records id with requested := true }
    else s.records
  | .finish id _ =>
    let announced := (registry.jobs.get? id).toList.map Job.snapshot
    Function.update s.records id { s.records id with announced := (s.records id).announced ++ announced }
  | .shutdown => fun id =>
    if (s.registry.jobs.get? id).any (fun job => decide (job.task = .running)) then { s.records id with cancelling := true }
    else s.records id
  | _ => s.records

/-- The answers that an identity had since. -/
def told (before after : Jobs) (identity : String) : List JobAnswer := (after.answers identity).drop (before.answers identity).length

/-- The kills of a job of their caller that an action ends. -/
def endings (s : JobLife) (registry : Jobs) : JobAction → List (String × JobAnswer)
  | .kill id owner _ =>
    if (s.registry.owned id owner).isSome then (told s.registry registry (ownerId owner)).map (fun answer => (id, answer)) else []
  | .killed identity place =>
    match (s.registry.calls identity)[place]? with
    | some call => (told s.registry registry identity).map (fun answer => (call.id, answer))
    | none => []
  | _ => []

/-- After an action that leaves a registry. -/
def after (s : JobLife) (a : JobAction) (registry : Jobs) : JobLife :=
  { registry
    records := s.recorded registry a
    ended := s.ended ++ s.endings registry a }

/-- What an action does; `none` where it cannot happen. -/
def step (maxBytes : Int) (s : JobLife) : LifeAction → Option JobLife
  | .act a => if s.can a then (s.registry.step maxBytes a).map (s.after a) else none
  | .begin id =>
    match s.registry.jobs.get? id with
    | some job =>
      if job.task = .running ∧ (s.records id).begun = false ∧ (s.records id).cancelling = false then
        some { s with records := Function.update s.records id { s.records id with begun := true } }
      else none
    | none => none
  | .drop id =>
    match s.registry.jobs.get? id with
    | some job =>
      if job.task = .running ∧ (s.records id).begun = false ∧ (s.records id).cancelling = true then
        some { s with registry := s.registry.put id { job with task := .cancelled } }
      else none
    | none => none

/-- Each job has at most the one announcement, of what it is when its task is over, and that is terminal; each kill of a job returned the
terminal status that the job has; and a job that was to be killed before its task ended is killed when it is settled. -/
structure Settled (s : JobLife) : Prop where
  before : ∀ id job, s.registry.jobs.get? id = some job → job.task = .running → (s.records id).announced = []
  once : ∀ id job, s.registry.jobs.get? id = some job → job.task ≠ .running →
    job.status.terminal = true ∧ (s.records id).announced = [job.snapshot]
  returned : ∀ x ∈ s.ended, ∃ job, s.registry.jobs.get? x.1 = some job ∧ job.status.terminal = true ∧ x.2 = .killed job.status
  killed : ∀ id job, s.registry.jobs.get? id = some job → (s.records id).requested = true → job.status.terminal = true →
    job.status = .killed

/-- The unmount finds no task that is still to begin; the shell does not raise for a job that is to stop; and a task that is cancelled is
awaited by no kill. -/
def Orderly (s : JobLife) : LifeAction → Prop
  | .act .shutdown => ∀ id job, s.registry.jobs.get? id = some job → job.task = .running → (s.records id).begun = true
  | .act (.finish id (.raised _)) => ∀ job, s.registry.jobs.get? id = some job → job.status ≠ .stopping
  | .act (.finish id .cancelled) => ∀ identity reason, .kill id reason ∉ s.registry.calls identity
  | _ => True

/-! ## One job -/

/-- What happened to a job, and what it is. -/
structure Stands (r : JobRecord) (job : Job) : Prop where
  silent : job.task = .running → r.announced = []
  cancelled : job.task = .running → r.cancelling = true → r.begun = true ∧ job.status = .killed
  live : job.task = .running → r.cancelling = false → job.status.terminal = false
  ended : job.task ≠ .running → job.status.terminal = true ∧ r.announced = [job.snapshot]
  asked : r.requested = true → job.status = .stopping ∨ job.status = .killed
  stopping : job.status = .stopping → r.requested = true

variable {r : JobRecord} {job : Job} {s s' : JobLife} {id : String} {maxBytes : Int}

theorem settle_of_terminal (h : job.status.terminal = true) (status : JobStatus) (detail : Option String) :
    job.settle status detail = job := if_pos h

theorem settle_of_live (h : job.status.terminal = false) (status : JobStatus) (detail : Option String) :
    job.settle status detail = { job with status, detail } := if_neg (by rw [h]; exact Bool.false_ne_true)

/-- How a task ends: the job is settled in a way that depends on the outcome, after its output was buffered. -/
theorem finish_cases (maxBytes : Int) (job : Job) (outcome : ShellOutcome) : ∃ (told : Job) (status : JobStatus) (detail : Option String)
    (task : JobTask), job.finish maxBytes outcome = { told.settle status detail with task } ∧ told.snapshot = job.snapshot ∧
      status.terminal = true ∧ task ≠ .running ∧ ((∀ error, outcome ≠ .raised error) → job.status = .stopping → status = .killed) ∧
      (task = .cancelled → outcome = .cancelled) := by
  cases outcome with
  | result stdout stderr timedOut exitCode =>
    have htold : (if stderr = "" then job.appendOutput maxBytes stdout
        else (job.appendOutput maxBytes stdout).appendOutput maxBytes ("\n[stderr]\n" ++ stderr)).snapshot = job.snapshot := by
      split <;> rfl
    unfold Job.finish
    simp only
    generalize (if stderr = "" then job.appendOutput maxBytes stdout
      else (job.appendOutput maxBytes stdout).appendOutput maxBytes ("\n[stderr]\n" ++ stderr)) = told at htold ⊢
    have hstatus : told.status = job.status := congrArg JobSnapshot.status htold
    split
    · exact ⟨told, .killed, _, .done, rfl, htold, rfl, nofun, fun _ _ => rfl, nofun⟩
    · rename_i hnot
      have hrunning : job.status ≠ .stopping := hstatus ▸ hnot
      split
      · exact ⟨told, .failed, _, .done, rfl, htold, rfl, nofun, fun _ h => absurd h hrunning, nofun⟩
      · split
        · exact ⟨told, .completed, _, .done, rfl, htold, rfl, nofun, fun _ h => absurd h hrunning, nofun⟩
        · exact ⟨told, .failed, _, .done, rfl, htold, rfl, nofun, fun _ h => absurd h hrunning, nofun⟩
  | raised error => exact ⟨job, .failed, _, .done, rfl, rfl, rfl, nofun, fun h => absurd rfl (h error), nofun⟩
  | cancelled => exact ⟨job, .killed, _, .cancelled, rfl, rfl, rfl, nofun, fun _ _ => rfl, fun _ => rfl⟩

theorem finish_of_terminal (h : job.status.terminal = true) (maxBytes : Int) (outcome : ShellOutcome) :
    (job.finish maxBytes outcome).snapshot = job.snapshot := by
  obtain ⟨told, status, detail, task, hfinish, htold, -⟩ := finish_cases maxBytes job outcome
  have hterminal : told.status.terminal = true := (congrArg (fun x => x.status.terminal) htold).trans h
  rw [hfinish, settle_of_terminal hterminal]
  exact htold

/-- A job that the shell leaves live gets a terminal status, and a job that is to stop gets `killed` unless the shell raises. -/
theorem finish_of_live (h : job.status.terminal = false) (maxBytes : Int) (outcome : ShellOutcome) :
    (job.finish maxBytes outcome).status.terminal = true ∧
      ((∀ error, outcome ≠ .raised error) → job.status = .stopping → (job.finish maxBytes outcome).status = .killed) := by
  obtain ⟨told, status, detail, task, hfinish, htold, hterminal, -, hkilled, -⟩ := finish_cases maxBytes job outcome
  have hlive : told.status.terminal = false := (congrArg (fun x => x.status.terminal) htold).trans h
  rw [hfinish, settle_of_live hlive]
  exact ⟨hterminal, hkilled⟩

theorem Stands.finish (h : Stands r job) (maxBytes : Int) {outcome : ShellOutcome} (htask : job.task = .running)
    (hraised : ∀ error, outcome = .raised error → job.status ≠ .stopping) :
    Stands { r with announced := r.announced ++ [(job.finish maxBytes outcome).snapshot] } (job.finish maxBytes outcome) := by
  have hover : (job.finish maxBytes outcome).task ≠ .running := by
    obtain ⟨told, status, detail, task, hfinish, -, -, hdone, -⟩ := finish_cases maxBytes job outcome
    rw [hfinish]
    exact hdone
  have hterminal : (job.finish maxBytes outcome).status.terminal = true := by
    cases hbefore : job.status.terminal with
    | true => exact (congrArg (fun x => x.status.terminal) (finish_of_terminal hbefore maxBytes outcome)).trans hbefore
    | false => exact (finish_of_live hbefore maxBytes outcome).1
  refine ⟨fun hrunning => absurd hrunning hover, fun hrunning => absurd hrunning hover, fun hrunning => absurd hrunning hover, ?_, ?_, ?_⟩
  · intro _
    refine ⟨hterminal, ?_⟩
    simp [h.silent htask]
  · intro hrequested
    refine Or.inr ?_
    rcases h.asked hrequested with hstop | hkilled
    · have hlive : job.status.terminal = false := by rw [hstop]; rfl
      exact (finish_of_live hlive maxBytes outcome).2 (fun error he => hraised error he hstop) hstop
    · have hbefore : job.status.terminal = true := by rw [hkilled]; rfl
      exact (congrArg JobSnapshot.status (finish_of_terminal hbefore maxBytes outcome)).trans hkilled
  · intro hstop
    rw [hstop] at hterminal
    cases hterminal

/-- What keeps a job's snapshot and task keeps what is said of it. -/
theorem Stands.same (h : Stands r job) {job' : Job} (hsnapshot : job'.snapshot = job.snapshot) (htask : job'.task = job.task) :
    Stands r job' := by
  have hstatus : job'.status = job.status := congrArg JobSnapshot.status hsnapshot
  constructor
  · intro hrunning
    exact h.silent (htask ▸ hrunning)
  · intro hrunning
    rw [hstatus]
    exact h.cancelled (htask ▸ hrunning)
  · intro hrunning
    rw [hstatus]
    exact h.live (htask ▸ hrunning)
  · intro hover
    rw [hstatus, hsnapshot]
    exact h.ended (htask ▸ hover)
  · intro hrequested
    rw [hstatus]
    exact h.asked hrequested
  · intro hstop
    exact h.stopping (hstatus ▸ hstop)

/-- A `kill` of a job whose task runs, up to its `await`. -/
theorem Stands.stop (h : Stands r job) (htask : job.task = .running) (hlive : job.status.terminal = false) (reason : Option String) :
    Stands { r with requested := true } (job.stop reason) := by
  have hcancelling : r.cancelling = false := by
    cases hc : r.cancelling with
    | false => rfl
    | true =>
      rw [(h.cancelled htask hc).2] at hlive
      cases hlive
  refine ⟨fun _ => h.silent htask, ?_, fun _ _ => rfl, fun hover => absurd htask hover, fun _ => Or.inl rfl, fun _ => rfl⟩
  intro _ hc
  exact absurd (hcancelling.symm.trans hc) Bool.false_ne_true

theorem unmount_of_terminal (h : job.status.terminal = true) : job.unmount = job.abort "the job registry was unmounted" :=
  if_pos h

theorem unmount_of_live (h : job.status.terminal = false) : job.unmount.status = .killed := by
  have hnot : ¬ (job.abort "the job registry was unmounted").status.terminal = true := by simp [Job.abort, h]
  rw [Job.unmount, Job.settle, if_neg hnot]

theorem task_unmount (job : Job) : job.unmount.task = job.task := by
  unfold Job.unmount Job.settle
  split <;> rfl

theorem Stands.unmount (h : Stands r job) (hbegun : job.task = .running → r.begun = true) :
    Stands (if job.task = .running then { r with cancelling := true } else r) job.unmount := by
  by_cases htask : job.task = .running
  · rw [if_pos htask]
    have hkilled : job.unmount.status = .killed := by
      cases hterminal : job.status.terminal with
      | false => exact unmount_of_live hterminal
      | true =>
        have hcancelled : r.cancelling = true := by
          cases hc : r.cancelling with
          | true => rfl
          | false => exact absurd (hterminal.symm.trans (h.live htask hc)) (by decide)
        exact (congrArg Job.status (unmount_of_terminal hterminal)).trans (h.cancelled htask hcancelled).2
    refine ⟨fun _ => h.silent htask, fun _ _ => ⟨hbegun htask, hkilled⟩, fun _ => nofun, ?_, fun _ => Or.inr hkilled, ?_⟩
    · intro hover
      exact absurd ((task_unmount job).trans htask) hover
    · intro hstop
      rw [hkilled] at hstop
      cases hstop
  · rw [if_neg htask]
    rw [unmount_of_terminal (h.ended htask).1]
    exact h.same rfl rfl

theorem stands_new (spec : JobSpec) (owner : Option JobCaller) (id : String) : Stands {} (Jobs.newJob spec owner id) :=
  ⟨fun _ => rfl, fun _ => nofun, fun _ _ => rfl, fun h => absurd rfl h, nofun, nofun⟩

/-- A `kill` of a job that is settled while its task still runs. -/
theorem Stands.ask (h : Stands r job) (htask : job.task = .running) (hterminal : job.status.terminal = true) :
    Stands { r with requested := true } job := by
  have hkilled : job.status = .killed := by
    cases hc : r.cancelling with
    | true => exact (h.cancelled htask hc).2
    | false => exact absurd (hterminal.symm.trans (h.live htask hc)) (by decide)
  exact ⟨h.silent, h.cancelled, h.live, h.ended, fun _ => Or.inr hkilled, fun _ => rfl⟩

/-- A `kill` of a job returns at once where that is settled, and else awaits its task, which runs. -/
theorem killJob_cases (h : Stands r job) (reason : Option String) :
    job.status.terminal = true ∧ killJob reason job = ⟨job, .inr (.killed job.status)⟩ ∨
      job.status.terminal = false ∧ job.task = .running ∧ killJob reason job = ⟨job.stop reason, .inl (.kill job.id reason)⟩ := by
  cases hterminal : job.status.terminal with
  | true => exact Or.inl ⟨rfl, by simp [killJob, hterminal]⟩
  | false =>
    have htask : job.task = .running := by
      by_contra hnot
      exact absurd ((h.ended hnot).1.symm.trans hterminal) (by decide)
    have hstop : (job.stop reason).task = .running := htask
    exact Or.inr ⟨rfl, htask, by simp [killJob, hterminal, hstop]⟩

/-! ## All jobs -/

/-- What is kept in a run. -/
structure Good (s : JobLife) : Prop where
  kept : s.registry.Kept
  stands : ∀ id job, s.registry.jobs.get? id = some job → Stands (s.records id) job
  fresh : ∀ id, s.registry.jobs.get? id = none → s.records id = {}
  awaited : ∀ identity id reason, .kill id reason ∈ s.registry.calls identity →
    ∀ job, s.registry.jobs.get? id = some job → job.task ≠ .cancelled
  returned : ∀ x ∈ s.ended, ∃ job, s.registry.jobs.get? x.1 = some job ∧ job.status.terminal = true ∧ x.2 = .killed job.status

theorem good_empty : ({} : JobLife).Good := by
  refine ⟨Jobs.kept_empty, ?_, fun _ _ => rfl, ?_, ?_⟩
  · intro id job hget
    cases hget
  · intro identity id reason hcall
    cases hcall
  · intro x hx
    cases hx

theorem Good.settled (h : s.Good) : s.Settled := by
  refine ⟨?_, ?_, h.returned, ?_⟩
  · intro id job hget
    exact (h.stands id job hget).silent
  · intro id job hget
    exact (h.stands id job hget).ended
  · intro id job hget hrequested hterminal
    rcases (h.stands id job hget).asked hrequested with hstop | hkilled
    · rw [hstop] at hterminal
      cases hterminal
    · exact hkilled

theorem Good.put (h : s.Good) (hget : s.registry.jobs.get? id = some job) {job' : Job} {r' : JobRecord} (hsame : Jobs.SameJob job job')
    (hstands : Stands r' job') (hterminal : job.status.terminal = true → job'.status = job.status)
    (htask : job'.task = .cancelled → job.task = .cancelled ∨ ∀ identity reason, .kill id reason ∉ s.registry.calls identity) :
    { s with registry := s.registry.put id job', records := Function.update s.records id r' }.Good := by
  refine ⟨h.kept.put hget hsame, ?_, ?_, ?_, ?_⟩
  · intro id' found hfound
    rw [Jobs.get?_put] at hfound
    split at hfound
    · rename_i heq
      subst heq
      cases hfound
      simpa using hstands
    · rename_i hne
      simpa [hne] using h.stands id' found hfound
  · intro id' hnone
    rw [Jobs.get?_put] at hnone
    split at hnone
    · cases hnone
    · rename_i hne
      simpa [hne] using h.fresh id' hnone
  · intro identity id' reason hcall found hfound
    rw [Jobs.get?_put] at hfound
    split at hfound
    · rename_i heq
      subst heq
      cases hfound
      intro hcancelled
      rcases htask hcancelled with hbefore | hnone
      · exact h.awaited identity id' reason hcall job hget hbefore
      · exact hnone identity reason hcall
    · exact h.awaited identity id' reason hcall found hfound
  · intro x hx
    obtain ⟨found, hfound, hover, hanswer⟩ := h.returned x hx
    rw [Jobs.get?_put]
    split
    · rename_i heq
      rw [heq, hget] at hfound
      cases hfound
      have hstatus := hterminal hover
      exact ⟨job', rfl, hstatus.symm ▸ hover, hstatus.symm ▸ hanswer⟩
    · exact ⟨found, hfound, hover, hanswer⟩

theorem Good.put_same (h : s.Good) (hget : s.registry.jobs.get? id = some job) {job' : Job} (hsame : Jobs.SameJob job job')
    (hsnapshot : job'.snapshot = job.snapshot) (htask : job'.task = job.task) :
    { s with registry := s.registry.put id job' }.Good := by
  have hstands := (h.stands id job hget).same hsnapshot htask
  have hput := h.put hget hsame hstands (fun _ => congrArg JobSnapshot.status hsnapshot) (fun hcancelled => Or.inl (htask ▸ hcancelled))
  rwa [Function.update_eq_self] at hput

theorem Good.record (h : s.Good) (hget : s.registry.jobs.get? id = some job) {r' : JobRecord} (hstands : Stands r' job) :
    { s with records := Function.update s.records id r' }.Good := by
  refine ⟨h.kept, ?_, ?_, h.awaited, h.returned⟩
  · intro id' found hfound
    by_cases heq : id' = id
    · subst heq
      cases hget.symm.trans hfound
      simpa using hstands
    · simpa [heq] using h.stands id' found hfound
  · intro id' hnone
    have hne : id' ≠ id := by
      rintro rfl
      cases hget.symm.trans hnone
    simpa [hne] using h.fresh id' hnone

theorem Good.answer (h : s.Good) (identity : String) (answer : JobAnswer) :
    { s with registry := s.registry.answer identity answer }.Good :=
  ⟨h.kept.answer identity answer, h.stands, h.fresh, h.awaited, h.returned⟩

theorem Good.resume (h : s.Good) (identity : String) (place : Nat) : { s with registry := s.registry.resume identity place }.Good := by
  refine ⟨h.kept.resume identity place, h.stands, h.fresh, ?_, h.returned⟩
  intro caller id reason hcall
  by_cases hcaller : caller = identity
  · subst hcaller
    simp only [Jobs.resume, Function.update_self] at hcall
    exact h.awaited caller id reason (List.mem_of_mem_eraseIdx hcall)
  · simp only [Jobs.resume, Function.update_of_ne hcaller] at hcall
    exact h.awaited caller id reason hcall

/-- A call awaits that is a `wait`, or a `kill` of a job whose task is not cancelled. -/
theorem Good.await (h : s.Good) {identity : String} {call : JobCall} (hget : s.registry.jobs.get? call.id = some job)
    (howner : job.ownerId = identity) (hkill : ∀ id reason, call = .kill id reason → job.task ≠ .cancelled) :
    { s with registry := s.registry.await identity call }.Good := by
  refine ⟨h.kept.await hget howner, h.stands, h.fresh, ?_, h.returned⟩
  intro caller id reason hcall found hfound
  by_cases hcaller : caller = identity
  · subst hcaller
    simp only [Jobs.await, Function.update_self, List.mem_append, List.mem_singleton] at hcall
    rcases hcall with hcall | hcall
    · exact h.awaited caller id reason hcall found hfound
    · subst hcall
      cases hget.symm.trans hfound
      exact hkill id reason rfl
  · simp only [Jobs.await, Function.update_of_ne hcaller] at hcall
    exact h.awaited caller id reason hcall found hfound

/-- A `kill` returned the terminal status that the job has. -/
theorem Good.end_kill (h : s.Good) (hget : s.registry.jobs.get? id = some job) (hterminal : job.status.terminal = true) :
    { s with ended := s.ended ++ [(id, JobAnswer.killed job.status)] }.Good := by
  refine ⟨h.kept, h.stands, h.fresh, h.awaited, ?_⟩
  intro x hx
  rcases List.mem_append.mp hx with hx | hx
  · exact h.returned x hx
  · obtain rfl := List.mem_singleton.mp hx
    exact ⟨job, hget, hterminal, rfl⟩

/-! ## A step -/

theorem after_quiet {a : JobAction} {registry : Jobs} (hrecords : s.recorded registry a = s.records)
    (hended : s.endings registry a = []) : s.after a registry = { s with registry } := by
  rw [after, hrecords, hended, List.append_nil]

/-- An operation on a job that leaves its snapshot and its task, and is no `kill`. -/
theorem Good.use_same (h : s.Good) (id : String) (owner : Option JobCaller) {op : Job → Served} (hfair : Jobs.Fair op)
    (hsnapshot : ∀ job, (op job).job.snapshot = job.snapshot) (htask : ∀ job, (op job).job.task = job.task)
    (hkill : ∀ job id reason, (op job).result ≠ .inl (.kill id reason)) : { s with registry := s.registry.use id owner op }.Good := by
  unfold Jobs.use
  split
  · exact h.answer _ _
  · rename_i job howned
    obtain ⟨hget, howner⟩ := Jobs.owned_eq_some.mp howned
    obtain ⟨hsame, hcall⟩ := hfair job
    have hput := h.put_same hget hsame (hsnapshot job) (htask job)
    split
    · rename_i call hresult
      have hid : call.id = id := (hcall call hresult).trans (h.kept.keyed id job hget)
      have hget' : (s.registry.put id (op job).job).jobs.get? call.id = some (op job).job := by
        rw [hid]
        exact (Jobs.get?_put ..).trans (if_pos rfl)
      refine hput.await hget' (hsame.2.trans howner) ?_
      rintro id' reason rfl
      exact absurd hresult (hkill job id' reason)
    · exact hput.answer _ _

/-- What `kill` does, up to its `await`. -/
theorem Good.kill (h : s.Good) (id : String) (owner : Option JobCaller) (reason : Option String) :
    (s.after (.kill id owner reason) (s.registry.use id owner (killJob reason))).Good := by
  cases howned : s.registry.owned id owner with
  | none =>
    have huse : s.registry.use id owner (killJob reason) = s.registry.answer (ownerId owner) (.notFound id) := by simp [Jobs.use, howned]
    rw [huse, after_quiet (by simp [recorded, howned]) (by simp [endings, howned])]
    exact h.answer _ _
  | some job =>
    obtain ⟨hget, howner⟩ := Jobs.owned_eq_some.mp howned
    have hstands := h.stands id job hget
    rcases killJob_cases hstands reason with ⟨hterminal, hkill⟩ | ⟨hlive, htask, hkill⟩
    · have huse : s.registry.use id owner (killJob reason) = (s.registry.put id job).answer (ownerId owner) (.killed job.status) := by
        simp [Jobs.use, howned, hkill]
      have hendings : s.endings (s.registry.use id owner (killJob reason)) (.kill id owner reason) = [(id, .killed job.status)] := by
        simp [endings, howned, huse, told, Jobs.answer, Jobs.put]
      have hput := h.put_same hget ⟨rfl, rfl⟩ rfl rfl
      have hget' : (s.registry.put id job).jobs.get? id = some job := (Jobs.get?_put ..).trans (if_pos rfl)
      rw [after, hendings, huse]
      by_cases htask : job.task = .running
      · have hasked := hput.record hget' (hstands.ask htask hterminal)
        simpa [recorded, howned, htask] using (hasked.end_kill hget' hterminal).answer (ownerId owner) (.killed job.status)
      · simpa [recorded, howned, htask] using (hput.end_kill hget' hterminal).answer (ownerId owner) (.killed job.status)
    · have huse : s.registry.use id owner (killJob reason) =
          (s.registry.put id (job.stop reason)).await (ownerId owner) (.kill job.id reason) := by
        simp [Jobs.use, howned, hkill]
      have hendings : s.endings (s.registry.use id owner (killJob reason)) (.kill id owner reason) = [] := by
        simp [endings, howned, huse, told, Jobs.await, Jobs.put]
      have hrunning : (job.stop reason).task = .running := htask
      have hsame : Jobs.SameJob job (job.stop reason) := ⟨rfl, rfl⟩
      have hput := h.put hget hsame (hstands.stop htask hlive reason) (fun hterminal => absurd (hlive.symm.trans hterminal) (by decide))
        (fun hcancelled => absurd (hrunning.symm.trans hcancelled) (by decide))
      have hget' : (s.registry.put id (job.stop reason)).jobs.get? (JobCall.kill job.id reason).id = some (job.stop reason) := by
        rw [JobCall.id, h.kept.keyed id job hget]
        exact (Jobs.get?_put ..).trans (if_pos rfl)
      have hawait := hput.await hget' howner (fun _ _ _ => by rw [hrunning]; decide)
      rw [after, hendings, huse, List.append_nil]
      simpa [recorded, howned, htask] using hawait

/-- What the end of a `kill` does: its job's task is over and was not cancelled. -/
theorem Good.killed (h : s.Good) {identity : String} {place : Nat} {registry : Jobs}
    (hkilled : s.registry.killed identity place = some registry) : (s.after (.killed identity place) registry).Good := by
  obtain ⟨id, reason, job, hcall, hget, -, ⟨htask, rfl⟩ | ⟨htask, rfl⟩⟩ := Jobs.killed_cases h.kept hkilled
  · exact absurd htask (h.awaited identity id reason (List.mem_of_getElem? hcall) job hget)
  · have hterminal : job.status.terminal = true := ((h.stands id job hget).ended (by rw [htask]; decide)).1
    rw [settle_of_terminal hterminal]
    have hresumed := h.resume identity place
    have hput := hresumed.put_same hget ⟨rfl, rfl⟩ rfl rfl
    have hget' : ((s.registry.resume identity place).put id job).jobs.get? id = some job := (Jobs.get?_put ..).trans (if_pos rfl)
    have hended := (hput.end_kill hget' hterminal).answer identity (.killed job.status)
    simpa [after, recorded, endings, hcall, told, Jobs.answer, Jobs.put, Jobs.resume, JobCall.id] using hended

theorem Good.start (h : s.Good) {spec : JobSpec} {owner : Option JobCaller} {registry : Jobs}
    (hstart : s.registry.start spec owner id = some registry) : { s with registry }.Good := by
  rcases Jobs.start_cases hstart with ⟨e, -, rfl⟩ | ⟨-, hnew, rfl⟩
  · exact h.answer _ _
  · have hput : { s with registry := s.registry.put id (Jobs.newJob spec owner id) }.Good := by
      refine ⟨h.kept.put_new hnew rfl, ?_, ?_, ?_, ?_⟩
      · intro id' found hfound
        rw [Jobs.get?_put] at hfound
        split at hfound
        · rename_i heq
          subst heq
          cases hfound
          simpa only [h.fresh id' hnew] using stands_new spec owner id'
        · exact h.stands id' found hfound
      · intro id' hnone
        rw [Jobs.get?_put] at hnone
        split at hnone
        · cases hnone
        · exact h.fresh id' hnone
      · intro identity id' reason hcall found hfound
        rw [Jobs.get?_put] at hfound
        split at hfound
        · cases hfound
          exact (by decide : JobTask.running ≠ .cancelled)
        · exact h.awaited identity id' reason hcall found hfound
      · intro x hx
        obtain ⟨found, hfound, hover⟩ := h.returned x hx
        refine ⟨found, ?_, hover⟩
        rw [Jobs.get?_put, if_neg, hfound]
        rintro rfl
        cases hnew.symm.trans hfound
    exact hput.answer _ _

theorem Good.shutdown (h : s.Good)
    (hbegun : ∀ id job, s.registry.jobs.get? id = some job → job.task = .running → (s.records id).begun = true) :
    (s.after .shutdown { s.registry with jobs := s.registry.jobs.mapValues Job.unmount }).Good := by
  have hget : ∀ id job, (s.registry.jobs.mapValues Job.unmount).get? id = some job →
      ∃ before, s.registry.jobs.get? id = some before ∧ before.unmount = job := by
    intro id job hjob
    exact Option.map_eq_some_iff.mp ((Dict.get?_mapValues ..).symm.trans hjob)
  refine ⟨h.kept.shutdown, ?_, ?_, ?_, ?_⟩
  · intro id job hjob
    obtain ⟨before, hbefore, rfl⟩ := hget id job hjob
    simpa [after, recorded, hbefore] using (h.stands id before hbefore).unmount (hbegun id before hbefore)
  · intro id hnone
    have hbefore : s.registry.jobs.get? id = none := by
      simpa using (Dict.get?_mapValues Job.unmount s.registry.jobs id).symm.trans hnone
    simpa [after, recorded, hbefore] using h.fresh id hbefore
  · intro identity id reason hcall job hjob
    obtain ⟨before, hbefore, rfl⟩ := hget id job hjob
    rw [task_unmount]
    exact h.awaited identity id reason hcall before hbefore
  · intro x hx
    have hx' : x ∈ s.ended := by simpa [after, endings] using hx
    obtain ⟨before, hbefore, hterminal, hanswer⟩ := h.returned x hx'
    have hstatus : before.unmount.status = before.status := by rw [unmount_of_terminal hterminal, Job.abort]
    refine ⟨before.unmount, ?_, hstatus.symm ▸ hterminal, hstatus.symm ▸ hanswer⟩
    exact (Dict.get?_mapValues ..).trans (congrArg (Option.map Job.unmount) hbefore)

theorem Good.finish (h : s.Good) {outcome : ShellOutcome} (hok : s.Orderly (.act (.finish id outcome))) {registry : Jobs}
    (hfinish : s.registry.step maxBytes (.finish id outcome) = some registry) : (s.after (.finish id outcome) registry).Good := by
  simp only [Jobs.step] at hfinish
  split at hfinish
  · rename_i job hget
    split at hfinish
    · rename_i htask
      cases hfinish
      have hget' : (s.registry.put id (job.finish maxBytes outcome)).jobs.get? id = some (job.finish maxBytes outcome) :=
        (Jobs.get?_put ..).trans (if_pos rfl)
      have hraised : ∀ error, outcome = .raised error → job.status ≠ .stopping := by
        rintro error rfl
        exact hok job hget
      have hcancelled : (job.finish maxBytes outcome).task = .cancelled →
          ∀ identity reason, .kill id reason ∉ s.registry.calls identity := by
        obtain ⟨told, status, detail, task, hfinish, -, -, -, -, houtcome⟩ := finish_cases maxBytes job outcome
        rw [hfinish]
        intro hcancelled
        obtain rfl := houtcome hcancelled
        exact hok
      have hput := h.put hget (Jobs.sameJob_finish maxBytes job outcome) ((h.stands id job hget).finish maxBytes htask hraised)
        (fun hterminal => congrArg JobSnapshot.status (finish_of_terminal hterminal maxBytes outcome))
        (fun hover => Or.inr (hcancelled hover))
      simpa [after, recorded, endings, hget'] using hput
    · cases hfinish
  · cases hfinish

theorem Good.step (h : s.Good) {a : LifeAction} (hok : s.Orderly a) (hstep : s.step maxBytes a = some s') : s'.Good := by
  cases a with
  | begin id =>
    simp only [JobLife.step] at hstep
    split at hstep
    · rename_i job hget
      split at hstep
      · rename_i hcan
        obtain rfl := Option.some.inj hstep
        obtain ⟨-, -, hcancelling⟩ := hcan
        have hstands := h.stands id job hget
        refine h.record hget ⟨hstands.silent, ?_, hstands.live, hstands.ended, hstands.asked, hstands.stopping⟩
        intro _ hc
        exact absurd (hcancelling.symm.trans hc) (by decide)
      · cases hstep
    · cases hstep
  | drop id =>
    simp only [JobLife.step] at hstep
    split at hstep
    · rename_i job hget
      split at hstep
      · rename_i hcan
        obtain ⟨htask, hbegun, hcancelling⟩ := hcan
        exact absurd (hbegun.symm.trans ((h.stands id job hget).cancelled htask hcancelling).1) (by decide)
      · cases hstep
    · cases hstep
  | act a =>
    simp only [JobLife.step] at hstep
    split at hstep
    · rename_i hcan
      obtain ⟨registry, hregistry, rfl⟩ := Option.map_eq_some_iff.mp hstep
      cases a with
      | start spec owner id =>
        rw [after_quiet rfl rfl]
        exact h.start hregistry
      | list owner =>
        cases hregistry
        rw [after_quiet rfl rfl]
        exact h.answer _ _
      | get id owner =>
        cases hregistry
        rw [after_quiet rfl rfl]
        exact h.use_same id owner Jobs.fair_getJob (fun _ => rfl) (fun _ => rfl) (fun _ _ _ => Sum.inr_ne_inl)
      | read id owner =>
        cases hregistry
        rw [after_quiet rfl rfl]
        exact h.use_same id owner Jobs.fair_readJob (fun _ => rfl) (fun _ => rfl) (fun _ _ _ => Sum.inr_ne_inl)
      | kill id owner reason =>
        cases hregistry
        exact h.kill id owner reason
      | wait id owner =>
        cases hregistry
        rw [after_quiet rfl rfl]
        exact h.use_same id owner Jobs.fair_waitJob (fun _ => rfl) (fun _ => rfl) (fun _ _ _ => by simp [waitJob])
      | finish id outcome => exact h.finish hok hregistry
      | killed identity place => exact h.killed hregistry
      | waited identity place timedOut =>
        obtain ⟨id, job, -, -, -, -, rfl⟩ := Jobs.waited_cases h.kept hregistry
        rw [after_quiet rfl rfl]
        exact (h.resume identity place).answer _ _
      | abandoned identity place => cases hcan
      | shutdown =>
        cases hregistry
        exact h.shutdown hok
    · cases hstep

/-! ## Terminal statuses -/

/-- The jobs that are settled stay so, with the status they have. -/
def Stays (s s' : Jobs) : Prop :=
  ∀ id job, s.jobs.get? id = some job → job.status.terminal = true → ∃ job', s'.jobs.get? id = some job' ∧ job'.status = job.status

theorem stays_put {s : Jobs} (hget : s.jobs.get? id = some job) {job' : Job}
    (hterminal : job.status.terminal = true → job'.status = job.status) : Stays s (s.put id job') := by
  intro id' found hfound hover
  rw [Jobs.get?_put]
  split
  · rename_i heq
    rw [heq, hget] at hfound
    cases hfound
    exact ⟨job', rfl, hterminal hover⟩
  · exact ⟨found, hfound, rfl⟩

theorem Stays.refl (s : Jobs) : Stays s s := fun _ job hget _ => ⟨job, hget, rfl⟩

theorem stays_use (s : Jobs) (id : String) (owner : Option JobCaller) {op : Job → Served}
    (hop : ∀ job, job.status.terminal = true → (op job).job.status = job.status) : Stays s (s.use id owner op) := by
  unfold Jobs.use
  split
  · exact Stays.refl s
  · rename_i job howned
    have hput : Stays s (s.put id (op job).job) := stays_put (Jobs.owned_eq_some.mp howned).1 (hop job)
    split
    · exact hput
    · exact hput

theorem stays_step {s s' : Jobs} (hkept : s.Kept) {a : JobAction} (hstep : s.step maxBytes a = some s') : Stays s s' := by
  cases a with
  | start spec owner id =>
    rcases Jobs.start_cases hstep with ⟨e, -, rfl⟩ | ⟨-, hnew, rfl⟩
    · exact Stays.refl s
    · intro id' found hfound _
      refine ⟨found, (Jobs.get?_put ..).trans ?_, rfl⟩
      rw [if_neg, hfound]
      rintro rfl
      cases hnew.symm.trans hfound
  | list owner =>
    obtain rfl := Option.some.inj hstep
    exact Stays.refl s
  | get id owner =>
    obtain rfl := Option.some.inj hstep
    exact stays_use s id owner (fun _ _ => rfl)
  | read id owner =>
    obtain rfl := Option.some.inj hstep
    exact stays_use s id owner (fun _ _ => rfl)
  | kill id owner reason =>
    obtain rfl := Option.some.inj hstep
    refine stays_use s id owner ?_
    intro job hterminal
    simp [killJob, hterminal]
  | wait id owner =>
    obtain rfl := Option.some.inj hstep
    exact stays_use s id owner (fun _ _ => rfl)
  | finish id outcome =>
    simp only [Jobs.step] at hstep
    split at hstep
    · rename_i job hget
      split at hstep
      · obtain rfl := Option.some.inj hstep
        exact stays_put hget (fun hterminal => congrArg JobSnapshot.status (finish_of_terminal hterminal maxBytes outcome))
      · cases hstep
    · cases hstep
  | killed identity place =>
    obtain ⟨id, reason, job, -, hget, -, ⟨-, rfl⟩ | ⟨-, rfl⟩⟩ := Jobs.killed_cases hkept hstep
    · exact Stays.refl s
    · have hput : Stays s (s.put id (job.settle .killed reason)) :=
        stays_put hget (fun hterminal => congrArg Job.status (settle_of_terminal hterminal .killed reason))
      exact hput
  | waited identity place timedOut =>
    obtain ⟨id, job, -, -, -, -, rfl⟩ := Jobs.waited_cases hkept hstep
    exact Stays.refl s
  | abandoned identity place =>
    obtain ⟨call, -, rfl⟩ := Option.map_eq_some_iff.mp hstep
    exact Stays.refl s
  | shutdown =>
    obtain rfl := Option.some.inj hstep
    intro id job hget hterminal
    refine ⟨job.unmount, (Dict.get?_mapValues ..).trans (congrArg (Option.map Job.unmount) hget), ?_⟩
    rw [unmount_of_terminal hterminal, Job.abort]

/-- In any run a step leaves the terminal statuses, and the jobs under their ids. -/
theorem keeps_terminal (hkept : s.registry.Kept) {a : LifeAction} (hstep : s.step maxBytes a = some s') :
    Stays s.registry s'.registry ∧ s'.registry.Kept := by
  cases a with
  | begin id =>
    simp only [JobLife.step] at hstep
    split at hstep
    · split at hstep
      · obtain rfl := Option.some.inj hstep
        exact ⟨Stays.refl _, hkept⟩
      · cases hstep
    · cases hstep
  | drop id =>
    simp only [JobLife.step] at hstep
    split at hstep
    · rename_i job hget
      split at hstep
      · obtain rfl := Option.some.inj hstep
        exact ⟨stays_put hget (fun _ => rfl), hkept.put hget ⟨rfl, rfl⟩⟩
      · cases hstep
    · cases hstep
  | act a =>
    simp only [JobLife.step] at hstep
    split at hstep
    · obtain ⟨registry, hregistry, rfl⟩ := Option.map_eq_some_iff.mp hstep
      exact ⟨stays_step hkept hregistry, hkept.step hregistry⟩
    · cases hstep

/-! ## Steps that are not in order -/

theorem step_drop (hget : s.registry.jobs.get? id = some job) (htask : job.task = .running) (hbegun : (s.records id).begun = false)
    (hcancelling : (s.records id).cancelling = true) :
    s.step maxBytes (.drop id) = some { s with registry := s.registry.put id { job with task := .cancelled } } := by
  simp [JobLife.step, hget, htask, hbegun, hcancelling]

/-- The unmount cancels a task before its first step, and the job is never announced. -/
theorem not_settled_of_shutdown (h : s.Good) (hget : s.registry.jobs.get? id = some job) (htask : job.task = .running)
    (hbegun : (s.records id).begun = false) (hstep : s.step maxBytes (.act .shutdown) = some s') :
    ∃ bs s'', Machine.exec (JobLife.step maxBytes) s' bs = some s'' ∧ ¬ s''.Settled := by
  obtain rfl := Option.some.inj hstep
  have hget' : (s.registry.jobs.mapValues Job.unmount).get? id = some job.unmount :=
    (Dict.get?_mapValues ..).trans (congrArg (Option.map Job.unmount) hget)
  have hrecord : s.recorded { s.registry with jobs := s.registry.jobs.mapValues Job.unmount } .shutdown id =
      { s.records id with cancelling := true } := by
    simp [recorded, hget, htask]
  have hdrop : (s.after .shutdown { s.registry with jobs := s.registry.jobs.mapValues Job.unmount }).step maxBytes (.drop id) = some _ :=
    step_drop hget' ((task_unmount job).trans htask) ((congrArg JobRecord.begun hrecord).trans hbegun)
      (congrArg JobRecord.cancelling hrecord)
  refine ⟨[.drop id], _, congrArg (fun o => Option.bind o _) hdrop, ?_⟩
  intro hsettled
  obtain ⟨-, honce⟩ := hsettled.once id { job.unmount with task := .cancelled } ((Jobs.get?_put ..).trans (if_pos rfl))
    (by decide : JobTask.cancelled ≠ .running)
  have hsilent : (s.after .shutdown { s.registry with jobs := s.registry.jobs.mapValues Job.unmount }).records id =
      { s.records id with cancelling := true } := hrecord
  rw [hsilent, (h.stands id job hget).silent htask] at honce
  cases honce

/-- The shell raises for a job that is to stop: it is `failed`. -/
theorem not_settled_of_raised (h : s.Good) {error : String} (hget : s.registry.jobs.get? id = some job) (hstop : job.status = .stopping)
    (hstep : s.step maxBytes (.act (.finish id (.raised error))) = some s') : ¬ s'.Settled := by
  simp only [JobLife.step] at hstep
  split at hstep
  · obtain ⟨registry, hregistry, rfl⟩ := Option.map_eq_some_iff.mp hstep
    simp only [Jobs.step, hget] at hregistry
    split at hregistry
    · cases hregistry
      have hlive : job.status.terminal = false := by rw [hstop]; rfl
      have hfailed : (job.finish maxBytes (.raised error)).status = .failed := by
        rw [Job.finish, settle_of_live hlive]
      intro hsettled
      have hkilled := hsettled.killed id (job.finish maxBytes (.raised error)) ((Jobs.get?_put ..).trans (if_pos rfl))
        (by simp [after, recorded, (h.stands id job hget).stopping hstop]) (by rw [hfailed]; rfl)
      rw [hfailed] at hkilled
      cases hkilled
    · cases hregistry
  · cases hstep

/-- A `kill` whose job's task was cancelled raises. -/
theorem step_killed_cancelled {n : Int} {identity : String} {place : Nat} {reason : Option String}
    (hcall : (s.registry.calls identity)[place]? = some (.kill id reason)) (hget : s.registry.jobs.get? id = some job)
    (htask : job.task = .cancelled) : ∃ s', s.step n (.act (.killed identity place)) = some s' ∧ (id, .cancelled) ∈ s'.ended := by
  refine ⟨s.after (.killed identity place) ((s.registry.resume identity place).answer identity .cancelled), ?_, ?_⟩
  · simp [JobLife.step, can, Jobs.step, Jobs.killed, hcall, hget, htask]
  · simp [after, endings, hcall, told, Jobs.answer, Jobs.resume, JobCall.id]

/-- A task that a `kill` awaits is cancelled: the `kill` raises. -/
theorem not_settled_of_cancelled {identity : String} {reason : Option String} (hcall : .kill id reason ∈ s.registry.calls identity)
    (hstep : s.step maxBytes (.act (.finish id .cancelled)) = some s') :
    ∃ bs s'', Machine.exec (JobLife.step maxBytes) s' bs = some s'' ∧ ¬ s''.Settled := by
  simp only [JobLife.step] at hstep
  split at hstep
  · obtain ⟨registry, hregistry, rfl⟩ := Option.map_eq_some_iff.mp hstep
    simp only [Jobs.step] at hregistry
    split at hregistry
    · rename_i job hget
      split at hregistry
      · cases hregistry
        obtain ⟨place, hplace⟩ := List.mem_iff_getElem?.mp hcall
        have hget' : (s.registry.put id (job.finish maxBytes .cancelled)).jobs.get? id = some (job.finish maxBytes .cancelled) :=
          (Jobs.get?_put ..).trans (if_pos rfl)
        have hplace' : ((s.after (.finish id .cancelled) (s.registry.put id (job.finish maxBytes .cancelled))).registry.calls
            identity)[place]? = some (.kill id reason) := hplace
        obtain ⟨s'', hkilled, hended⟩ := step_killed_cancelled (n := maxBytes) hplace' hget' rfl
        refine ⟨[.act (.killed identity place)], s'', congrArg (fun o => Option.bind o _) hkilled, ?_⟩
        intro hsettled
        obtain ⟨found, -, -, hanswer⟩ := hsettled.returned _ hended
        cases hanswer
      · cases hregistry
    · cases hregistry
  · cases hstep

/-- After a step that is not in order a run can come to a state in which the jobs are not settled as they should be. -/
theorem not_settled_of_not_orderly (h : s.Good) {a : LifeAction} (hnot : ¬ s.Orderly a) (hstep : s.step maxBytes a = some s') :
    ∃ bs s'', Machine.exec (JobLife.step maxBytes) s' bs = some s'' ∧ ¬ s''.Settled := by
  unfold Orderly at hnot
  split at hnot
  · push Not at hnot
    obtain ⟨id, job, hget, htask, hbegun⟩ := hnot
    exact not_settled_of_shutdown h hget htask (by simpa using hbegun) hstep
  · push Not at hnot
    obtain ⟨job, hget, hstop⟩ := hnot
    exact ⟨[], s', rfl, not_settled_of_raised h hget hstop hstep⟩
  · push Not at hnot
    obtain ⟨identity, reason, hcall⟩ := hnot
    exact not_settled_of_cancelled hcall hstep
  · exact absurd trivial hnot

end JobLife

open JobLife in
/-- In any run a job that is settled keeps its status. In a run whose steps are in order each job is announced once, when its task is
over, with the terminal status it has, each kill of a job returns the terminal status it has, and a job that was to be killed before its
task ended is killed. And a step that is not in order can lead to a state in which that fails. -/
theorem jobs_settle_once (maxBytes : Int) :
    (∀ s, Machine.Reach (JobLife.step maxBytes) Machine.anyStep {} s → ∀ a s', s.step maxBytes a = some s' →
      ∀ id job, s.registry.jobs.get? id = some job → job.status.terminal = true →
        ∃ job', s'.registry.jobs.get? id = some job' ∧ job'.status = job.status) ∧
    ∀ s, Machine.Reach (JobLife.step maxBytes) JobLife.Orderly {} s → s.Settled ∧
      ∀ a s', s.step maxBytes a = some s' → ¬ s.Orderly a →
        ∃ bs s'', Machine.exec (JobLife.step maxBytes) s' bs = some s'' ∧ ¬ s''.Settled := by
  constructor
  · intro s hreach a s' hstep
    have hkept : s.registry.Kept := hreach.invariant (P := fun s => s.registry.Kept) Jobs.kept_empty
      (fun s a s' hkept _ hstep => (keeps_terminal hkept hstep).2)
    exact (keeps_terminal hkept hstep).1
  · intro s hreach
    have hgood : s.Good := hreach.invariant good_empty (fun s a s' hgood hok hstep => hgood.step hok hstep)
    exact ⟨hgood.settled, fun a s' hstep hnot => not_settled_of_not_orderly hgood hnot hstep⟩

/-- A job is killed while its command runs, and the shell stops the command. -/
def killedJob : List LifeAction :=
  [.act (.start { command := "make" } alice "j1"), .begin "j1", .act (.kill "j1" alice none),
    .act (.finish "j1" (.result "" "\n[command cancelled]" false (-1))), .act (.killed "alice" 0)]

/-- The job is killed, announced as that, and the `kill` returned it. -/
theorem jobs_settle_once_killed : ∃ s, Machine.exec (JobLife.step 100) {} killedJob = some s ∧ s.Settled ∧
    s.ended = [("j1", .killed .killed)] ∧
    (s.records "j1").announced = [⟨"j1", "bash", "make", .killed, some "stopped on request"⟩] := by
  have hreach : Machine.Reach (JobLife.step 100) JobLife.Orderly {} ((Machine.exec (JobLife.step 100) {} killedJob).getD {}) :=
    .next (.act (.killed "alice" 0)) (.next (.act (.finish "j1" (.result "" "\n[command cancelled]" false (-1))))
      (.next (.act (.kill "j1" alice none)) (.next (.begin "j1") (.next (.act (.start { command := "make" } alice "j1")) .start
        trivial rfl) trivial rfl) trivial rfl) trivial rfl) trivial rfl
  exact ⟨_, rfl, ((jobs_settle_once 100).2 _ hreach).1, by decide +kernel, by decide +kernel⟩

/-- The registry is unmounted before the task's first step. -/
def unmountedJob : List LifeAction := [.act (.start { command := "make" } alice "j1"), .act .shutdown, .drop "j1"]

/-- The directory of the command does not exist, and the job is killed before its task's first step. -/
def raisedJob : List LifeAction :=
  [.act (.start { command := "make" } alice "j1"), .act (.kill "j1" alice none), .begin "j1",
    .act (.finish "j1" (.raised "FileNotFoundError: [Errno 2] No such file or directory: '/gone'"))]

/-- The registry is unmounted while a `kill` awaits. -/
def cancelledJob : List LifeAction :=
  [.act (.start { command := "make" } alice "j1"), .begin "j1", .act (.kill "j1" alice none), .act .shutdown,
    .act (.finish "j1" .cancelled), .act (.killed "alice" 0)]

/-- A job whose task is over was never announced; a job that was to be killed is `failed`; and a `kill` raises. -/
theorem jobs_not_settled :
    (∃ s job, Machine.exec (JobLife.step 100) {} unmountedJob = some s ∧ s.registry.jobs.get? "j1" = some job ∧ job.task = .cancelled ∧
      (s.records "j1").announced = [] ∧ ¬ s.Settled) ∧
    (∃ s job, Machine.exec (JobLife.step 100) {} raisedJob = some s ∧ s.registry.jobs.get? "j1" = some job ∧
      (s.records "j1").requested = true ∧ job.status = .failed ∧ ¬ s.Settled) ∧
    ∃ s, Machine.exec (JobLife.step 100) {} cancelledJob = some s ∧ s.ended = [("j1", .cancelled)] ∧ ¬ s.Settled := by
  refine ⟨⟨_, _, rfl, rfl, rfl, rfl, ?_⟩, ⟨_, _, rfl, rfl, rfl, rfl, ?_⟩, ⟨_, rfl, rfl, ?_⟩⟩
  · intro h
    obtain ⟨-, honce⟩ := h.once "j1" _ rfl nofun
    cases honce
  · intro h
    have hkilled := h.killed "j1" _ rfl rfl rfl
    cases hkilled
  · intro h
    obtain ⟨job, -, -, hanswer⟩ := h.returned ("j1", .cancelled) (.head _)
    cases hanswer

end Pydsh
