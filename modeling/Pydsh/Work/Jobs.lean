import Pydsh.Lib.Dict
import Pydsh.Lib.Noninterference
import Pydsh.Python.Dynamic

/-!
# Jobs are fenced by owner

`work/jobs.py`: a job carries the identity of the caller that started it, and every operation looks a job up under the identity of its
own caller. Of all that other identities do, a caller sees nothing, and a job that is not its own is as one that is not there
(`jobs_fenced`). But a caller with no identity has the identity `""`, and `start` gives it jobs: all such callers share them.
What the shell makes of a command is foreign code: a job's task ends with whatever it made. The ids of new jobs are new.
-/

namespace Pydsh

/-- What a caller says of itself: its session, with the id of it if it has one, and an id of its own. -/
structure JobCaller where
  session : Option (Option String) := none
  id : Option String := none

/-- `x or y`, for a string that may be missing. -/
def textOr (x : Option String) (y : String) : String := if x.getD "" = "" then y else x.getD ""

/-- `_owner_id`. -/
def ownerId : Option JobCaller → String
  | none => ""
  | some caller => textOr (caller.session.getD caller.id) (textOr caller.id "")

/-- `JOB_STATUSES`. -/
inductive JobStatus where
  | running | stopping | completed | killed | failed
  deriving DecidableEq

/-- `TERMINAL_STATUSES`. -/
def JobStatus.terminal : JobStatus → Bool
  | .completed | .killed | .failed => true
  | .running | .stopping => false

/-- What became of a job's task. -/
inductive JobTask where
  | running | done | cancelled
  deriving DecidableEq

/-- One background job; its signal by the reason of the abort. -/
structure Job where
  id : String
  kind : String
  command : String
  ownerId : String
  status : JobStatus := .running
  detail : Option String := none
  buffer : String := ""
  task : JobTask := .running
  aborted : Option String := none

/-- `snapshot()`. -/
structure JobSnapshot where
  id : String
  kind : String
  command : String
  status : JobStatus
  detail : Option String
  deriving DecidableEq

/-- How a job's command ended: with a result of the shell, an exception with its text, or a cancellation. -/
inductive ShellOutcome where
  | result (stdout stderr : String) (timedOut : Bool) (exitCode : Int)
  | raised (error : String)
  | cancelled

/-- Why `start` raises. -/
inductive StartError where
  | unknownKind (kind : String)
  | notPorted (kind : String)
  | noCommand
  deriving DecidableEq

/-- What a call of the service ends with. -/
inductive JobAnswer where
  | refused (e : StartError)
  | started (id : String)
  | listed (jobs : List JobSnapshot)
  | notFound (id : String)
  | got (job : JobSnapshot)
  | output (job : JobSnapshot) (text : String)
  | killed (status : JobStatus)
  | waited (job : JobSnapshot) (timedOut : Bool)
  | cancelled
  deriving DecidableEq

namespace Job

/-- A job of an identity. -/
def isOf (identity : String) (job : Job) : Bool := decide (job.ownerId = identity)

/-- `snapshot()`. -/
def snapshot (job : Job) : JobSnapshot :=
  { id := job.id
    kind := job.kind
    command := job.command
    status := job.status
    detail := job.detail }

/-- `settle`. -/
def settle (job : Job) (status : JobStatus) (detail : Option String) : Job :=
  if job.status.terminal then job else { job with status, detail }

/-- `text[-n:]`. -/
def lastChars (text : String) (n : Int) : String :=
  if 0 < n then String.ofList (text.toList.drop (text.length - n.toNat)) else String.ofList (text.toList.drop (-n).toNat)

/-- `append_output`. -/
def appendOutput (job : Job) (maxBytes : Int) (text : String) : Job :=
  let buffer := job.buffer ++ text
  { job with buffer := if maxBytes < buffer.utf8ByteSize then lastChars buffer maxBytes else buffer }

/-- `signal.abort`, which keeps the first reason. -/
def abort (job : Job) (reason : String) : Job := { job with aborted := some (job.aborted.getD reason) }

/-- A job that is to stop: its status, and the abort of its signal. -/
def stop (job : Job) (reason : Option String) : Job :=
  { job with status := .stopping }.abort (textOr reason "the job was killed")

/-- `_run`, from the end of the command on. -/
def finish (maxBytes : Int) (job : Job) : ShellOutcome → Job
  | .result stdout stderr timedOut exitCode =>
    let job := job.appendOutput maxBytes stdout
    let job := if stderr = "" then job else job.appendOutput maxBytes ("\n[stderr]\n" ++ stderr)
    let job :=
      if job.status = .stopping then job.settle .killed (some "stopped on request")
      else if timedOut then job.settle .failed (some "the command timed out")
      else if exitCode = 0 then job.settle .completed none
      else job.settle .failed (some ("exit code " ++ toString exitCode))
    { job with task := .done }
  | .raised error => { job.settle .failed (some error) with task := .done }
  | .cancelled => { job.settle .killed (some "cancelled") with task := .cancelled }

/-- `_shutdown`, for one job; its task ends later, cancelled. -/
def unmount (job : Job) : Job :=
  (job.abort "the job registry was unmounted").settle .killed (some "the job registry was unmounted")

end Job

/-- A call that awaits something: `kill` the end of a job's task, `wait` its settling. -/
inductive JobCall where
  | kill (id : String) (reason : Option String)
  | wait (id : String)

/-- The id of the job that a call is about. -/
def JobCall.id : JobCall → String
  | .kill id _ | .wait id => id

/-- What an operation on a job of the caller does: the job after it, and its answer, or the call that awaits. -/
structure Served where
  job : Job
  result : JobCall ⊕ JobAnswer

/-- `get`. -/
def getJob (job : Job) : Served := ⟨job, .inr (.got job.snapshot)⟩

/-- `read`: what the job has buffered is drained. -/
def readJob (job : Job) : Served := ⟨{ job with buffer := "" }, .inr (.output job.snapshot job.buffer)⟩

/-- `kill`, up to its `await`; a task that is done is not awaited. -/
def killJob (reason : Option String) (job : Job) : Served :=
  if job.status.terminal then ⟨job, .inr (.killed job.status)⟩
  else if (job.stop reason).task = .running then ⟨job.stop reason, .inl (.kill job.id reason)⟩
  else ⟨(job.stop reason).settle .killed reason, .inr (.killed ((job.stop reason).settle .killed reason).status)⟩

/-- `wait`, up to its `await`. -/
def waitJob (job : Job) : Served := ⟨job, .inl (.wait job.id)⟩

/-- The registry: the jobs by their ids in the order of their starts; and for each identity the calls of it that await, and the answers
it had. -/
structure Jobs where
  jobs : Dict String Job := .empty
  calls : String → List JobCall := fun _ => []
  answers : String → List JobAnswer := fun _ => []

/-- A specification of a job; what else it has goes to the shell. -/
structure JobSpec where
  kind : String := "bash"
  command : String := ""

/-- The checks of `start`. -/
def JobSpec.check (spec : JobSpec) : Except StartError Unit :=
  if spec.kind ≠ "bash" ∧ spec.kind ≠ "subagent" then .error (.unknownKind spec.kind)
  else if spec.kind ≠ "bash" then .error (.notPorted spec.kind)
  else if pyStrip spec.command = "" then .error .noCommand
  else .ok ()

/-- What happens: a caller starts a job, with the id that is allocated, lists its jobs, or does something with one; the task of a job
ends; a call that awaits ends or is cancelled, the one at a place among those of its identity; the registry is unmounted. -/
inductive JobAction where
  | start (spec : JobSpec) (owner : Option JobCaller) (id : String)
  | list (owner : Option JobCaller)
  | get (id : String) (owner : Option JobCaller)
  | read (id : String) (owner : Option JobCaller)
  | kill (id : String) (owner : Option JobCaller) (reason : Option String)
  | wait (id : String) (owner : Option JobCaller)
  | finish (id : String) (outcome : ShellOutcome)
  | killed (identity : String) (place : Nat)
  | waited (identity : String) (place : Nat) (timedOut : Bool)
  | abandoned (identity : String) (place : Nat)
  | shutdown

namespace Jobs

/-- `_owned`; `none` where it raises. -/
def owned (s : Jobs) (id : String) (owner : Option JobCaller) : Option Job := (s.jobs.get? id).filter (Job.isOf (ownerId owner))

/-- A call of an identity ends with an answer. -/
def answer (s : Jobs) (identity : String) (answer : JobAnswer) : Jobs :=
  { s with answers := Function.update s.answers identity (s.answers identity ++ [answer]) }

/-- A call of an identity awaits. -/
def await (s : Jobs) (identity : String) (call : JobCall) : Jobs :=
  { s with calls := Function.update s.calls identity (s.calls identity ++ [call]) }

/-- A job is as it is now. -/
def put (s : Jobs) (id : String) (job : Job) : Jobs := { s with jobs := s.jobs.set id job }

/-- An operation on a job that must be the caller's. -/
def use (s : Jobs) (id : String) (owner : Option JobCaller) (op : Job → Served) : Jobs :=
  match s.owned id owner with
  | none => s.answer (ownerId owner) (.notFound id)
  | some job =>
    match (op job).result with
    | .inl call => (s.put id (op job).job).await (ownerId owner) call
    | .inr answer => (s.put id (op job).job).answer (ownerId owner) answer

/-- `list`. -/
def list (s : Jobs) (owner : Option JobCaller) : List JobSnapshot :=
  (s.jobs.having (Job.isOf (ownerId owner))).map (fun entry => entry.2.snapshot)

/-- `start`; the id is new. -/
def start (s : Jobs) (spec : JobSpec) (owner : Option JobCaller) (id : String) : Option Jobs :=
  match spec.check with
  | .error e => some (s.answer (ownerId owner) (.refused e))
  | .ok _ =>
    match s.jobs.get? id with
    | some _ => none
    | none =>
      let job : Job :=
        { id
          kind := spec.kind
          command := spec.command
          ownerId := ownerId owner }
      some ((s.put id job).answer (ownerId owner) (.started id))

/-- A call of an identity awaits no longer. -/
def resume (s : Jobs) (identity : String) (place : Nat) : Jobs :=
  { s with calls := Function.update s.calls identity ((s.calls identity).eraseIdx place) }

/-- `kill`, after its `await`: the task is over, or was cancelled and the `await` raises. -/
def killed (s : Jobs) (identity : String) (place : Nat) : Option Jobs :=
  match (s.calls identity)[place]? with
  | some (.kill id reason) =>
    match s.jobs.get? id with
    | some job =>
      match job.task with
      | .running => none
      | .cancelled => some ((s.resume identity place).answer identity .cancelled)
      | .done =>
        let job := job.settle .killed reason
        some (((s.resume identity place).put id job).answer identity (.killed job.status))
    | none => none
  | _ => none

/-- `wait`, after its `await`: the job is settled, or the time is out. -/
def waited (s : Jobs) (identity : String) (place : Nat) (timedOut : Bool) : Option Jobs :=
  match (s.calls identity)[place]? with
  | some (.wait id) =>
    match s.jobs.get? id with
    | some job =>
      if timedOut || job.status.terminal then
        some ((s.resume identity place).answer identity (.waited job.snapshot timedOut))
      else none
    | none => none
  | _ => none

/-- A call that awaits is cancelled. -/
def abandoned (s : Jobs) (identity : String) (place : Nat) : Option Jobs :=
  ((s.calls identity)[place]?).map (fun _ => (s.resume identity place).answer identity .cancelled)

/-- What an action does; `none` where it cannot happen. -/
def step (maxBytes : Int) (s : Jobs) : JobAction → Option Jobs
  | .start spec owner id => s.start spec owner id
  | .list owner => some (s.answer (ownerId owner) (.listed (s.list owner)))
  | .get id owner => some (s.use id owner getJob)
  | .read id owner => some (s.use id owner readJob)
  | .kill id owner reason => some (s.use id owner (killJob reason))
  | .wait id owner => some (s.use id owner waitJob)
  | .finish id outcome =>
    match s.jobs.get? id with
    | some job => if job.task = .running then some (s.put id (job.finish maxBytes outcome)) else none
    | none => none
  | .killed identity place => s.killed identity place
  | .waited identity place timedOut => s.waited identity place timedOut
  | .abandoned identity place => s.abandoned identity place
  | .shutdown => some { s with jobs := s.jobs.mapValues Job.unmount }

/-- An action is the business of an identity: its own operations, the ends of its jobs and calls, and the unmount. -/
def concerns (identity : String) (s : Jobs) : JobAction → Bool
  | .start _ owner _ | .list owner | .get _ owner | .read _ owner | .kill _ owner _ | .wait _ owner => decide (ownerId owner = identity)
  | .finish id _ => ((s.jobs.get? id).map (Job.isOf identity)).getD false
  | .killed other _ | .waited other _ _ | .abandoned other _ => decide (other = identity)
  | .shutdown => true

/-! ## What an operation leaves of a job -/

/-- The job keeps its id and its owner. -/
def SameJob (job job' : Job) : Prop := job'.id = job.id ∧ job'.ownerId = job.ownerId

theorem SameJob.trans {job job' job'' : Job} (h : SameJob job job') (h' : SameJob job' job'') : SameJob job job'' :=
  ⟨h'.1.trans h.1, h'.2.trans h.2⟩

theorem sameJob_settle (job : Job) (status : JobStatus) (detail : Option String) : SameJob job (job.settle status detail) := by
  unfold Job.settle
  split <;> exact ⟨rfl, rfl⟩

theorem sameJob_unmount (job : Job) : SameJob job job.unmount := sameJob_settle (job.abort _) .killed _

theorem sameJob_finish (maxBytes : Int) (job : Job) (outcome : ShellOutcome) : SameJob job (job.finish maxBytes outcome) := by
  cases outcome with
  | result stdout stderr timedOut exitCode =>
    have herr : SameJob job (if stderr = "" then job.appendOutput maxBytes stdout
        else (job.appendOutput maxBytes stdout).appendOutput maxBytes ("\n[stderr]\n" ++ stderr)) := by
      split <;> exact ⟨rfl, rfl⟩
    unfold Job.finish
    simp only
    generalize (if stderr = "" then job.appendOutput maxBytes stdout
      else (job.appendOutput maxBytes stdout).appendOutput maxBytes ("\n[stderr]\n" ++ stderr)) = told at herr ⊢
    refine herr.trans ?_
    split
    · exact sameJob_settle told _ _
    · split
      · exact sameJob_settle told _ _
      · split
        · exact sameJob_settle told _ _
        · exact sameJob_settle told _ _
  | raised error => exact sameJob_settle job _ _
  | cancelled => exact sameJob_settle job _ _

/-- An operation leaves the job its id and owner, and a call that awaits is about the job. -/
def Fair (op : Job → Served) : Prop :=
  ∀ job, SameJob job (op job).job ∧ ∀ call, (op job).result = .inl call → call.id = job.id

theorem fair_getJob : Fair getJob := by
  intro job
  refine ⟨⟨rfl, rfl⟩, ?_⟩
  intro call hcall
  cases hcall

theorem fair_readJob : Fair readJob := by
  intro job
  refine ⟨⟨rfl, rfl⟩, ?_⟩
  intro call hcall
  cases hcall

theorem fair_waitJob : Fair waitJob := by
  intro job
  refine ⟨⟨rfl, rfl⟩, ?_⟩
  intro call hcall
  cases hcall
  rfl

theorem fair_killJob (reason : Option String) : Fair (killJob reason) := by
  intro job
  unfold killJob
  split
  · refine ⟨⟨rfl, rfl⟩, ?_⟩
    intro call hcall
    cases hcall
  · have hstop : SameJob job (job.stop reason) := ⟨rfl, rfl⟩
    split
    · refine ⟨hstop, ?_⟩
      intro call hcall
      cases hcall
      rfl
    · refine ⟨hstop.trans (sameJob_settle _ _ _), ?_⟩
      intro call hcall
      cases hcall

/-! ## What a caller sees of the registry -/

/-- The jobs stand under their ids, and a call that awaits is about a job of its own identity. -/
structure Kept (s : Jobs) : Prop where
  keyed : ∀ id job, s.jobs.get? id = some job → job.id = id
  ours : ∀ identity, ∀ call ∈ s.calls identity, ∃ job, s.jobs.get? call.id = some job ∧ job.ownerId = identity

/-- Two registries that are alike to an identity: they have the same of its jobs, calls and answers. The first may have more ids. -/
structure Alike (identity : String) (s t : Jobs) : Prop where
  kept : s.Kept
  jobs : s.jobs.having (Job.isOf identity) = t.jobs.having (Job.isOf identity)
  calls : s.calls identity = t.calls identity
  answers : s.answers identity = t.answers identity
  ids : ∀ id, (t.jobs.get? id).isSome → (s.jobs.get? id).isSome

variable {identity : String} {s t s' : Jobs}

theorem owned_eq_some {id : String} {owner : Option JobCaller} {job : Job} :
    s.owned id owner = some job ↔ s.jobs.get? id = some job ∧ job.ownerId = ownerId owner := by
  unfold owned
  rw [Option.filter_eq_some_iff]
  simp [Job.isOf]

theorem get?_put (id id' : String) (job : Job) : (s.put id job).jobs.get? id' = if id' = id then some job else s.jobs.get? id' :=
  Dict.get?_set ..

theorem Alike.get? (h : Alike identity s t) {id : String} {job : Job} (howner : job.ownerId = identity) :
    s.jobs.get? id = some job ↔ t.jobs.get? id = some job := by
  have hjob : Job.isOf identity job = true := by simp [Job.isOf, howner]
  have hs : (id, job) ∈ s.jobs.having (Job.isOf identity) ↔ s.jobs.get? id = some job := by
    rw [Dict.mem_having]
    exact and_iff_left hjob
  rw [← hs, h.jobs, Dict.mem_having]
  exact and_iff_left hjob

theorem Alike.owned (h : Alike identity s t) (id : String) {owner : Option JobCaller} (howner : ownerId owner = identity) :
    s.owned id owner = t.owned id owner := by
  refine Option.ext (fun job => ?_)
  rw [owned_eq_some, owned_eq_some]
  constructor
  · rintro ⟨hget, hjob⟩
    exact ⟨(h.get? (hjob.trans howner)).mp hget, hjob⟩
  · rintro ⟨hget, hjob⟩
    exact ⟨(h.get? (hjob.trans howner)).mpr hget, hjob⟩

/-! ### A job is put -/

theorem Kept.put (h : s.Kept) {id : String} {job job' : Job} (hget : s.jobs.get? id = some job) (hsame : SameJob job job') :
    (s.put id job').Kept := by
  constructor
  · intro id' found hfound
    rw [get?_put] at hfound
    split at hfound
    · rename_i hid
      cases hfound
      rw [hid, hsame.1]
      exact h.keyed id job hget
    · exact h.keyed id' found hfound
  · intro identity call hcall
    obtain ⟨found, hfound, howner⟩ := h.ours identity call hcall
    rw [get?_put]
    by_cases hid : call.id = id
    · rw [hid, hget] at hfound
      cases hfound
      rw [if_pos hid]
      exact ⟨job', rfl, hsame.2.trans howner⟩
    · rw [if_neg hid]
      exact ⟨found, hfound, howner⟩

theorem isOf_same (identity : String) {job job' : Job} (hsame : SameJob job job') : Job.isOf identity job' = Job.isOf identity job := by
  simp [Job.isOf, hsame.2]

theorem Alike.put_other (h : Alike identity s t) {id : String} {job job' : Job} (hget : s.jobs.get? id = some job)
    (hsame : SameJob job job') (hother : job.ownerId ≠ identity) : Alike identity (s.put id job') t := by
  have hnot : Job.isOf identity job = false := by simp [Job.isOf, hother]
  refine ⟨h.kept.put hget hsame, ?_, h.calls, h.answers, ?_⟩
  · rw [← h.jobs]
    exact Dict.having_set_of_not hget hnot ((isOf_same identity hsame).trans hnot)
  · intro id' hid'
    rw [get?_put]
    split
    · rfl
    · exact h.ids id' hid'

theorem Alike.put_own (h : Alike identity s t) {id : String} {job job' : Job} (hget : s.jobs.get? id = some job)
    (hsame : SameJob job job') (hown : job.ownerId = identity) : Alike identity (s.put id job') (t.put id job') := by
  refine ⟨h.kept.put hget hsame, ?_, h.calls, h.answers, ?_⟩
  · have hs := Dict.having_set hget (isOf_same identity hsame)
    have ht := Dict.having_set ((h.get? hown).mp hget) (isOf_same identity hsame)
    rw [h.jobs] at hs
    exact hs.trans ht.symm
  · intro id' hid'
    rw [get?_put] at hid' ⊢
    split
    · rfl
    · rename_i hne
      rw [if_neg hne] at hid'
      exact h.ids id' hid'

/-! ### A call ends, or awaits -/

theorem Kept.answer (h : s.Kept) (caller : String) (answer : JobAnswer) : (s.answer caller answer).Kept := ⟨h.keyed, h.ours⟩

theorem Alike.answer_other (h : Alike identity s t) {caller : String} (hother : caller ≠ identity) (answer : JobAnswer) :
    Alike identity (s.answer caller answer) t :=
  ⟨h.kept.answer caller answer, h.jobs, h.calls, (Function.update_of_ne hother.symm _ _).trans h.answers, h.ids⟩

theorem Alike.answer_own (h : Alike identity s t) (answer : JobAnswer) :
    Alike identity (s.answer identity answer) (t.answer identity answer) := by
  refine ⟨h.kept.answer identity answer, h.jobs, h.calls, ?_, h.ids⟩
  simp [Jobs.answer, h.answers]

theorem Kept.await (h : s.Kept) {caller : String} {call : JobCall} {job : Job} (hget : s.jobs.get? call.id = some job)
    (howner : job.ownerId = caller) : (s.await caller call).Kept := by
  refine ⟨h.keyed, ?_⟩
  intro identity call' hcall'
  by_cases hcaller : identity = caller
  · subst hcaller
    simp only [Jobs.await, Function.update_self, List.mem_append, List.mem_singleton] at hcall'
    rcases hcall' with hcall' | rfl
    · exact h.ours identity call' hcall'
    · exact ⟨job, hget, howner⟩
  · simp only [Jobs.await, Function.update_of_ne hcaller] at hcall'
    exact h.ours identity call' hcall'

theorem Alike.await_other (h : Alike identity s t) {caller : String} {call : JobCall} {job : Job}
    (hget : s.jobs.get? call.id = some job) (howner : job.ownerId = caller) (hother : caller ≠ identity) :
    Alike identity (s.await caller call) t :=
  ⟨h.kept.await hget howner, h.jobs, (Function.update_of_ne hother.symm _ _).trans h.calls, h.answers, h.ids⟩

theorem Alike.await_own (h : Alike identity s t) {call : JobCall} {job : Job} (hget : s.jobs.get? call.id = some job)
    (howner : job.ownerId = identity) : Alike identity (s.await identity call) (t.await identity call) := by
  refine ⟨h.kept.await hget howner, h.jobs, ?_, h.answers, h.ids⟩
  simp [Jobs.await, h.calls]

theorem Kept.resume (h : s.Kept) (caller : String) (place : Nat) : (s.resume caller place).Kept := by
  refine ⟨h.keyed, ?_⟩
  intro identity call hcall
  by_cases hcaller : identity = caller
  · subst hcaller
    simp only [Jobs.resume, Function.update_self] at hcall
    exact h.ours identity call (List.mem_of_mem_eraseIdx hcall)
  · simp only [Jobs.resume, Function.update_of_ne hcaller] at hcall
    exact h.ours identity call hcall

theorem Alike.resume_other (h : Alike identity s t) {caller : String} (hother : caller ≠ identity) (place : Nat) :
    Alike identity (s.resume caller place) t :=
  ⟨h.kept.resume caller place, h.jobs, (Function.update_of_ne hother.symm _ _).trans h.calls, h.answers, h.ids⟩

theorem Alike.resume_own (h : Alike identity s t) (place : Nat) : Alike identity (s.resume identity place) (t.resume identity place) := by
  refine ⟨h.kept.resume identity place, h.jobs, ?_, h.answers, h.ids⟩
  simp [Jobs.resume, h.calls]

/-! ### The operations -/

theorem Alike.use_other (h : Alike identity s t) (id : String) {owner : Option JobCaller} (hother : ownerId owner ≠ identity)
    {op : Job → Served} (hfair : Fair op) : Alike identity (s.use id owner op) t := by
  unfold Jobs.use
  split
  · exact h.answer_other hother _
  · rename_i job howned
    obtain ⟨hget, howner⟩ := owned_eq_some.mp howned
    obtain ⟨hsame, hcall⟩ := hfair job
    have hput := h.put_other hget hsame (howner ▸ hother)
    split
    · rename_i call hresult
      have hid : call.id = id := (hcall call hresult).trans (h.kept.keyed id job hget)
      have hget' : (s.put id (op job).job).jobs.get? call.id = some (op job).job := by rw [hid, get?_put, if_pos rfl]
      exact hput.await_other hget' (hsame.2.trans howner) hother
    · exact hput.answer_other hother _

theorem Alike.use_own (h : Alike identity s t) (id : String) {owner : Option JobCaller} (hown : ownerId owner = identity)
    {op : Job → Served} (hfair : Fair op) : Alike identity (s.use id owner op) (t.use id owner op) := by
  subst hown
  unfold Jobs.use
  rw [← h.owned id rfl]
  split
  · exact h.answer_own _
  · rename_i job howned
    obtain ⟨hget, howner⟩ := owned_eq_some.mp howned
    obtain ⟨hsame, hcall⟩ := hfair job
    have hput := h.put_own hget hsame howner
    split
    · rename_i call hresult
      have hid : call.id = id := (hcall call hresult).trans (h.kept.keyed id job hget)
      have hget' : (s.put id (op job).job).jobs.get? call.id = some (op job).job := by rw [hid, get?_put, if_pos rfl]
      exact hput.await_own hget' (hsame.2.trans howner)
    · exact hput.answer_own _

/-- The job that `start` puts into the registry. -/
def newJob (spec : JobSpec) (owner : Option JobCaller) (id : String) : Job :=
  { id
    kind := spec.kind
    command := spec.command
    ownerId := ownerId owner }

/-- What `start` does: it raises, or it puts a new job under a new id. -/
theorem start_cases {spec : JobSpec} {owner : Option JobCaller} {id : String} (h : s.start spec owner id = some s') :
    (∃ e, spec.check = .error e ∧ s' = s.answer (ownerId owner) (.refused e)) ∨
      (spec.check = .ok () ∧ s.jobs.get? id = none ∧ s' = (s.put id (newJob spec owner id)).answer (ownerId owner) (.started id)) := by
  unfold Jobs.start at h
  split at h
  · rename_i e hcheck
    cases h
    exact Or.inl ⟨e, hcheck, rfl⟩
  · rename_i hcheck
    split at h
    · cases h
    · rename_i hnew
      cases h
      exact Or.inr ⟨hcheck, hnew, rfl⟩

theorem Kept.put_new (h : s.Kept) {id : String} (hnew : s.jobs.get? id = none) {job : Job} (hid : job.id = id) :
    (s.put id job).Kept := by
  constructor
  · intro id' found hfound
    rw [get?_put] at hfound
    split at hfound
    · rename_i heq
      cases hfound
      exact hid.trans heq.symm
    · exact h.keyed id' found hfound
  · intro identity call hcall
    obtain ⟨found, hfound, howner⟩ := h.ours identity call hcall
    refine ⟨found, ?_, howner⟩
    rw [get?_put, if_neg, hfound]
    intro heq
    rw [heq, hnew] at hfound
    cases hfound

theorem Alike.start_other (h : Alike identity s t) {spec : JobSpec} {owner : Option JobCaller} {id : String}
    (hother : ownerId owner ≠ identity) (hstart : s.start spec owner id = some s') : Alike identity s' t := by
  rcases start_cases hstart with ⟨e, -, rfl⟩ | ⟨-, hnew, rfl⟩
  · exact h.answer_other hother _
  · have hkept : (s.put id (newJob spec owner id)).Kept := h.kept.put_new hnew rfl
    refine Alike.answer_other ⟨hkept, ?_, h.calls, h.answers, ?_⟩ hother _
    · have hnot : Job.isOf identity (newJob spec owner id) = false := by simp [Job.isOf, newJob, hother]
      rw [← h.jobs]
      refine (Dict.having_set_new hnew _ _).trans ?_
      rw [hnot]
      exact List.append_nil _
    · intro id' hid'
      rw [get?_put]
      split
      · rfl
      · exact h.ids id' hid'

theorem Alike.start_own (h : Alike identity s t) {spec : JobSpec} {owner : Option JobCaller} {id : String}
    (hown : ownerId owner = identity) (hstart : s.start spec owner id = some s') :
    ∃ t', t.start spec owner id = some t' ∧ Alike identity s' t' := by
  subst hown
  rcases start_cases hstart with ⟨e, hcheck, rfl⟩ | ⟨hcheck, hnew, rfl⟩
  · refine ⟨t.answer (ownerId owner) (.refused e), ?_, h.answer_own _⟩
    simp [Jobs.start, hcheck]
  · have hnew' : t.jobs.get? id = none := by
      cases hget : t.jobs.get? id with
      | none => rfl
      | some job =>
        have hsome := h.ids id (by rw [hget]; rfl)
        rw [hnew] at hsome
        cases hsome
    refine ⟨(t.put id (newJob spec owner id)).answer (ownerId owner) (.started id), ?_, ?_⟩
    · simp [Jobs.start, hcheck, hnew', newJob]
    · have hkept : (s.put id (newJob spec owner id)).Kept := h.kept.put_new hnew rfl
      suffices halike : Alike (ownerId owner) (s.put id (newJob spec owner id)) (t.put id (newJob spec owner id)) from
        halike.answer_own _
      refine ⟨hkept, ?_, h.calls, h.answers, ?_⟩
      · have hs := Dict.having_set_new hnew (newJob spec owner id) (Job.isOf (ownerId owner))
        have ht := Dict.having_set_new hnew' (newJob spec owner id) (Job.isOf (ownerId owner))
        rw [h.jobs] at hs
        exact hs.trans ht.symm
      · intro id' hid'
        rw [get?_put] at hid' ⊢
        split
        · rfl
        · rename_i hne
          rw [if_neg hne] at hid'
          exact h.ids id' hid'

/-- What the end of a `kill` does to a job of its identity. -/
theorem killed_cases {caller : String} {place : Nat} (h : s.Kept) (hkilled : s.killed caller place = some s') :
    ∃ id reason job, (s.calls caller)[place]? = some (.kill id reason) ∧ s.jobs.get? id = some job ∧ job.ownerId = caller ∧
      (job.task = .cancelled ∧ s' = (s.resume caller place).answer caller .cancelled ∨
        job.task = .done ∧ s' = ((s.resume caller place).put id (job.settle .killed reason)).answer caller
          (.killed (job.settle .killed reason).status)) := by
  unfold Jobs.killed at hkilled
  split at hkilled
  · rename_i id reason hcall
    obtain ⟨found, hfound, howner⟩ := h.ours caller _ (List.mem_of_getElem? hcall)
    split at hkilled
    · rename_i job hget
      rw [Option.some.inj (hfound.symm.trans hget)] at howner
      refine ⟨id, reason, job, hcall, hget, howner, ?_⟩
      split at hkilled
      · cases hkilled
      · rename_i htask
        cases hkilled
        exact Or.inl ⟨htask, rfl⟩
      · rename_i htask
        cases hkilled
        exact Or.inr ⟨htask, rfl⟩
    · cases hkilled
  · cases hkilled

theorem Alike.killed_other (h : Alike identity s t) {caller : String} {place : Nat} (hother : caller ≠ identity)
    (hkilled : s.killed caller place = some s') : Alike identity s' t := by
  obtain ⟨id, reason, job, -, hget, howner, ⟨-, rfl⟩ | ⟨-, rfl⟩⟩ := killed_cases h.kept hkilled
  · exact (h.resume_other hother place).answer_other hother _
  · have hput := (h.resume_other hother place).put_other hget (sameJob_settle job .killed reason) (howner ▸ hother)
    exact hput.answer_other hother _

theorem Alike.killed_own (h : Alike identity s t) {place : Nat} (hkilled : s.killed identity place = some s') :
    ∃ t', t.killed identity place = some t' ∧ Alike identity s' t' := by
  obtain ⟨id, reason, job, hcall, hget, howner, hcases⟩ := killed_cases h.kept hkilled
  have hget' := (h.get? howner).mp hget
  rw [h.calls] at hcall
  rcases hcases with ⟨htask, rfl⟩ | ⟨htask, rfl⟩
  · refine ⟨(t.resume identity place).answer identity .cancelled, ?_, (h.resume_own place).answer_own _⟩
    simp [Jobs.killed, hcall, hget', htask]
  · refine ⟨((t.resume identity place).put id (job.settle .killed reason)).answer identity
      (.killed (job.settle .killed reason).status), ?_, ?_⟩
    · simp [Jobs.killed, hcall, hget', htask]
    · exact ((h.resume_own place).put_own hget (sameJob_settle job .killed reason) howner).answer_own _

/-- What the end of a `wait` does. -/
theorem waited_cases {caller : String} {place : Nat} {timedOut : Bool} (h : s.Kept) (hwaited : s.waited caller place timedOut = some s') :
    ∃ id job, (s.calls caller)[place]? = some (.wait id) ∧ s.jobs.get? id = some job ∧ job.ownerId = caller ∧
      (timedOut || job.status.terminal) = true ∧
      s' = (s.resume caller place).answer caller (.waited job.snapshot timedOut) := by
  unfold Jobs.waited at hwaited
  split at hwaited
  · rename_i id hcall
    obtain ⟨found, hfound, howner⟩ := h.ours caller _ (List.mem_of_getElem? hcall)
    split at hwaited
    · rename_i job hget
      rw [Option.some.inj (hfound.symm.trans hget)] at howner
      split at hwaited
      · rename_i hover
        cases hwaited
        exact ⟨id, job, hcall, hget, howner, hover, rfl⟩
      · cases hwaited
    · cases hwaited
  · cases hwaited

theorem Alike.waited_own (h : Alike identity s t) {place : Nat} {timedOut : Bool}
    (hwaited : s.waited identity place timedOut = some s') :
    ∃ t', t.waited identity place timedOut = some t' ∧ Alike identity s' t' := by
  obtain ⟨id, job, hcall, hget, howner, hover, rfl⟩ := waited_cases h.kept hwaited
  have hget' := (h.get? howner).mp hget
  rw [h.calls] at hcall
  refine ⟨(t.resume identity place).answer identity (.waited job.snapshot timedOut), ?_, (h.resume_own place).answer_own _⟩
  simp [Jobs.waited, hcall, hget', hover]

/-- A step that is not the business of an identity leaves what it sees. -/
theorem alike_hidden {maxBytes : Int} {a : JobAction} (h : Alike identity s t) (hother : concerns identity s a = false)
    (hstep : s.step maxBytes a = some s') : Alike identity s' t := by
  cases a with
  | start spec owner id => exact h.start_other (of_decide_eq_false hother) hstep
  | list owner =>
    obtain rfl := Option.some.inj hstep
    exact h.answer_other (of_decide_eq_false hother) _
  | get id owner =>
    obtain rfl := Option.some.inj hstep
    exact h.use_other id (of_decide_eq_false hother) fair_getJob
  | read id owner =>
    obtain rfl := Option.some.inj hstep
    exact h.use_other id (of_decide_eq_false hother) fair_readJob
  | kill id owner reason =>
    obtain rfl := Option.some.inj hstep
    exact h.use_other id (of_decide_eq_false hother) (fair_killJob reason)
  | wait id owner =>
    obtain rfl := Option.some.inj hstep
    exact h.use_other id (of_decide_eq_false hother) fair_waitJob
  | finish id outcome =>
    simp only [Jobs.step] at hstep
    split at hstep
    · rename_i job hget
      split at hstep
      · obtain rfl := Option.some.inj hstep
        have hnot : job.ownerId ≠ identity := by simpa [concerns, hget, Job.isOf] using hother
        exact h.put_other hget (sameJob_finish maxBytes job outcome) hnot
      · cases hstep
    · cases hstep
  | killed caller place => exact h.killed_other (of_decide_eq_false hother) hstep
  | waited caller place timedOut =>
    obtain ⟨id, job, -, -, -, -, rfl⟩ := waited_cases h.kept hstep
    exact (h.resume_other (of_decide_eq_false hother) place).answer_other (of_decide_eq_false hother) _
  | abandoned caller place =>
    obtain ⟨call, -, rfl⟩ := Option.map_eq_some_iff.mp hstep
    exact (h.resume_other (of_decide_eq_false hother) place).answer_other (of_decide_eq_false hother) _
  | shutdown => cases hother

theorem Kept.shutdown (h : s.Kept) : { s with jobs := s.jobs.mapValues Job.unmount }.Kept := by
  constructor
  · intro id job hget
    obtain ⟨before, hbefore, rfl⟩ := Option.map_eq_some_iff.mp ((Dict.get?_mapValues ..).symm.trans hget)
    exact (sameJob_unmount before).1.trans (h.keyed id before hbefore)
  · intro caller call hcall
    obtain ⟨job, hget, howner⟩ := h.ours caller call hcall
    refine ⟨job.unmount, ?_, (sameJob_unmount job).2.trans howner⟩
    exact (Dict.get?_mapValues ..).trans (congrArg (Option.map Job.unmount) hget)

/-- A step that is the business of an identity can be taken where what it sees is the same, with the same effect on that. -/
theorem alike_follows {maxBytes : Int} {a : JobAction} (h : Alike identity s t) (hown : concerns identity s a = true)
    (hstep : s.step maxBytes a = some s') : ∃ t', t.step maxBytes a = some t' ∧ Alike identity s' t' := by
  cases a with
  | start spec owner id => exact h.start_own (of_decide_eq_true hown) hstep
  | list owner =>
    obtain rfl := of_decide_eq_true hown
    obtain rfl := Option.some.inj hstep
    have hlist : s.list owner = t.list owner := by
      unfold Jobs.list
      rw [h.jobs]
    refine ⟨_, rfl, ?_⟩
    rw [hlist]
    exact h.answer_own _
  | get id owner =>
    obtain rfl := Option.some.inj hstep
    exact ⟨_, rfl, h.use_own id (of_decide_eq_true hown) fair_getJob⟩
  | read id owner =>
    obtain rfl := Option.some.inj hstep
    exact ⟨_, rfl, h.use_own id (of_decide_eq_true hown) fair_readJob⟩
  | kill id owner reason =>
    obtain rfl := Option.some.inj hstep
    exact ⟨_, rfl, h.use_own id (of_decide_eq_true hown) (fair_killJob reason)⟩
  | wait id owner =>
    obtain rfl := Option.some.inj hstep
    exact ⟨_, rfl, h.use_own id (of_decide_eq_true hown) fair_waitJob⟩
  | finish id outcome =>
    simp only [Jobs.step] at hstep
    split at hstep
    · rename_i job hget
      split at hstep
      · rename_i htask
        obtain rfl := Option.some.inj hstep
        have howner : job.ownerId = identity := by simpa [concerns, hget, Job.isOf] using hown
        refine ⟨t.put id (job.finish maxBytes outcome), ?_, h.put_own hget (sameJob_finish maxBytes job outcome) howner⟩
        simp [Jobs.step, (h.get? howner).mp hget, htask]
      · cases hstep
    · cases hstep
  | killed caller place =>
    obtain rfl := of_decide_eq_true hown
    exact h.killed_own hstep
  | waited caller place timedOut =>
    obtain rfl := of_decide_eq_true hown
    exact h.waited_own hstep
  | abandoned caller place =>
    obtain rfl := of_decide_eq_true hown
    obtain ⟨call, hcall, rfl⟩ := Option.map_eq_some_iff.mp hstep
    refine ⟨(t.resume caller place).answer caller .cancelled, ?_, (h.resume_own place).answer_own _⟩
    rw [h.calls] at hcall
    simp [Jobs.step, Jobs.abandoned, hcall]
  | shutdown =>
    obtain rfl := Option.some.inj hstep
    refine ⟨_, rfl, h.kept.shutdown, ?_, h.calls, h.answers, ?_⟩
    · have hs := Dict.having_mapValues s.jobs Job.unmount (fun job => isOf_same identity (sameJob_unmount job))
      have ht := Dict.having_mapValues t.jobs Job.unmount (fun job => isOf_same identity (sameJob_unmount job))
      rw [h.jobs] at hs
      exact hs.trans ht.symm
    · intro id hid
      have hmapped : (t.jobs.mapValues Job.unmount).get? id = (t.jobs.get? id).map Job.unmount := Dict.get?_mapValues ..
      have hmapped' : (s.jobs.mapValues Job.unmount).get? id = (s.jobs.get? id).map Job.unmount := Dict.get?_mapValues ..
      simp only [hmapped, hmapped', Option.isSome_map] at hid ⊢
      exact h.ids id hid

theorem hides (maxBytes : Int) (identity : String) : Machine.Hides (Jobs.step maxBytes) (concerns identity) (Alike identity) :=
  ⟨alike_hidden, alike_follows⟩

theorem Kept.alike (h : s.Kept) (identity : String) : Alike identity s s := ⟨h, rfl, rfl, rfl, fun _ hid => hid⟩

theorem kept_empty : ({} : Jobs).Kept := by
  constructor
  · intro id job hget
    cases hget
  · intro identity call hcall
    cases hcall

theorem Kept.step (h : s.Kept) {maxBytes : Int} {a : JobAction} (hstep : s.step maxBytes a = some s') : s'.Kept := by
  by_cases hown : concerns "" s a = true
  · obtain ⟨t', -, halike⟩ := alike_follows (h.alike "") hown hstep
    exact halike.kept
  · exact (alike_hidden (h.alike "") (by simpa using hown) hstep).kept

/-! ## Callers without an identity -/

/-- To a caller without an identity there are no jobs. -/
def Fenced (s : Jobs) : Prop := ∀ owner, ownerId owner = "" → s.list owner = [] ∧ ∀ id, s.owned id owner = none

/-- No job has an owner without an identity. -/
def Owned (s : Jobs) : Prop := ∀ id job, s.jobs.get? id = some job → job.ownerId ≠ ""

theorem fenced_iff : s.Fenced ↔ s.Owned := by
  constructor
  · intro h id job hget howner
    have hnone : s.owned id none = none := (h none rfl).2 id
    have hsome : s.owned id none = some job := owned_eq_some.mpr ⟨hget, howner⟩
    rw [hsome] at hnone
    cases hnone
  · intro h owner howner
    constructor
    · have hempty : s.jobs.having (Job.isOf (ownerId owner)) = [] := by
        rw [List.eq_nil_iff_forall_not_mem]
        rintro ⟨id, job⟩ hmem
        obtain ⟨hget, hjob⟩ := Dict.mem_having.mp hmem
        exact h id job hget ((of_decide_eq_true hjob).trans howner)
      rw [Jobs.list, hempty]
      rfl
    · intro id
      cases howned : s.owned id owner with
      | none => rfl
      | some job =>
        obtain ⟨hget, hjob⟩ := owned_eq_some.mp howned
        exact absurd (hjob.trans howner) (h id job hget)

/-- A caller without an identity starts a job. -/
def StartsAnonymous (a : JobAction) : Prop :=
  ∃ spec owner id, a = .start spec owner id ∧ ownerId owner = "" ∧ spec.check = .ok ()

theorem Owned.put (h : s.Owned) {id : String} {job : Job} (howner : job.ownerId ≠ "") : (s.put id job).Owned := by
  intro id' found hfound
  rw [get?_put] at hfound
  split at hfound
  · cases hfound
    exact howner
  · exact h id' found hfound

theorem Owned.use (h : s.Owned) (id : String) (owner : Option JobCaller) {op : Job → Served} (hfair : Fair op) :
    (s.use id owner op).Owned := by
  unfold Jobs.use
  split
  · exact h
  · rename_i job howned
    obtain ⟨hget, -⟩ := owned_eq_some.mp howned
    have hput : (s.put id (op job).job).Owned := h.put (by rw [(hfair job).1.2]; exact h id job hget)
    split
    · exact hput
    · exact hput

/-- A step keeps owners with identities, unless a caller without one starts a job. -/
theorem Owned.step (h : s.Owned) (hkept : s.Kept) {maxBytes : Int} {a : JobAction} (hnot : ¬ StartsAnonymous a)
    (hstep : s.step maxBytes a = some s') : s'.Owned := by
  cases a with
  | start spec owner id =>
    rcases start_cases hstep with ⟨e, -, rfl⟩ | ⟨hcheck, -, rfl⟩
    · exact h
    · have howner : ownerId owner ≠ "" := fun hempty => hnot ⟨spec, owner, id, rfl, hempty, hcheck⟩
      have hput : (s.put id (newJob spec owner id)).Owned := h.put howner
      exact hput
  | list owner =>
    obtain rfl := Option.some.inj hstep
    exact h
  | get id owner =>
    obtain rfl := Option.some.inj hstep
    exact h.use id owner fair_getJob
  | read id owner =>
    obtain rfl := Option.some.inj hstep
    exact h.use id owner fair_readJob
  | kill id owner reason =>
    obtain rfl := Option.some.inj hstep
    exact h.use id owner (fair_killJob reason)
  | wait id owner =>
    obtain rfl := Option.some.inj hstep
    exact h.use id owner fair_waitJob
  | finish id outcome =>
    simp only [Jobs.step] at hstep
    split at hstep
    · rename_i job hget
      split at hstep
      · obtain rfl := Option.some.inj hstep
        exact h.put (by rw [(sameJob_finish maxBytes job outcome).2]; exact h id job hget)
      · cases hstep
    · cases hstep
  | killed caller place =>
    obtain ⟨id, reason, job, -, hget, -, ⟨-, rfl⟩ | ⟨-, rfl⟩⟩ := killed_cases hkept hstep
    · exact h
    · have hput : (s.put id (job.settle .killed reason)).Owned :=
        h.put (by rw [(sameJob_settle job .killed reason).2]; exact h id job hget)
      exact hput
  | waited caller place timedOut =>
    obtain ⟨id, job, -, -, -, -, rfl⟩ := waited_cases hkept hstep
    exact h
  | abandoned caller place =>
    obtain ⟨call, -, rfl⟩ := Option.map_eq_some_iff.mp hstep
    exact h
  | shutdown =>
    obtain rfl := Option.some.inj hstep
    intro id job hget
    obtain ⟨before, hbefore, rfl⟩ := Option.map_eq_some_iff.mp ((Dict.get?_mapValues ..).symm.trans hget)
    rw [(sameJob_unmount before).2]
    exact h id before hbefore

theorem not_owned_of_startsAnonymous {maxBytes : Int} {a : JobAction} (hstarts : StartsAnonymous a)
    (hstep : s.step maxBytes a = some s') : ¬ s'.Owned := by
  obtain ⟨spec, owner, id, rfl, howner, hcheck⟩ := hstarts
  rcases start_cases hstep with ⟨e, herror, -⟩ | ⟨-, -, rfl⟩
  · rw [hcheck] at herror
    cases herror
  · intro howned
    exact howned id (newJob spec owner id) ((get?_put ..).trans (if_pos rfl)) howner

/-- An operation of a caller on the job of an id. -/
inductive On (id : String) (owner : Option JobCaller) : JobAction → Prop where
  | get : On id owner (.get id owner)
  | read : On id owner (.read id owner)
  | kill (reason : Option String) : On id owner (.kill id owner reason)
  | wait : On id owner (.wait id owner)

theorem use_absent {id : String} {owner : Option JobCaller} (h : ∀ job, s.jobs.get? id = some job → job.ownerId ≠ ownerId owner)
    (op : Job → Served) : s.use id owner op = s.answer (ownerId owner) (.notFound id) := by
  have hnone : s.owned id owner = none := by
    cases howned : s.owned id owner with
    | none => rfl
    | some job =>
      obtain ⟨hget, hjob⟩ := owned_eq_some.mp howned
      exact absurd hjob (h job hget)
  rw [Jobs.use, hnone]

end Jobs

open Jobs in
/-- Two runs that are the same in what concerns an identity give it the same answers. An operation on a job that is not the caller's own
ends as one on a job that is not there. And in every run in which no caller without an identity starts a job, such a caller sees and
controls none; there the next step keeps that exactly when it starts no such job. -/
theorem jobs_fenced (maxBytes : Int) :
    (∀ identity as bs s t, Machine.exec (Jobs.step maxBytes) {} as = some s → Machine.exec (Jobs.step maxBytes) {} bs = some t →
      Machine.seen (Jobs.step maxBytes) (concerns identity) {} as = Machine.seen (Jobs.step maxBytes) (concerns identity) {} bs →
      s.answers identity = t.answers identity) ∧
    (∀ (s : Jobs) id owner a, On id owner a → (∀ job, s.jobs.get? id = some job → job.ownerId ≠ ownerId owner) →
      s.step maxBytes a = some (s.answer (ownerId owner) (.notFound id))) ∧
    ∀ s, Machine.Reach (Jobs.step maxBytes) (fun _ a => ¬ StartsAnonymous a) {} s →
      s.Fenced ∧ ∀ a s', s.step maxBytes a = some s' → (s'.Fenced ↔ ¬ StartsAnonymous a) := by
  refine ⟨?_, ?_, ?_⟩
  · intro identity as bs s t has hbs hseen
    obtain ⟨u, hsu, htu⟩ := (hides maxBytes identity).meet (kept_empty.alike identity) has hbs hseen
    exact hsu.answers.trans htu.answers.symm
  · intro s id owner a hon habsent
    cases hon with
    | get => exact congrArg some (use_absent habsent getJob)
    | read => exact congrArg some (use_absent habsent readJob)
    | kill reason => exact congrArg some (use_absent habsent (killJob reason))
    | wait => exact congrArg some (use_absent habsent waitJob)
  · intro s hreach
    have hstart : ({} : Jobs).Kept ∧ ({} : Jobs).Owned := by
      refine ⟨kept_empty, ?_⟩
      intro id job hget
      cases hget
    obtain ⟨hkept, howned⟩ := hreach.invariant (P := fun s => s.Kept ∧ s.Owned) hstart (by
      rintro s a s' ⟨hkept, howned⟩ hnot hstep
      exact ⟨hkept.step hstep, howned.step hkept hnot hstep⟩)
    refine ⟨fenced_iff.mpr howned, ?_⟩
    intro a s' hstep
    rw [fenced_iff]
    constructor
    · intro hfenced hstarts
      exact not_owned_of_startsAnonymous hstarts hstep hfenced
    · intro hnot
      exact howned.step hkept hnot hstep

/-- Two callers. -/
def alice : Option JobCaller := some { session := some (some "alice") }

def bob : Option JobCaller := some { session := some (some "bob") }

def aliceAndBob : List JobAction :=
  [.start { command := "make" } alice "a1", .start { command := "ls" } bob "b1", .get "b1" alice,
    .finish "b1" (.result "x" "" false 0), .list alice]

def aliceAlone : List JobAction :=
  [.start { command := "make" } alice "a1", .get "b1" alice, .list alice]

/-- Bob's job is nothing to Alice: she has the same answers where he starts none. -/
theorem jobs_fenced_alice : ∃ s t, Machine.exec (Jobs.step 100) {} aliceAndBob = some s ∧
    Machine.exec (Jobs.step 100) {} aliceAlone = some t ∧ s.answers "alice" = t.answers "alice" ∧
    t.answers "alice" = [.started "a1", .notFound "b1", .listed [⟨"a1", "bash", "make", .running, none⟩]] := by
  refine ⟨_, _, rfl, rfl, ?_, by decide +kernel⟩
  exact (jobs_fenced 100).1 "alice" aliceAndBob aliceAlone _ _ rfl rfl rfl

/-- A caller without an identity starts a job, and another such caller lists it. -/
theorem jobs_shared : ∃ s, Machine.exec (Jobs.step 100) {} [.start { command := "make" } none "j1"] = some s ∧
    s.list (some {}) = [⟨"j1", "bash", "make", .running, none⟩] ∧ ¬ s.Fenced := by
  refine ⟨_, rfl, by decide +kernel, ?_⟩
  intro h
  have hnone : _ = [] := (h (some {}) rfl).1
  exact absurd hnone (by decide +kernel)

end Pydsh
