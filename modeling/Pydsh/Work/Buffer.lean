import Pydsh.Bounded.Retention
import Pydsh.Work.Jobs

/-!
# The buffer of a job

`work/jobs.py`, `_Job`: what a job's command says is appended to the job's buffer, and a read drains it. The buffer is to be the end of
what was appended since the last drain, the longest that has at most so many bytes. `append_output` measures the buffer in bytes but cuts
it in characters (`self._buffer[-max_bytes:]`), so what is left has more bytes than that where its characters have; and with a cap of
zero the slice is the whole buffer. The buffer keeps what it is to keep in every run whose appends fit, or leave only characters of one
byte below a positive cap (`job_buffer_bounded`).
-/

namespace Pydsh

/-- What happens to a buffer. -/
inductive BufferAction where
  | append (text : String)
  | drain

/-- A job, and what was appended to its buffer since the last drain. -/
structure Buffered where
  job : Job
  since : String := ""

namespace Buffered

/-- A job with nothing in its buffer. -/
def started (job : Job) : Buffered := { job := { job with buffer := "" } }

/-- What an action does. -/
def step (maxBytes : Nat) (s : Buffered) : BufferAction → Option Buffered
  | .append text => some { job := s.job.appendOutput maxBytes text, since := s.since ++ text }
  | .drain => some { job := (readJob s.job).job, since := "" }

/-- The buffer has at most so many bytes, and is the longest end of what was appended since the last drain that has. -/
structure Tail (maxBytes : Nat) (s : Buffered) : Prop where
  bounded : s.job.buffer.utf8ByteSize ≤ maxBytes
  longest : utf8.LongestSuffix s.since.toList maxBytes s.job.buffer.toList

/-- An append that fits; or that leaves, below a positive cap, as many characters as the cap has bytes, each of one byte. -/
def Fits (maxBytes : Nat) (s : Buffered) : BufferAction → Prop
  | .append text =>
    (s.job.buffer ++ text).utf8ByteSize ≤ maxBytes ∨
      0 < maxBytes ∧ maxBytes ≤ (s.job.buffer ++ text).length ∧
        ∀ c ∈ (s.job.buffer ++ text).toList.rtake maxBytes, c.utf8Size = 1
  | .drain => True

variable {maxBytes : Nat} {s s' : Buffered} {text : String}

theorem utf8ByteSize_eq (text : String) : text.utf8ByteSize = (utf8.encodeAll text.toList).length := by
  rw [← String.size_toByteArray, ← String.utf8Encode_toList, List.utf8Encode, List.size_toByteArray]
  rfl

/-- What is left of a text below a positive cap that it does not fit. -/
theorem toList_lastChars (hpos : 0 < maxBytes) (text : String) : (Job.lastChars text maxBytes).toList = text.toList.rtake maxBytes := by
  unfold Job.lastChars
  rw [if_pos (by omega), String.toList_ofList, List.rtake]
  rfl

theorem length_encodeAll_of_single {chars : List Char} (h : ∀ c ∈ chars, c.utf8Size = 1) :
    (utf8.encodeAll chars).length = chars.length := by
  induction chars with
  | nil => rfl
  | cons c chars ih =>
    have hone : (utf8.encode c).length = 1 := (String.length_utf8EncodeChar c).trans (h c List.mem_cons_self)
    rw [SelfSync.encodeAll_cons, List.length_append, List.length_cons, hone, ih (fun d hd => h d (List.mem_cons_of_mem _ hd))]
    omega

/-- Where characters have as many bytes as there are of them, each has one. -/
theorem single_of_length_encodeAll {chars : List Char} (h : (utf8.encodeAll chars).length ≤ chars.length) :
    ∀ c ∈ chars, c.utf8Size = 1 := by
  induction chars with
  | nil => simp
  | cons c chars ih =>
    have hrest := utf8.length_le_length_encodeAll chars
    have hc : (utf8.encode c).length = c.utf8Size := String.length_utf8EncodeChar c
    have hpos := utf8.length_encode_pos c
    rw [SelfSync.encodeAll_cons, List.length_append, List.length_cons] at h
    intro d hd
    rcases List.mem_cons.mp hd with rfl | hd
    · omega
    · exact ih (by omega) d hd

theorem buffer_appendOutput (job : Job) (maxBytes : Nat) (text : String) : (job.appendOutput maxBytes text).buffer =
    if maxBytes < (job.buffer ++ text).utf8ByteSize then Job.lastChars (job.buffer ++ text) maxBytes else job.buffer ++ text := by
  unfold Job.appendOutput
  simp only [Int.ofNat_lt]

theorem buffer_overflowing {job : Job} (hlarge : maxBytes < (job.buffer ++ text).utf8ByteSize) :
    (job.appendOutput maxBytes text).buffer.toList =
      if 0 < maxBytes then (job.buffer ++ text).toList.rtake maxBytes else (job.buffer ++ text).toList := by
  rw [buffer_appendOutput, if_pos hlarge]
  split
  · rename_i hpos
    exact toList_lastChars hpos _
  · rename_i hzero
    obtain rfl : maxBytes = 0 := by omega
    simp [Job.lastChars]

theorem bounded_append_iff : (s.job.appendOutput maxBytes text).buffer.utf8ByteSize ≤ maxBytes ↔ s.Fits maxBytes (.append text) := by
  by_cases hlarge : maxBytes < (s.job.buffer ++ text).utf8ByteSize
  · have hleft := buffer_overflowing hlarge
    rw [utf8ByteSize_eq, hleft]
    rw [utf8ByteSize_eq] at hlarge
    simp only [Fits]
    rw [utf8ByteSize_eq, ← String.length_toList]
    generalize (s.job.buffer ++ text).toList = chars at hlarge ⊢
    by_cases hpos : 0 < maxBytes
    · rw [if_pos hpos]
      by_cases hlength : maxBytes ≤ chars.length
      · have hrtake : (chars.rtake maxBytes).length = maxBytes := by
          rw [List.rtake, List.length_drop]
          omega
        constructor
        · intro h
          refine Or.inr ⟨hpos, hlength, single_of_length_encodeAll ?_⟩
          rw [hrtake]
          exact h
        · rintro (h | ⟨-, -, hsingle⟩)
          · omega
          · rw [length_encodeAll_of_single hsingle, hrtake]
      · have hrtake : chars.rtake maxBytes = chars := by
          rw [List.rtake, Nat.sub_eq_zero_of_le (by omega), List.drop_zero]
        rw [hrtake]
        omega
    · rw [if_neg hpos]
      omega
  · rw [buffer_appendOutput, if_neg hlarge]
    exact iff_of_true (by omega) (Or.inl (by omega))

/-- An append that fits leaves the longest end that has at most so many bytes. -/
theorem longest_append (h : s.Fits maxBytes (.append text)) :
    utf8.LongestSuffix (s.job.buffer ++ text).toList maxBytes (s.job.appendOutput maxBytes text).buffer.toList := by
  have hbounded := bounded_append_iff.mpr h
  rw [utf8ByteSize_eq] at hbounded
  by_cases hlarge : maxBytes < (s.job.buffer ++ text).utf8ByteSize
  · rcases h with hfits | ⟨hpos, hlength, -⟩
    · omega
    · rw [buffer_overflowing hlarge, if_pos hpos] at hbounded ⊢
      refine utf8.longestSuffix_of_length (List.drop_suffix _ _) hbounded ?_
      rw [← String.length_toList] at hlength
      rw [List.rtake, List.length_drop]
      omega
  · rw [buffer_appendOutput, if_neg hlarge] at hbounded ⊢
    exact utf8.longestSuffix_self hbounded

/-! ## Runs -/

theorem tail_started (maxBytes : Nat) (job : Job) : (started job).Tail maxBytes where
  bounded := Nat.zero_le _
  longest := utf8.longestSuffix_self (Nat.zero_le _)

/-- A step that fits keeps the buffer the end of what was appended. -/
theorem Tail.step (h : s.Tail maxBytes) {a : BufferAction} (hstep : s.step maxBytes a = some s') (hok : s.Fits maxBytes a) :
    s'.Tail maxBytes := by
  cases a with
  | append text =>
    obtain rfl := Option.some.inj hstep
    refine ⟨bounded_append_iff.mpr hok, ?_⟩
    have hlongest := longest_append hok
    rw [String.toList_append] at hlongest ⊢
    exact (h.longest.append_iff utf8 text.toList _).mpr hlongest
  | drain =>
    obtain rfl := Option.some.inj hstep
    exact tail_started maxBytes s.job

theorem Tail.fits {a : BufferAction} (hstep : s.step maxBytes a = some s') (h : s'.Tail maxBytes) : s.Fits maxBytes a := by
  cases a with
  | append text =>
    obtain rfl := Option.some.inj hstep
    exact bounded_append_iff.mp h.bounded
  | drain => trivial

theorem exec_total (maxBytes : Nat) (s : Buffered) (actions : List BufferAction) :
    ∃ s', Machine.exec (step maxBytes) s actions = some s' := by
  induction actions generalizing s with
  | nil => exact ⟨s, rfl⟩
  | cons a actions ih =>
    cases a with
    | append text => exact ih _
    | drain => exact ih _

end Buffered

/-- What `_run` appends when a job's command has ended. -/
def ShellOutcome.appends : ShellOutcome → List BufferAction
  | .result stdout stderr _ _ => .append stdout :: if stderr = "" then [] else [.append ("\n[stderr]\n" ++ stderr)]
  | .raised _ => []
  | .cancelled => []

@[simp] theorem Job.buffer_settle (job : Job) (status : JobStatus) (detail : Option String) :
    (job.settle status detail).buffer = job.buffer := by
  unfold Job.settle
  split
  · rfl
  · rfl

/-- The end of a command leaves in the buffer what its appends leave. -/
theorem finish_appends (maxBytes : Nat) (s : Buffered) (outcome : ShellOutcome) :
    ∃ s', Machine.exec (Buffered.step maxBytes) s outcome.appends = some s' ∧
      (s.job.finish maxBytes outcome).buffer = s'.job.buffer := by
  cases outcome with
  | result stdout stderr timedOut exitCode =>
    by_cases hstderr : stderr = ""
    · subst hstderr
      refine ⟨_, rfl, ?_⟩
      simp only [Job.finish, if_true]
      split_ifs <;> simp
    · refine ⟨_, by simp only [ShellOutcome.appends, if_neg hstderr]; rfl, ?_⟩
      simp only [Job.finish, if_neg hstderr]
      split_ifs <;> simp
  | raised error => exact ⟨s, rfl, Job.buffer_settle ..⟩
  | cancelled => exact ⟨s, rfl, Job.buffer_settle ..⟩

/-- In a run over a job's buffer, whatever the cap, the buffer has at most so many bytes and is the longest end of what was appended since
the last drain that has, in every state, exactly if every append fits, or leaves only characters of one byte below a positive cap. -/
theorem job_buffer_bounded (maxBytes : Nat) (job : Job) (actions : List BufferAction) :
    Machine.Always (Buffered.step maxBytes) (fun s => s.Tail maxBytes) (.started job) actions ↔
      Machine.Meets (Buffered.step maxBytes) (fun s a => s.Fits maxBytes a) (.started job) actions := by
  obtain ⟨s, hrun⟩ := Buffered.exec_total maxBytes (.started job) actions
  exact Machine.always_iff_meets (fun _ h => h) (fun _ _ _ h hstep hok => h.step hstep hok) (fun _ _ _ _ hstep h => h.fits hstep)
    (Buffered.tail_started maxBytes job) hrun

/-- A job with nothing in its buffer. -/
def quietJob : Job := { id := "a1", kind := "bash", command := "make", ownerId := "s1" }

/-- Two letters of two bytes each are kept below a cap of three bytes, and anything below a cap of zero. -/
theorem job_buffer_overflows :
    (∃ s, Machine.exec (Buffered.step 3) (.started quietJob) [.append "éé"] = some s ∧ s.job.buffer = "éé" ∧ ¬ s.Tail 3) ∧
    ∃ s, Machine.exec (Buffered.step 0) (.started quietJob) [.append "a"] = some s ∧ s.job.buffer = "a" ∧ ¬ s.Tail 0 := by
  have hwide : (quietJob.appendOutput 3 "éé").buffer = "éé" := by decide +kernel
  have hzero : (quietJob.appendOutput 0 "a").buffer = "a" := by decide +kernel
  refine ⟨⟨_, rfl, hwide, fun h => ?_⟩, ⟨_, rfl, hzero, fun h => ?_⟩⟩
  · have hbounded : (quietJob.appendOutput 3 "éé").buffer.utf8ByteSize ≤ 3 := h.bounded
    rw [hwide] at hbounded
    exact absurd hbounded (by decide +kernel)
  · have hbounded : (quietJob.appendOutput 0 "a").buffer.utf8ByteSize ≤ 0 := h.bounded
    rw [hzero] at hbounded
    exact absurd hbounded (by decide +kernel)

end Pydsh
