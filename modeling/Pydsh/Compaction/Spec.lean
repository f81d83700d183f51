import Pydsh.Compaction.Basic

/-!
# What a compaction does to a session

`beginRegion` and `finishRegion` step by step: which events each leaves in the log, and what becomes of the surface. The events
of the bracket are log-only; the only change of the surface is the checkpoint, which swaps the run from `first` to `last` for
its own node when both still stand on the surface in that order.
-/

namespace Pydsh

/-! ## The four appends -/

/-- The session with the start event of a compaction in its log. -/
def started (env : CompactionEnv) (first last : Nat) (s : Session) : Session :=
  s.commit ((startCall env first last).event s (startData env first last))

/-- The session with the end event of a compaction in its log. -/
def ended (env : CompactionEnv) (error : Option SummaryError) (s : Session) : Session :=
  s.commit ((endCall env error).event s (endData env error))

/-- The session with the summary event of a compaction in its log. -/
def summarised (p : Pending) (summary : String) (s : Session) : Session :=
  s.commit ((summaryCall p summary).event s (summaryData p summary))

/-- The event of the checkpoint message, appended right after the summary event. -/
def checkpointEvent (p : Pending) (summary : String) (s : Session) : SessionEvent :=
  (checkpointCall p summary (s.seq + 1)).event (summarised p summary s) (checkpointMessage p summary).toJson

/-- The session with the checkpoint in the place of the run it shadows. -/
def checkpointed (p : Pending) (summary : String) (s : Session) : Session :=
  (summarised p summary s).replaceRun (s.surfaceNodes.idxOf p.first) (s.surfaceNodes.idxOf p.last) (checkpointEvent p summary s)

theorem append_startCall (env : CompactionEnv) (first last : Nat) (s : Session) :
    s.append (startCall env first last) =
      (.ok ((startCall env first last).event s (startData env first last)), started env first last s) :=
  append_logOnly s rfl rfl rfl rfl

theorem append_endCall (env : CompactionEnv) (error : Option SummaryError) (s : Session) :
    s.append (endCall env error) = (.ok ((endCall env error).event s (endData env error)), ended env error s) :=
  append_logOnly s rfl rfl rfl rfl

theorem append_summaryCall (p : Pending) (summary : String) (s : Session) :
    s.append (summaryCall p summary) =
      (.ok ((summaryCall p summary).event s (summaryData p summary)), summarised p summary s) :=
  append_logOnly s rfl rfl rfl rfl

/-- The checkpoint takes the place of its run when the run is still there. -/
theorem append_checkpointCall {p : Pending} {s : Session} (h : InOrder s.surfaceNodes p.first p.last) (summary : String) :
    (summarised p summary s).append (checkpointCall p summary (s.seq + 1)) =
      (.ok (checkpointEvent p summary s), checkpointed p summary s) :=
  append_replace (summarised p summary s) (encodePayload_message _) rfl rfl h

/-- Otherwise the append raises, with the checkpoint event in the log. -/
theorem append_checkpointCall_error {p : Pending} {s : Session} (h : ¬InOrder s.surfaceNodes p.first p.last)
    (summary : String) : ∃ e, (summarised p summary s).append (checkpointCall p summary (s.seq + 1)) =
      (.error e, (summarised p summary s).commit (checkpointEvent p summary s)) :=
  append_replace_error (summarised p summary s) (encodePayload_message _) rfl rfl h

@[simp] theorem started_surfaceNodes (env : CompactionEnv) (first last : Nat) (s : Session) :
    (started env first last s).surfaceNodes = s.surfaceNodes := rfl

@[simp] theorem ended_surfaceNodes (env : CompactionEnv) (error : Option SummaryError) (s : Session) :
    (ended env error s).surfaceNodes = s.surfaceNodes := rfl

@[simp] theorem summarised_surfaceNodes (p : Pending) (summary : String) (s : Session) :
    (summarised p summary s).surfaceNodes = s.surfaceNodes := rfl

@[simp] theorem checkpointed_surfaceNodes (p : Pending) (summary : String) (s : Session) :
    (checkpointed p summary s).surfaceNodes =
      Splice.splice s.surfaceNodes (s.surfaceNodes.idxOf p.first) (s.surfaceNodes.idxOf p.last) (s.seq + 2) := rfl

/-! ## Reading the nodes behind a later event -/

theorem nodeMessages_commit (s : Session) {e : SessionEvent} {seqs : List Nat} (h : ∀ n ∈ seqs, n ≠ e.seq) :
    nodeMessages (s.commit e) seqs = nodeMessages s seqs := by
  induction seqs with
  | nil => rfl
  | cons seq seqs ih =>
    have hseq := eventAt_commit s (Ne.symm (h seq List.mem_cons_self))
    have htail := ih (fun n hn => h n (List.mem_cons_of_mem _ hn))
    unfold nodeMessages
    rw [hseq, htail]

theorem mem_surfaceNodes_of_mem_shadowedNodes {s : Session} {start stop n : Nat} (h : n ∈ shadowedNodes s start stop) :
    n ∈ s.surfaceNodes :=
  (List.mem_filter.mp h).1

/-! ## The two halves -/

/-- What `compact_region` holds while the model writes. -/
def pendingOf (env : CompactionEnv) (s : Session) (shadowed : List Nat) (first last : Nat) (messages : List PyValue) : Pending :=
  { env := env
    shadowed := shadowed
    first := first
    last := last
    shadowedTokens := env.measure s shadowed
    startSeq := s.seq + 1
    messages := messages ++ [(instructionMessage env).toPy] }

/-- Up to the await: the region is refused and nothing changes; or the bracket is opened, and closed at once when the messages
of the run cannot be built. -/
theorem beginRegion_cases {s : Session} (hs : s.WellFormed) (env : CompactionEnv) (start stop : Nat) :
    (∃ e, checkRegion s start stop = .error e ∧ beginRegion env start stop s = (.error e, s)) ∨
    (∃ first last e, checkRegion s start stop = .ok (first, last) ∧
      nodeMessages s (shadowedNodes s start stop) = .error e ∧
      beginRegion env start stop s = (.error (.summary e), ended env (some e) (started env first last s))) ∨
    (∃ first last messages, checkRegion s start stop = .ok (first, last) ∧
      nodeMessages s (shadowedNodes s start stop) = .ok messages ∧
      beginRegion env start stop s =
        (.ok (pendingOf env s (shadowedNodes s start stop) first last messages), started env first last s)) := by
  have hread : ∀ first last, nodeMessages (started env first last s) (shadowedNodes s start stop) =
      nodeMessages s (shadowedNodes s start stop) := by
    intro first last
    refine nodeMessages_commit s (fun n hn => ?_)
    have := (hs.surface_le (mem_surfaceNodes_of_mem_shadowedNodes hn)).2
    simp only [AppendCall.event_seq]
    omega
  unfold beginRegion
  cases hcheck : checkRegion s start stop with
  | error e => exact Or.inl ⟨e, rfl, rfl⟩
  | ok region =>
    obtain ⟨first, last⟩ := region
    right
    simp only [append_startCall, hread]
    cases hmessages : nodeMessages s (shadowedNodes s start stop) with
    | error e => exact Or.inl ⟨first, last, e, rfl, rfl, by simp only [append_endCall]⟩
    | ok messages => exact Or.inr ⟨first, last, messages, rfl, rfl, rfl⟩

/-- What a compaction that succeeds returns. -/
def resultOf (p : Pending) (summary : String) (s : Session) : CompactionResult :=
  { compactionId := p.env.compactionId
    startSeq := p.startSeq
    summarySeq := s.seq + 1
    checkpointSeq := s.seq + 2
    summary := summary
    shadowedSeqs := p.shadowed
    shadowedTokens := p.shadowedTokens
    keptTokens := p.env.measure (ended p.env none (checkpointed p summary s)) [s.seq + 2] }

/-- From the model's reply on: a failed summary closes the bracket; a summary whose run is still on the surface is committed and
closes it; otherwise the checkpoint raises with its event in the log and the bracket stays open. -/
theorem finishRegion_cases (p : Pending) (reply : ModelReply) (s : Session) :
    (∃ e, summaryOf reply = .error e ∧ finishRegion p reply s = (.error (.summary e), ended p.env (some e) s)) ∨
    (∃ summary, summaryOf reply = .ok summary ∧ InOrder s.surfaceNodes p.first p.last ∧
      finishRegion p reply s = (.ok (resultOf p summary s), ended p.env none (checkpointed p summary s))) ∨
    (∃ summary e, summaryOf reply = .ok summary ∧ ¬InOrder s.surfaceNodes p.first p.last ∧
      finishRegion p reply s = (.error (.session e), (summarised p summary s).commit (checkpointEvent p summary s))) := by
  unfold finishRegion
  cases hsummary : summaryOf reply with
  | error e => exact Or.inl ⟨e, rfl, by simp only [append_endCall]⟩
  | ok summary =>
    right
    simp only [append_summaryCall, AppendCall.event_seq]
    by_cases hrun : InOrder s.surfaceNodes p.first p.last
    · refine Or.inl ⟨summary, rfl, hrun, ?_⟩
      simp only [append_checkpointCall hrun, append_endCall]
      rfl
    · obtain ⟨e, he⟩ := append_checkpointCall_error hrun summary
      refine Or.inr ⟨summary, e, rfl, hrun, ?_⟩
      simp only [he]

end Pydsh
