import Pydsh.Session.Pairing
import Pydsh.Python.Dynamic

/-!
# The default compaction policy

`compaction/basic.py`. A compaction suspends once, while the model writes the summary, so it is two functions here:
`beginRegion` runs up to that await and leaves what the coroutine holds across it (`Pending`), `finishRegion` runs from the
model's reply to the end. `compactRegion` and `compactNow` are the two in sequence, on a session nobody else touches in
between; the interleaved runs are in `Pydsh.Compaction.Interleaving`.
-/

namespace Pydsh

/-- `SUMMARY_INSTRUCTION`. -/
def summaryInstruction : String :=
  "Summarise the conversation so far. Preserve decisions made, facts " ++
  "established, file paths, identifiers, and anything the assistant " ++
  "committed to doing. Omit pleasantries and superseded detail. Write it as " ++
  "notes for whoever continues this conversation."

/-- `CHECKPOINT_PREFIX`. -/
def checkpointPrefix : String := "[Earlier conversation, summarised]\n\n"

/-- `REFUSAL_CODES` that `BasicCompaction` uses. -/
inductive RefusalCode where
  | empty | inverted | unbalanced
  deriving DecidableEq

/-- Why the summariser failed: `_summarise` raised before the model call, the model call raised, or the text was empty. -/
inductive SummaryError where
  | payload (e : PayloadError)
  | session (e : SessionError)
  | missing (seq : Nat)
  | model (error : String)
  | emptySummary

/-- What a compaction raises. -/
inductive CompactionError where
  | refused (code : RefusalCode)
  | pairing (e : PairingError)
  | summary (e : SummaryError)
  | session (e : SessionError)

/-- What one compaction takes from outside: the engine's configuration and the agent's route, the token meter, the fresh ids,
how Python prints an exception, and what the clock reads when it appends an event of a type. -/
structure CompactionEnv where
  keepRecentNodes : Nat
  provider : String
  model : String
  sourceCommandId : Option String := none
  compactionId : String
  checkpointId : String
  instructionId : String
  measure : Session → List Nat → Nat
  errorText : SummaryError → String
  clock : EventType → Rat := fun _ => 0

/-- `CompactionResult`. -/
structure CompactionResult where
  compactionId : String
  startSeq : Nat
  summarySeq : Nat
  checkpointSeq : Nat
  summary : String
  shadowedSeqs : List Nat
  shadowedTokens : Nat
  keptTokens : Nat

/-! ## Selection -/

/-- The first node of some, taken from the end, after which the surface can be cut. -/
def lastBalanced (s : Session) : List Nat → Except PairingError (Option Nat)
  | [] => .ok none
  | stop :: stops => do
    let balanced ← balancedAfter s stop
    if balanced then return some stop else lastBalanced s stops

/-- `_candidate_region`: the longest balanced run outside the keep-recent window, by its first and last node. -/
def candidateRegion (keepRecentNodes : Nat) (s : Session) : Except PairingError (Option (Nat × Nat)) :=
  let available := s.surfaceNodes.take (s.surfaceNodes.length - keepRecentNodes)
  if available.length < 2 then .ok none
  else
    match available with
    | [] => .ok none
    | start :: _ => do
      let balanced ← balancedBefore s start
      if !balanced then return none
      else
        let stop ← lastBalanced s available.reverse
        return stop.map (fun stop => (start, stop))

/-! ## The summariser -/

/-- The messages of the nodes about to be shadowed, decoded, in the order given. -/
def nodeMessages (s : Session) : List Nat → Except SummaryError (List PyValue)
  | [] => .ok []
  | seq :: seqs =>
    match s.eventAt seq with
    | none => .error (.missing seq)
    | some event =>
      match deriveEventMessage event with
      | .error e => .error (.session e)
      | .ok .null => nodeMessages s seqs
      | .ok message =>
        match decodePayload message with
        | .error e => .error (.payload e)
        | .ok message => do
          let messages ← nodeMessages s seqs
          return message :: messages

/-- The instruction that ends what the model is sent. -/
def instructionMessage (env : CompactionEnv) : Message :=
  createUserMessage env.instructionId [.text summaryInstruction] { kind := "plugin", plugin := "compaction" }

/-- What the model's stream gave: the texts of its text deltas, or the error it raised. -/
abbrev ModelReply : Type := Except String (List String)

/-- The end of `_summarise`: the text of the stream, stripped; raises on an empty one. -/
def summaryOf (reply : ModelReply) : Except SummaryError String :=
  match reply with
  | .error e => .error (.model e)
  | .ok parts =>
    let summary := pyStrip (String.join parts)
    if summary = "" then .error .emptySummary else .ok summary

/-! ## The events of a compaction -/

/-- `{"start": first, "end": last}`. -/
def rangeJson (start stop : Nat) : Json := .obj [("start", .int start), ("end", .int stop)]

/-- The data of `compaction/start`. -/
def startData (env : CompactionEnv) (start stop : Nat) : Json :=
  .obj [("compaction_id", .str env.compactionId), ("region", rangeJson start stop),
    ("source_command_id", (env.sourceCommandId.map Json.str).getD .null)]

/-- The append of `compaction/start`. -/
def startCall (env : CompactionEnv) (start stop : Nat) : AppendCall :=
  { eventType := .compactionStart, data := (startData env start stop).loads, time := env.clock .compactionStart }

/-- The data of `compaction/end`, with the error that ended it or none. -/
def endData (env : CompactionEnv) (error : Option SummaryError) : Json :=
  .obj [("compaction_id", .str env.compactionId),
    ("error", (error.map (fun e => Json.str (env.errorText e))).getD .null)]

/-- The append of `compaction/end`. -/
def endCall (env : CompactionEnv) (error : Option SummaryError) : AppendCall :=
  { eventType := .compactionEnd, data := (endData env error).loads, time := env.clock .compactionEnd }

/-- What a compaction holds while the model writes: its environment, the nodes to shadow with the first and the last of them,
their cost, the seq of its start event, and the messages the model was sent. -/
structure Pending where
  env : CompactionEnv
  shadowed : List Nat
  first : Nat
  last : Nat
  shadowedTokens : Nat
  startSeq : Nat
  messages : List PyValue

/-- The data of `compaction/summary`. -/
def summaryData (p : Pending) (summary : String) : Json :=
  .obj [("compaction_id", .str p.env.compactionId), ("summary", .str summary),
    ("shadowed_range", rangeJson p.first p.last), ("shadowed_seqs", .arr (p.shadowed.map (fun n => .int n))),
    ("shadowed_tokens", .int p.shadowedTokens), ("provider", .str p.env.provider), ("model", .str p.env.model)]

/-- The append of `compaction/summary`. -/
def summaryCall (p : Pending) (summary : String) : AppendCall :=
  { eventType := .compactionSummary, data := (summaryData p summary).loads, time := p.env.clock .compactionSummary }

/-- The checkpoint message. -/
def checkpointMessage (p : Pending) (summary : String) : Message :=
  createUserMessage p.env.checkpointId [.text (checkpointPrefix ++ summary)]
    { kind := "plugin", plugin := "compaction", form := "summary" }

/-- The append of the checkpoint message, which shadows the run. -/
def checkpointCall (p : Pending) (summary : String) (summarySeq : Nat) : AppendCall :=
  { eventType := .userMessage
    data := encodePayload (checkpointMessage p summary).toPy
    surfaceOp := .replace p.first p.last
    sourceEventSeqs := p.startSeq :: summarySeq :: p.shadowed
    time := p.env.clock .userMessage }

/-! ## Compacting -/

/-- The nodes `compact_region` shadows: those whose seq lies between the two it is given. -/
def shadowedNodes (s : Session) (start stop : Nat) : List Nat :=
  s.surfaceNodes.filter (fun seq => decide (start ≤ seq ∧ seq ≤ stop))

/-- The checks of `compact_region`, and the first and last node of what it will shadow. -/
def checkRegion (s : Session) (start stop : Nat) : Except CompactionError (Nat × Nat) :=
  match (shadowedNodes s start stop).head?, (shadowedNodes s start stop).getLast? with
  | some first, some last =>
    if start > stop then .error (.refused .inverted)
    else
      match balancedBefore s first with
      | .error e => .error (.pairing e)
      | .ok false => .error (.refused .unbalanced)
      | .ok true =>
        match balancedAfter s last with
        | .error e => .error (.pairing e)
        | .ok false => .error (.refused .unbalanced)
        | .ok true => .ok (first, last)
  | _, _ => .error (.refused .empty)

/-- `compact_region` up to its await: the checks, `compaction/start`, and the messages the model is sent. A failure to build
them is recorded and raised. -/
def beginRegion (env : CompactionEnv) (start stop : Nat) (s : Session) : Except CompactionError Pending × Session :=
  match checkRegion s start stop with
  | .error e => (.error e, s)
  | .ok (first, last) =>
    let shadowed := shadowedNodes s start stop
    let shadowedTokens := env.measure s shadowed
    match s.append (startCall env first last) with
    | (.error e, s) => (.error (.session e), s)
    | (.ok startEvent, s) =>
      match nodeMessages s shadowed with
      | .error e =>
        match s.append (endCall env (some e)) with
        | (.error e, s) => (.error (.session e), s)
        | (.ok _, s) => (.error (.summary e), s)
      | .ok messages =>
        (.ok
          { env := env
            shadowed := shadowed
            first := first
            last := last
            shadowedTokens := shadowedTokens
            startSeq := startEvent.seq
            messages := messages ++ [(instructionMessage env).toPy] }, s)

/-- `compact_region` from the model's reply on: a failed summary is recorded and raised; a summary is committed in three
appends. -/
def finishRegion (p : Pending) (reply : ModelReply) (s : Session) : Except CompactionError CompactionResult × Session :=
  match summaryOf reply with
  | .error e =>
    match s.append (endCall p.env (some e)) with
    | (.error e, s) => (.error (.session e), s)
    | (.ok _, s) => (.error (.summary e), s)
  | .ok summary =>
    match s.append (summaryCall p summary) with
    | (.error e, s) => (.error (.session e), s)
    | (.ok summaryEvent, s) =>
      match s.append (checkpointCall p summary summaryEvent.seq) with
      | (.error e, s) => (.error (.session e), s)
      | (.ok checkpointEvent, s) =>
        match s.append (endCall p.env none) with
        | (.error e, s) => (.error (.session e), s)
        | (.ok _, s) =>
          (.ok
            { compactionId := p.env.compactionId
              startSeq := p.startSeq
              summarySeq := summaryEvent.seq
              checkpointSeq := checkpointEvent.seq
              summary := summary
              shadowedSeqs := p.shadowed
              shadowedTokens := p.shadowedTokens
              keptTokens := p.env.measure s [checkpointEvent.seq] }, s)

/-- `compact_region`, with nothing else happening to the session while the model writes. -/
def compactRegion (env : CompactionEnv) (llm : List PyValue → ModelReply) (start stop : Nat) (s : Session) :
    Except CompactionError CompactionResult × Session :=
  match beginRegion env start stop s with
  | (.error e, s) => (.error e, s)
  | (.ok p, s) => finishRegion p (llm p.messages) s

/-- `compact_now`. -/
def compactNow (env : CompactionEnv) (llm : List PyValue → ModelReply) (s : Session) :
    Except CompactionError (Option CompactionResult) × Session :=
  match candidateRegion env.keepRecentNodes s with
  | .error e => (.error (.pairing e), s)
  | .ok none => (.ok none, s)
  | .ok (some (start, stop)) =>
    match compactRegion env llm start stop s with
    | (.error e, s) => (.error e, s)
    | (.ok r, s) => (.ok (some r), s)

end Pydsh
