import Pydsh.Lib.Dict
import Pydsh.Python.Dynamic

/-!
# JSON-RPC over a line of frames

`runtime/protocol.py`: one endpoint of a connection. It sends requests, each with a future in the pending table under an id of its own;
its read loop settles the future of an id with the first response that names it and serves each request of the peer in a task of its
own; and all of them write through `_write`, which fails everything in the table where `json.dumps` or the writer raises. The endpoint
is a machine whose steps are what its callers, its peer, its handlers and its reader do, in any order.
-/

namespace Pydsh

/-- What `json.loads` makes of a line: a value, a `JSONDecodeError`, or another exception (an integer with too many digits, say). -/
inductive LineParse where
  | value (v : PyValue)
  | decodeError
  | raises

/-- What Python does with JSON text: how it parses a line, and the text of the error with which `json.dumps` refuses a value. -/
structure JsonText where
  loads : String → LineParse
  refuses : PyValue → Option String

/-- Why a `TransportClosed` is raised. -/
inductive Loss where
  | refused
  | closed (reason : String)
  | peerClosed
  | unencodable (error : String)
  | broken (error : String)
  deriving DecidableEq

/-- The text of a `TransportClosed`. -/
def Loss.text : Loss → String
  | .refused => "the connection is closed"
  | .closed reason => reason
  | .peerClosed => "the peer closed the connection"
  | .unencodable error => "the connection failed on write: " ++ error
  | .broken error => "the connection failed on write: " ++ error

/-- What interrupts a call from its caller's side: its timeout, or a cancellation. -/
inductive Interrupt where
  | timeout | cancel
  deriving DecidableEq

/-- What `request` returns or raises: the result, a `JsonRpcError`, a `TransportClosed`, or the caller's interrupt. -/
inductive Completion where
  | result (value : PyValue)
  | error (message code data : PyValue)
  | lost (loss : Loss)
  | interrupted (cause : Interrupt)

/-- A call of `request`. -/
structure RpcCall where
  /-- The caller gave a timeout. -/
  timeout : Bool
  /-- The responses that had come when the call was made. -/
  since : Nat
  /-- The call was made after the read loop was over. -/
  late : Bool
  /-- The endpoint was closed already, or its own write failed. -/
  unsent : Bool := false
  /-- Its future is in `_pending`. -/
  pending : Bool := true
  /-- What its future was settled with. -/
  future : Option Completion := none
  interrupt : Option Interrupt := none
  /-- What it returned or raised. -/
  ended : Option Completion := none

namespace RpcCall

/-- `future.done()`; a caller's interrupt cancels the future. -/
def done (call : RpcCall) : Bool := call.future.isSome || call.interrupt.isSome

/-- The future gets a result or an exception, if it is not done. -/
def settle (call : RpcCall) (completion : Completion) : RpcCall :=
  if call.done then call else { call with future := some completion }

/-- What `_fail_pending` does to a call. -/
def fail (call : RpcCall) (loss : Loss) : RpcCall :=
  if call.pending then { call.settle (.lost loss) with pending := false } else call

/-- What `await future` gives the caller. -/
def outcome (call : RpcCall) : Option Completion := (call.interrupt.map .interrupted).or call.future

/-- `request` is over; its `finally` takes the future out of the table. -/
def finish (call : RpcCall) (completion : Completion) : RpcCall :=
  { call with
    pending := false
    ended := some completion }

/-- The caller still waits for something to happen to its future. -/
def Waiting (call : RpcCall) : Prop := call.future = none ∧ call.interrupt = none ∧ call.ended = none

end RpcCall

/-- The task of the read loop: there is none yet, it reads, it came to its end, it ended with an exception, or a read was cancelled. -/
inductive ReadLoop where
  | idle | reading | ended | died | cancelled
  deriving DecidableEq

/-- The loop does not read any more. -/
def ReadLoop.over : ReadLoop → Bool
  | .ended | .died | .cancelled => true
  | .idle | .reading => false

/-- A handler of an inbound request ends: with a result, `MethodNotFound`, another exception, one whose `str` raises, or its
cancellation. -/
inductive Handled where
  | result (value : PyValue)
  | methodNotFound (message : String)
  | failed (message : String)
  | unprintable
  | cancelled

def methodNotFound : Int := -32601

def internalError : Int := -32603

/-- The frame a request is answered with. -/
def Handled.frame (requestId : PyValue) : Handled → Option PyValue
  | .result value => some (.record [("jsonrpc", .str "2.0"), ("id", requestId), ("result", value)])
  | .methodNotFound message => some (errorFrame Pydsh.methodNotFound message)
  | .failed message => some (errorFrame internalError message)
  | .unprintable | .cancelled => none
where
  errorFrame (code : Int) (message : String) : PyValue :=
    .record [("jsonrpc", .str "2.0"), ("id", requestId), ("error", .record [("code", .int code), ("message", .str message)])]

/-- The frame of a request. -/
def requestFrame (id method : String) (params : Option PyDict) : PyValue :=
  .record [("jsonrpc", .str "2.0"), ("id", .str id), ("method", .str method), ("params", .dict (params.getD []))]

/-- The frame of a notification. -/
def notificationFrame (method : String) (params : Option PyDict) : PyValue :=
  .record ([("jsonrpc", .str "2.0"), ("method", .str method)] ++ params.toList.map (fun params => ("params", .dict params)))

/-- A request of the peer that is being served. -/
structure Serving where
  requestId : PyValue
  method : String
  params : PyDict

/-- An endpoint: its calls by request id, its read loop, the flags, the reason of a `close` that still waits for the loop; the ids of the
requests of the peer, and those that are being served; the responses that came, by the text of their id; and what was written. -/
structure JsonRpcTransport where
  calls : Dict String RpcCall := .empty
  loop : ReadLoop := .idle
  closed : Bool := false
  closing : Option String := none
  eof : Bool := false
  /-- The writer raised. -/
  broken : Bool := false
  received : List PyValue := []
  serving : List Serving := []
  responses : List (String × PyDict) := []
  written : List PyValue := []

/-- What happens at an endpoint. A write says with which error the writer raises, if it does. -/
inductive RpcAction where
  | start
  | request (id method : String) (params : Option PyDict) (timeout : Bool) (writer : Option String)
  | notify (method : String) (params : Option PyDict) (writer : Option String)
  /-- The caller of a request goes on. -/
  | resume (id : String)
  | interrupt (id : String) (cause : Interrupt)
  /-- The reader gives a line. -/
  | line (text : String)
  | endOfInput
  | readError
  /-- The read is cancelled. -/
  | readCancelled
  /-- The handler of a request of the peer ends. -/
  | served (place : Nat) (handled : Handled) (writer : Option String)
  | close (reason : String)
  /-- `close` goes on after it waited for the loop. -/
  | closeGoesOn

/-- What a response says: the future's exception or result. -/
def answerOf (frame : PyDict) : Completion :=
  match frame.get? "error" with
  | some (.dict error) =>
    .error (((PyDict.get? error "message").getD .none).orElse (.str "the peer returned an error"))
      (match PyDict.get? error "code" with
        | some (.int code) => .int code
        | some (.bool code) => .bool code
        | _ => .none)
      ((PyDict.get? error "data").getD .none)
  | _ => .result ((frame.get? "result").getD .none)

/-- The `str` of a frame's id, where it is a string or an integer that is no bool. -/
def frameId (frame : PyDict) : Option (PyValue × String) :=
  match frame.get? "id" with
  | some (.str id) => some (.str id, id)
  | some (.int id) => some (.int id, toString id)
  | _ => none

/-- The method of a frame, where it is a string. -/
def frameMethod (frame : PyDict) : Option String :=
  match frame.get? "method" with
  | some (.str method) => some method
  | _ => none

/-- The params of a frame. -/
def frameParams (frame : PyDict) : PyDict :=
  match frame.get? "params" with
  | some (.dict params) => params
  | _ => []

namespace JsonRpcTransport

def putCall (s : JsonRpcTransport) (id : String) (call : RpcCall) : JsonRpcTransport := { s with calls := s.calls.set id call }

/-- `_fail_pending`. -/
def failPending (s : JsonRpcTransport) (loss : Loss) : JsonRpcTransport := { s with calls := s.calls.mapValues (·.fail loss) }

/-- `_write`, with the error of the `TransportClosed` it raises. -/
def write (json : JsonText) (s : JsonRpcTransport) (frame : PyValue) (writer : Option String) : JsonRpcTransport × Option Loss :=
  match json.refuses frame with
  | some error => (s.failPending (.unencodable error), some (.unencodable error))
  | none =>
    match writer with
    | some error => ({ s.failPending (.broken error) with broken := true }, some (.broken error))
    | none => ({ s with written := s.written ++ [frame] }, none)

/-- A call with its future in the table. -/
def newCall (s : JsonRpcTransport) (timeout : Bool) : RpcCall := { timeout, since := s.responses.length, late := s.loop.over }

/-- A call that ends where it is made. -/
def lostCall (s : JsonRpcTransport) (timeout : Bool) (loss : Loss) : RpcCall :=
  { s.newCall timeout with unsent := true }.finish (.lost loss)

/-- `request`, up to where it awaits its future. -/
def request (json : JsonText) (s : JsonRpcTransport) (id method : String) (params : Option PyDict) (timeout : Bool)
    (writer : Option String) : JsonRpcTransport :=
  if s.closed then s.putCall id (s.lostCall timeout .refused)
  else
    match (s.putCall id (s.newCall timeout)).write json (requestFrame id method params) writer with
    | (s', some loss) => s'.putCall id (s.lostCall timeout loss)
    | (s', none) => s'

/-- `_resolve`. -/
def resolve (s : JsonRpcTransport) (id : String) (frame : PyDict) : JsonRpcTransport :=
  let s' := { s with responses := s.responses ++ [(id, frame)] }
  match s.calls.get? id with
  | some call => if call.pending then s'.putCall id (call.settle (answerOf frame)) else s'
  | none => s'

/-- `_handle`, for what `_parse` makes of a line. A notification goes to the host's handler. -/
def handle (s : JsonRpcTransport) (frame : PyDict) : JsonRpcTransport :=
  match frameId frame, frameMethod frame with
  | some (id, _), some method =>
    { s with
      received := s.received ++ [id]
      serving := s.serving ++ [⟨id, method, frameParams frame⟩] }
  | some (_, text), none => s.resolve text frame
  | none, _ => s

/-- The loop is done with a line, and looks whether the endpoint was closed. -/
def again (s : JsonRpcTransport) : JsonRpcTransport := if s.closed then { s with loop := .ended } else s

/-- One line of `_read_loop`. -/
def readLine (json : JsonText) (s : JsonRpcTransport) (text : String) : JsonRpcTransport :=
  if pyStrip text = "" then s.again
  else
    match json.loads (pyStrip text) with
    | .value (.dict frame) => (s.handle frame).again
    | .value _ => s.again
    | .decodeError => s.again
    | .raises => { s with loop := .died }

/-- The end of `_read_loop`. -/
def loopEnds (s : JsonRpcTransport) : JsonRpcTransport :=
  if s.closed then { s with loop := .ended } else { s with loop := .ended }.failPending .peerClosed

/-- `close`, up to where it waits for the loop; with no loop to wait for it goes on. -/
def close (s : JsonRpcTransport) (reason : String) : JsonRpcTransport :=
  if s.closed then s
  else if s.loop = .reading then
    { s with
      closed := true
      closing := some reason }
  else { s with closed := true }.failPending (.closed reason)

/-- What an action does; `none` where it cannot happen. -/
def step (json : JsonText) (s : JsonRpcTransport) : RpcAction → Option JsonRpcTransport
  | .start => some (if s.loop = .idle ∧ s.closed = false then { s with loop := .reading } else s)
  | .request id method params timeout writer =>
    -- The id is a new one.
    match s.calls.get? id with
    | some _ => none
    | none => some (s.request json id method params timeout writer)
  | .notify method params writer => some (s.write json (notificationFrame method params) writer).1
  | .resume id =>
    match s.calls.get? id with
    | none => none
    | some call =>
      match call.ended, call.outcome with
      | none, some completion => some (s.putCall id (call.finish completion))
      | _, _ => none
  | .interrupt id cause =>
    match s.calls.get? id with
    | none => none
    | some call =>
      if call.ended.isNone && (cause = .cancel || call.timeout) then some (s.putCall id { call with interrupt := some cause }) else none
  | .line text => if s.loop = .reading then some (s.readLine json text) else none
  | .endOfInput => if s.loop = .reading then some { s with eof := true }.loopEnds else none
  | .readError => if s.loop = .reading then some s.loopEnds else none
  | .readCancelled => if s.loop = .reading then some { s with loop := .cancelled } else none
  | .served place handled writer =>
    match s.serving[place]? with
    | none => none
    | some serving =>
      let s' := { s with serving := s.serving.eraseIdx place }
      match handled.frame serving.requestId with
      | none => some s'
      | some frame => some (s'.write json frame writer).1
  | .close reason => some (s.close reason)
  | .closeGoesOn =>
    match s.closing with
    | none => none
    | some reason => some ({ s with closing := none }.failPending (.closed reason))

end JsonRpcTransport

end Pydsh
