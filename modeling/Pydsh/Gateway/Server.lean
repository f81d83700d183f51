import Pydsh.Lib.Machine
import Pydsh.Runtime.Forwarding
import Pydsh.Runtime.Reading

/-!
# The gateway

`gateway/server.py` and `gateway/connection.py`: each client gets a transport of its own over its socket, and a server over that; the
gateway's table has an entry for it while it is served. The adapter turns what the socket receives into lines; the transport's loop reads
them; and the handler of the client looks now and then whether the transport is closed or at the end of its input, and then releases what
the client held.
-/

namespace Pydsh

/-- What `recv` of a socket gives: a frame, of text or of bytes; a value that has no UTF-8 form; `None`; or it raises, or is cancelled. -/
inductive Received where
  | text (frame : String)
  | bytes (frame : List UInt8)
  | unencodable
  | nothing
  | raised
  | cancelled

/-- What `read` of the adapter gives. -/
inductive FrameRead where
  | line (text : String)
  | endOfInput
  | raises
  | cancelled

/-- A gateway's limits, and what Python does with the text of frames; `decode` puts replacements where bytes are no UTF-8. -/
structure GatewayEnv where
  maxConnections : Nat
  maxFrameBytes : Nat
  decode : List UInt8 → String
  json : JsonText

namespace GatewayEnv

/-- The text of a frame. -/
def frame (env : GatewayEnv) : Received → Option String
  | .text frame => some frame
  | .bytes frame => some (env.decode frame)
  | _ => none

/-- `read` of `connection_io`: the adapter's flag, and what the loop gets. -/
def read (env : GatewayEnv) (closed : Bool) (r : Received) : Bool × FrameRead :=
  if closed then (true, .endOfInput)
  else
    match env.frame r with
    | some frame => if env.maxFrameBytes < frame.utf8ByteSize then (true, .raises) else (false, .line frame)
    | none =>
      match r with
      | .unencodable => (false, .raises)
      | .cancelled => (false, .cancelled)
      | _ => (true, .endOfInput)

end GatewayEnv

/-- What the transport's loop does with what it reads. -/
def FrameRead.action : FrameRead → RpcAction
  | .line text => .line text
  | .endOfInput => .endOfInput
  | .raises => .readError
  | .cancelled => .readCancelled

/-- What happens at an endpoint besides its reading, and its closing by the gateway. -/
def RpcAction.quiet : RpcAction → Bool
  | .request .. | .notify .. | .resume _ | .interrupt .. | .served .. | .closeGoesOn => true
  | _ => false

/-- The handler of a client: it looks at the transport now and then; it awaits the close of the transport; it is over. -/
inductive ClientHandler where
  | polling | releasing | over
  deriving DecidableEq

/-- A client: its transport and server, the adapter's flag, whether the gateway's table has its entry, and its handler. -/
structure GatewayClient where
  transport : JsonRpcTransport := { loop := .reading }
  server : RuntimeServer := {}
  adapterClosed : Bool := false
  held : Bool := true
  handler : ClientHandler := .polling

namespace GatewayClient

/-- The client's frames are being read. -/
def isRead (client : GatewayClient) : Bool := decide (client.transport.loop = .reading) && !client.transport.closed

/-- What `_release` and `close` do with the entry of a client. -/
def letGo (client : GatewayClient) (reason : String) : GatewayClient :=
  { client with
    held := false
    server := client.server.shutdown
    transport := client.transport.close reason }

/-- `_release`, at the end of the handler; it waits for a loop that still reads. -/
def release (client : GatewayClient) : GatewayClient :=
  if client.held then
    { client.letGo "the client disconnected" with handler := if client.transport.loop = .reading then .releasing else .over }
  else { client with handler := .over }

end GatewayClient

/-- A `Gateway`: the clients that it took, the connections that it refused and why, whether it is closed, and the clients that its `close`
has yet to release. -/
structure Gateway where
  clients : Dict Nat GatewayClient := .empty
  refused : List (Nat × String) := []
  closed : Bool := false
  closing : List Nat := []

/-- What happens at a gateway. -/
inductive GatewayAction where
  /-- A client connects. -/
  | handle (client : Nat)
  /-- The loop of a client reads. -/
  | receive (client : Nat) (r : Received)
  /-- Something else happens at a client's endpoint. -/
  | rpc (client : Nat) (a : RpcAction)
  /-- The client's requests: for a session, and to shut down. -/
  | opens (client : Nat) (sessionId : String)
  | shutdown (client : Nat)
  /-- The handler of a client looks at the transport. -/
  | poll (client : Nat)
  | handlerCancelled (client : Nat)
  /-- The handler of a client has waited for the close of the transport, or is cancelled again. -/
  | handlerEnds (client : Nat)
  | close
  | closeNext
  | closeCancelled

namespace Gateway

def putClient (s : Gateway) (index : Nat) (client : GatewayClient) : Gateway := { s with clients := s.clients.set index client }

/-- `connection_count`. -/
def connectionCount (s : Gateway) : Nat := (s.clients.having GatewayClient.held).length

/-- `handle`, up to its loop. -/
def handle (env : GatewayEnv) (s : Gateway) (index : Nat) : Gateway :=
  if s.closed then { s with refused := s.refused ++ [(index, "this gateway is closed")] }
  else if env.maxConnections ≤ s.connectionCount then
    { s with refused := s.refused ++ [(index, "this gateway is at its connection limit")] }
  else s.putClient index {}

/-- What an action does; `none` where it cannot happen. -/
def step (env : GatewayEnv) (s : Gateway) : GatewayAction → Option Gateway
  | .handle index =>
    match s.clients.get? index with
    | none => some (s.handle env index)
    | some _ => none
  | .receive index r =>
    match s.clients.get? index with
    | none => none
    | some client =>
      let (adapterClosed, outcome) := env.read client.adapterClosed r
      (client.transport.step env.json outcome.action).map (fun transport => s.putClient index { client with
        transport
        adapterClosed })
  | .rpc index a =>
    match s.clients.get? index with
    | none => none
    | some client =>
      if a.quiet then (client.transport.step env.json a).map (fun transport => s.putClient index { client with transport }) else none
  | .opens index sessionId =>
    match s.clients.get? index with
    | none => none
    | some client =>
      if client.server.shutDown then some s
      else some (s.putClient index { client with server := { client.server with agents := client.server.agents.set sessionId 0 } })
  | .shutdown index => (s.clients.get? index).map (fun client => s.putClient index { client with server := client.server.shutdown })
  | .poll index =>
    match s.clients.get? index with
    | none => none
    | some client =>
      if client.handler = .polling then
        some (if client.transport.closed || client.transport.eof then s.putClient index client.release else s)
      else none
  | .handlerCancelled index =>
    match s.clients.get? index with
    | none => none
    | some client => if client.handler = .polling then some (s.putClient index client.release) else none
  | .handlerEnds index =>
    match s.clients.get? index with
    | none => none
    | some client => if client.handler = .releasing then some (s.putClient index { client with handler := .over }) else none
  | .close =>
    if s.closed then some s
    else
      some { s with
        closed := true
        closing := (s.clients.having GatewayClient.held).map (·.1) }
  | .closeNext =>
    match s.closing with
    | [] => none
    | index :: rest =>
      match s.clients.get? index with
      | none => none
      | some client =>
        -- The entry is popped: where it is not there any more, `close` raises.
        if client.held then some ({ s with closing := rest }.putClient index (client.letGo "the gateway is closing"))
        else some { s with closing := [] }
  | .closeCancelled => some { s with closing := [] }

end Gateway

end Pydsh
