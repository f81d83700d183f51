import Pydsh.Gateway.Server

/-!
# Connections are released

The handler of a client looks only at `closed` and `eof` of the transport. The loop sets `eof` where the reader gives `None`; but where
the reader raises, as it does on a frame that is too large, or is cancelled by the socket, or where a line cannot be parsed and the loop
dies, neither is set: the handler polls for ever, and the entry of the client stays (`gateway_releases`).
-/

namespace Pydsh

namespace JsonRpcTransport

variable {json : JsonText} {s s' : JsonRpcTransport}

/-- What is done at an endpoint besides reading and closing leaves its loop and its flags. -/
theorem quiet_step {a : RpcAction} (hquiet : a.quiet = true) (hstep : s.step json a = some s') :
    s'.loop = s.loop ∧ s'.closed = s.closed ∧ s'.eof = s.eof := by
  have hwrite : ∀ (t : JsonRpcTransport) frame writer, (t.write json frame writer).1.loop = t.loop ∧
      (t.write json frame writer).1.closed = t.closed ∧ (t.write json frame writer).1.eof = t.eof := by
    intro t frame writer
    rcases write_cases json t frame writer with ⟨error, -, heq⟩ | ⟨-, error, -, heq⟩ | ⟨-, -, heq⟩
    · rw [heq]
      exact ⟨rfl, rfl, rfl⟩
    · rw [heq]
      exact ⟨rfl, rfl, rfl⟩
    · rw [heq]
      exact ⟨rfl, rfl, rfl⟩
  cases a with
  | request id method params timeout writer =>
    simp only [step] at hstep
    split at hstep
    · cases hstep
    · obtain rfl := Option.some.inj hstep
      rcases request_cases json s id method params timeout writer with
        ⟨-, heq⟩ | ⟨-, error, -, heq⟩ | ⟨-, -, error, -, heq⟩ | ⟨-, -, -, heq⟩
      · rw [heq]
        exact ⟨rfl, rfl, rfl⟩
      · rw [heq]
        exact ⟨rfl, rfl, rfl⟩
      · rw [heq]
        exact ⟨rfl, rfl, rfl⟩
      · rw [heq]
        exact ⟨rfl, rfl, rfl⟩
  | notify method params writer =>
    obtain rfl := Option.some.inj hstep
    exact hwrite s _ writer
  | resume id =>
    obtain ⟨call, completion, -, -, -, rfl⟩ := resume_cases hstep
    exact ⟨rfl, rfl, rfl⟩
  | interrupt id cause =>
    obtain ⟨call, -, -, -, rfl⟩ := interrupt_cases hstep
    exact ⟨rfl, rfl, rfl⟩
  | served place handled writer =>
    obtain ⟨serving, -, ⟨-, rfl⟩ | ⟨frame, -, rfl⟩⟩ := served_cases hstep
    · exact ⟨rfl, rfl, rfl⟩
    · exact hwrite _ frame writer
  | closeGoesOn =>
    simp only [step] at hstep
    split at hstep
    · cases hstep
    · obtain rfl := Option.some.inj hstep
      exact ⟨rfl, rfl, rfl⟩
  | _ => cases hquiet

theorem eof_handle (s : JsonRpcTransport) (frame : PyDict) : (s.handle frame).eof = s.eof := by
  unfold handle
  split
  · rfl
  · unfold resolve
    split
    · split <;> rfl
    · rfl
  · rfl

theorem eof_readLine (s : JsonRpcTransport) (text : String) : (s.readLine json text).eof = s.eof := by
  have hagain : ∀ t : JsonRpcTransport, t.again.eof = t.eof := by
    intro t
    unfold again
    split <;> rfl
  unfold readLine
  split
  · exact hagain s
  · split
    · exact (hagain _).trans (eof_handle s _)
    · exact hagain s
    · exact hagain s
    · rfl

theorem closed_close (s : JsonRpcTransport) (reason : String) : (s.close reason).closed = true := by
  unfold close
  split
  · assumption
  · split <;> rfl

theorem loop_close (s : JsonRpcTransport) (reason : String) : (s.close reason).loop = s.loop ∧ (s.close reason).eof = s.eof := by
  unfold close
  split
  · exact ⟨rfl, rfl⟩
  · split <;> exact ⟨rfl, rfl⟩

end JsonRpcTransport

/-- What a client's loop receives that ends it unseen: a frame that is too large, or has no UTF-8 form; a cancellation; or a line that
cannot be read. -/
inductive Lost (env : GatewayEnv) (r : Received) : Prop where
  | tooLarge {frame : String} (hframe : env.frame r = some frame) (hsize : env.maxFrameBytes < frame.utf8ByteSize)
  | unencodable (heq : r = .unencodable)
  | cancelled (heq : r = .cancelled)
  | unreadable {frame : String} (hframe : env.frame r = some frame) (hsize : frame.utf8ByteSize ≤ env.maxFrameBytes)
    (hline : (RpcAction.line frame).Unreadable env.json)

namespace Gateway

variable {env : GatewayEnv} {s s' : Gateway}

/-- A step loses a client: its loop ends, and nothing says so to its handler. -/
inductive Loses (env : GatewayEnv) (s : Gateway) : GatewayAction → Prop where
  | receive {index : Nat} {client : GatewayClient} {r : Received} (hclient : s.clients.get? index = some client)
    (hheld : client.held = true) (hadapter : client.adapterClosed = false) (hlost : Lost env r) : Loses env s (.receive index r)

/-- Every client that is held is read, or its end is there to be seen. -/
def Seen (s : Gateway) : Prop :=
  ∀ index client, s.clients.get? index = some client → client.held = true →
    client.transport.loop = .reading ∨ client.transport.eof = true

end Gateway

/-- What a client is in any run. -/
structure GatewayClient.Kept (client : GatewayClient) : Prop where
  held : client.held = true → client.transport.closed = false ∧ client.handler = .polling
  released : client.held = false → client.transport.closed = true ∧ client.server.shutDown = true
  reading : client.transport.loop = .reading → client.transport.eof = false

namespace GatewayClient

variable {client : GatewayClient}

theorem shutDown_shutdown (server : RuntimeServer) : server.shutdown.shutDown = true := by
  unfold RuntimeServer.shutdown
  split
  · assumption
  · rfl

/-- The entry of a client is taken out, and its server and transport are closed. -/
theorem Kept.letGo (h : client.Kept) (reason : String) (handler : ClientHandler) :
    ({ client.letGo reason with handler } : GatewayClient).Kept := by
  obtain ⟨hloop, heof⟩ := client.transport.loop_close reason
  refine ⟨?_, ?_, ?_⟩
  · rintro ⟨⟩
  · intro _
    exact ⟨client.transport.closed_close reason, shutDown_shutdown client.server⟩
  · intro hreading
    exact heof.trans (h.reading (hloop.symm.trans hreading))

theorem Kept.release (h : client.Kept) : client.release.Kept := by
  unfold GatewayClient.release
  split
  · exact h.letGo "the client disconnected" _
  · rename_i hnot
    refine ⟨?_, h.released, h.reading⟩
    intro hheld
    exact absurd hheld hnot

theorem held_release (client : GatewayClient) : client.release.held = false := by
  unfold GatewayClient.release
  split
  · rfl
  · rename_i hnot
    simpa using hnot

end GatewayClient

namespace Gateway

variable {env : GatewayEnv} {s s' : Gateway}

/-- Every client is kept. -/
def AllKept (s : Gateway) : Prop := ∀ index client, s.clients.get? index = some client → client.Kept

theorem AllKept.put (h : s.AllKept) {index : Nat} {client : GatewayClient} (hset : s'.clients = s.clients.set index client)
    (hclient : client.Kept) : s'.AllKept := by
  intro other found hget
  rw [hset, Dict.get?_set] at hget
  split at hget
  · cases hget
    exact hclient
  · exact h other found hget

theorem Seen.put (h : s.Seen) {index : Nat} {client : GatewayClient} (hset : s'.clients = s.clients.set index client)
    (hclient : client.held = true → client.transport.loop = .reading ∨ client.transport.eof = true) : s'.Seen := by
  intro other found hget
  rw [hset, Dict.get?_set] at hget
  split at hget
  · cases hget
    exact hclient
  · exact h other found hget

/-- What the adapter reads: nothing more, when it is closed; a frame that is too large, or a line; what it cannot measure; a cancellation;
or the end. -/
theorem read_cases (env : GatewayEnv) (closed : Bool) (r : Received) :
    (closed = true ∧ env.read closed r = (true, .endOfInput)) ∨
    (closed = false ∧ ((∃ frame, env.frame r = some frame ∧
        ((env.maxFrameBytes < frame.utf8ByteSize ∧ env.read closed r = (true, .raises)) ∨
          (frame.utf8ByteSize ≤ env.maxFrameBytes ∧ env.read closed r = (false, .line frame)))) ∨
      (r = .unencodable ∧ env.read closed r = (false, .raises)) ∨
      (r = .cancelled ∧ env.read closed r = (false, .cancelled)) ∨
      ((r = .nothing ∨ r = .raised) ∧ env.read closed r = (true, .endOfInput)))) := by
  cases closed with
  | true => exact Or.inl ⟨rfl, rfl⟩
  | false =>
    right
    refine ⟨rfl, ?_⟩
    have hframe : ∀ frame, env.frame r = some frame →
        ((env.maxFrameBytes < frame.utf8ByteSize ∧ env.read false r = (true, .raises)) ∨
          (frame.utf8ByteSize ≤ env.maxFrameBytes ∧ env.read false r = (false, .line frame))) := by
      intro frame hframe
      simp only [GatewayEnv.read, hframe, Bool.false_eq_true, if_false]
      by_cases hsize : env.maxFrameBytes < frame.utf8ByteSize
      · exact Or.inl ⟨hsize, if_pos hsize⟩
      · exact Or.inr ⟨Nat.le_of_not_lt hsize, if_neg hsize⟩
    cases r with
    | text frame => exact Or.inl ⟨frame, rfl, hframe frame rfl⟩
    | bytes frame => exact Or.inl ⟨env.decode frame, rfl, hframe _ rfl⟩
    | unencodable => exact Or.inr (Or.inl ⟨rfl, rfl⟩)
    | nothing => exact Or.inr (Or.inr (Or.inr ⟨Or.inl rfl, rfl⟩))
    | raised => exact Or.inr (Or.inr (Or.inr ⟨Or.inr rfl, rfl⟩))
    | cancelled => exact Or.inr (Or.inr (Or.inl ⟨rfl, rfl⟩))

theorem loop_loopEnds (t : JsonRpcTransport) : t.loopEnds.loop = .ended ∧ t.loopEnds.eof = t.eof ∧ t.loopEnds.closed = t.closed := by
  unfold JsonRpcTransport.loopEnds
  split <;> exact ⟨rfl, rfl, rfl⟩

/-- What a loop makes of what the socket gives: it goes on reading, or its end is to be seen, exactly if it is not lost. -/
theorem received_cases {client : GatewayClient} (hkept : client.Kept) (hheld : client.held = true) {r : Received}
    {transport : JsonRpcTransport}
    (hstep : client.transport.step env.json (env.read client.adapterClosed r).2.action = some transport) :
    (transport.loop = .reading ∨ transport.eof = true) ↔ ¬ (client.adapterClosed = false ∧ Lost env r) := by
  obtain ⟨hopen, -⟩ := hkept.held hheld
  have hraises : client.transport.step env.json .readError = some transport → ¬ (transport.loop = .reading ∨ transport.eof = true) := by
    intro hends
    obtain ⟨hreading, hnext⟩ := Option.ite_none_right_eq_some.mp hends
    obtain rfl := Option.some.inj hnext
    obtain ⟨hloop, heof, -⟩ := loop_loopEnds client.transport
    rw [hloop, heof, hkept.reading hreading]
    simp
  have hends : client.transport.step env.json .endOfInput = some transport → transport.eof = true := by
    intro hends
    obtain ⟨hreading, hnext⟩ := Option.ite_none_right_eq_some.mp hends
    obtain rfl := Option.some.inj hnext
    exact (loop_loopEnds _).2.1
  rcases read_cases env client.adapterClosed r with ⟨hclosed, heq⟩ | ⟨hclosed, hcases⟩
  · rw [heq] at hstep
    exact iff_of_true (Or.inr (hends hstep)) (by simp [hclosed])
  · rcases hcases with ⟨frame, hframe, ⟨hsize, heq⟩ | ⟨hsize, heq⟩⟩ | ⟨hr, heq⟩ | ⟨hr, heq⟩ | ⟨hr, heq⟩
    · rw [heq] at hstep
      exact iff_of_false (hraises hstep) (not_not.mpr ⟨hclosed, .tooLarge hframe hsize⟩)
    · rw [heq] at hstep
      obtain ⟨hreading, hnext⟩ := Option.ite_none_right_eq_some.mp hstep
      obtain rfl := Option.some.inj hnext
      have heof : (client.transport.readLine env.json frame).eof = false :=
        (client.transport.eof_readLine frame).trans (hkept.reading hreading)
      rw [heof, JsonRpcTransport.loop_readLine hopen hreading]
      have hlost : Lost env r ↔ (RpcAction.line frame).Unreadable env.json := by
        constructor
        · rintro (⟨hframe', hsize'⟩ | hr | hr | ⟨hframe', -, hline⟩)
          · obtain rfl := Option.some.inj (hframe.symm.trans hframe')
            exact absurd hsize' (Nat.not_lt_of_le hsize)
          · rw [hr] at hframe
            cases hframe
          · rw [hr] at hframe
            cases hframe
          · obtain rfl := Option.some.inj (hframe.symm.trans hframe')
            exact hline
        · intro hline
          exact .unreadable hframe hsize hline
      simp [hclosed, hlost]
    · rw [heq] at hstep
      exact iff_of_false (hraises hstep) (not_not.mpr ⟨hclosed, .unencodable hr⟩)
    · rw [heq] at hstep
      obtain ⟨hreading, hnext⟩ := Option.ite_none_right_eq_some.mp hstep
      obtain rfl := Option.some.inj hnext
      refine iff_of_false ?_ (not_not.mpr ⟨hclosed, .cancelled hr⟩)
      simp [hkept.reading hreading]
    · rw [heq] at hstep
      refine iff_of_true (Or.inr (hends hstep)) ?_
      rintro ⟨-, hlost⟩
      have hnone : env.frame r = none := by rcases hr with rfl | rfl <;> rfl
      rcases hlost with ⟨hframe, -⟩ | hr' | hr' | ⟨hframe, -, -⟩
      · rw [hnone] at hframe
        cases hframe
      · rcases hr with rfl | rfl <;> cases hr'
      · rcases hr with rfl | rfl <;> cases hr'
      · rw [hnone] at hframe
        cases hframe

theorem kept_received {client : GatewayClient} (hkept : client.Kept) {action : RpcAction} {transport : JsonRpcTransport}
    (haction : action = .endOfInput ∨ action = .readError ∨ action = .readCancelled ∨ ∃ text, action = .line text)
    (hstep : client.transport.step env.json action = some transport) (adapterClosed : Bool) :
    ({ client with
      transport
      adapterClosed } : GatewayClient).Kept := by
  suffices hflags : transport.closed = client.transport.closed ∧ (transport.loop = .reading → transport.eof = false) by
    refine ⟨?_, ?_, hflags.2⟩
    · intro hheld
      obtain ⟨hopen, hhandler⟩ := hkept.held hheld
      exact ⟨hflags.1.trans hopen, hhandler⟩
    · intro hheld
      obtain ⟨hclosed, hshut⟩ := hkept.released hheld
      exact ⟨hflags.1.trans hclosed, hshut⟩
  rcases haction with rfl | rfl | rfl | ⟨text, rfl⟩
  · obtain ⟨-, hnext⟩ := Option.ite_none_right_eq_some.mp hstep
    obtain rfl := Option.some.inj hnext
    obtain ⟨hloop, -, hclosed⟩ := loop_loopEnds { client.transport with eof := true }
    exact ⟨hclosed, by simp [hloop]⟩
  · obtain ⟨-, hnext⟩ := Option.ite_none_right_eq_some.mp hstep
    obtain rfl := Option.some.inj hnext
    obtain ⟨hloop, -, hclosed⟩ := loop_loopEnds client.transport
    exact ⟨hclosed, by simp [hloop]⟩
  · obtain ⟨-, hnext⟩ := Option.ite_none_right_eq_some.mp hstep
    obtain rfl := Option.some.inj hnext
    exact ⟨rfl, by simp⟩
  · obtain ⟨hreading, hnext⟩ := Option.ite_none_right_eq_some.mp hstep
    obtain rfl := Option.some.inj hnext
    refine ⟨(JsonRpcTransport.flags_readLine client.transport text).1, ?_⟩
    intro _
    exact (client.transport.eof_readLine text).trans (hkept.reading hreading)

theorem read_action (env : GatewayEnv) (closed : Bool) (r : Received) : (env.read closed r).2.action = .endOfInput ∨
    (env.read closed r).2.action = .readError ∨ (env.read closed r).2.action = .readCancelled ∨
    ∃ text, (env.read closed r).2.action = .line text := by
  cases (env.read closed r).2 with
  | line text => exact Or.inr (Or.inr (Or.inr ⟨text, rfl⟩))
  | endOfInput => exact Or.inl rfl
  | raises => exact Or.inr (Or.inl rfl)
  | cancelled => exact Or.inr (Or.inr (Or.inl rfl))

/-- What a step does to the clients: nothing; one is new, reads, serves, opens a session, shuts down, is released, ends its handler, or is
let go by the closing gateway. -/
inductive Changes (env : GatewayEnv) (s s' : Gateway) : GatewayAction → Prop where
  | none {a : GatewayAction} (hother : ∀ index r, a ≠ .receive index r) (hsame : s'.clients = s.clients) : Changes env s s' a
  | enters {index : Nat} (hset : s'.clients = s.clients.set index {}) : Changes env s s' (.handle index)
  | reads {index : Nat} {r : Received} {client : GatewayClient} {transport : JsonRpcTransport}
    (hclient : s.clients.get? index = some client)
    (htransport : client.transport.step env.json (env.read client.adapterClosed r).2.action = some transport)
    (hset : s'.clients = s.clients.set index { client with
      transport
      adapterClosed := (env.read client.adapterClosed r).1 }) : Changes env s s' (.receive index r)
  | serves {index : Nat} {a : RpcAction} {client : GatewayClient} {transport : JsonRpcTransport}
    (hclient : s.clients.get? index = some client) (hquiet : a.quiet = true)
    (htransport : client.transport.step env.json a = some transport)
    (hset : s'.clients = s.clients.set index { client with transport }) : Changes env s s' (.rpc index a)
  | opens {index : Nat} {sessionId : String} {client : GatewayClient} {server : RuntimeServer}
    (hclient : s.clients.get? index = some client) (hopen : ¬client.server.shutDown = true)
    (hset : s'.clients = s.clients.set index { client with server }) : Changes env s s' (.opens index sessionId)
  | shutsDown {index : Nat} {client : GatewayClient} (hclient : s.clients.get? index = some client)
    (hset : s'.clients = s.clients.set index { client with server := client.server.shutdown }) : Changes env s s' (.shutdown index)
  | releases {a : GatewayAction} {index : Nat} {client : GatewayClient} (hother : ∀ index r, a ≠ .receive index r)
    (hclient : s.clients.get? index = some client) (hset : s'.clients = s.clients.set index client.release) : Changes env s s' a
  | ends {index : Nat} {client : GatewayClient} (hclient : s.clients.get? index = some client)
    (hreleasing : client.handler = .releasing)
    (hset : s'.clients = s.clients.set index { client with handler := .over }) : Changes env s s' (.handlerEnds index)
  | letsGo {index : Nat} {client : GatewayClient} (hclient : s.clients.get? index = some client)
    (hset : s'.clients = s.clients.set index (client.letGo "the gateway is closing")) : Changes env s s' .closeNext

theorem changes_of_step {a : GatewayAction} (hstep : s.step env a = some s') : s.Changes env s' a := by
  cases a with
  | handle index =>
    simp only [step] at hstep
    split at hstep
    · obtain rfl := Option.some.inj hstep
      unfold Gateway.handle
      split
      · exact .none (by simp) rfl
      · split
        · exact .none (by simp) rfl
        · exact .enters rfl
    · cases hstep
  | receive index r =>
    simp only [step] at hstep
    split at hstep
    · cases hstep
    · rename_i hclient
      obtain ⟨transport, htransport, rfl⟩ := Option.map_eq_some_iff.mp hstep
      exact .reads hclient htransport rfl
  | rpc index a =>
    simp only [step] at hstep
    split at hstep
    · cases hstep
    · rename_i hclient
      split at hstep
      · rename_i hquiet
        obtain ⟨transport, htransport, rfl⟩ := Option.map_eq_some_iff.mp hstep
        exact .serves hclient hquiet htransport rfl
      · cases hstep
  | opens index sessionId =>
    simp only [step] at hstep
    split at hstep
    · cases hstep
    · rename_i hclient
      split at hstep
      · obtain rfl := Option.some.inj hstep
        exact .none (by simp) rfl
      · rename_i hopen
        obtain rfl := Option.some.inj hstep
        exact .opens hclient hopen rfl
  | shutdown index =>
    obtain ⟨client, hclient, rfl⟩ := Option.map_eq_some_iff.mp hstep
    exact .shutsDown hclient rfl
  | poll index =>
    simp only [step] at hstep
    split at hstep
    · cases hstep
    · rename_i hclient
      obtain ⟨-, hnext⟩ := Option.ite_none_right_eq_some.mp hstep
      obtain rfl := Option.some.inj hnext
      split
      · exact .releases (by simp) hclient rfl
      · exact .none (by simp) rfl
  | handlerCancelled index =>
    simp only [step] at hstep
    split at hstep
    · cases hstep
    · rename_i hclient
      obtain ⟨-, hnext⟩ := Option.ite_none_right_eq_some.mp hstep
      obtain rfl := Option.some.inj hnext
      exact .releases (by simp) hclient rfl
  | handlerEnds index =>
    simp only [step] at hstep
    split at hstep
    · cases hstep
    · rename_i hclient
      obtain ⟨hreleasing, hnext⟩ := Option.ite_none_right_eq_some.mp hstep
      obtain rfl := Option.some.inj hnext
      exact .ends hclient hreleasing rfl
  | close =>
    simp only [step] at hstep
    split at hstep
    · obtain rfl := Option.some.inj hstep
      exact .none (by simp) rfl
    · obtain rfl := Option.some.inj hstep
      exact .none (by simp) rfl
  | closeNext =>
    simp only [step] at hstep
    split at hstep
    · cases hstep
    · split at hstep
      · cases hstep
      · rename_i hclient
        split at hstep
        · obtain rfl := Option.some.inj hstep
          exact .letsGo hclient rfl
        · obtain rfl := Option.some.inj hstep
          exact .none (by simp) rfl
  | closeCancelled =>
    obtain rfl := Option.some.inj hstep
    exact .none (by simp) rfl

theorem AllKept.step (h : s.AllKept) {a : GatewayAction} (hstep : s.step env a = some s') : s'.AllKept := by
  cases changes_of_step hstep with
  | none _ hsame =>
    intro index client hclient
    exact h index client (hsame ▸ hclient)
  | enters hset =>
    refine h.put hset ⟨?_, ?_, ?_⟩
    · intro _
      exact ⟨rfl, rfl⟩
    · rintro ⟨⟩
    · intro _
      rfl
  | reads hclient htransport hset => exact h.put hset (kept_received (h _ _ hclient) (read_action env _ _) htransport _)
  | serves hclient hquiet htransport hset =>
    have hkept := h _ _ hclient
    obtain ⟨hloop, hclosed, heof⟩ := JsonRpcTransport.quiet_step hquiet htransport
    refine h.put hset ⟨?_, ?_, ?_⟩
    · intro hheld
      exact ⟨hclosed.trans (hkept.held hheld).1, (hkept.held hheld).2⟩
    · intro hheld
      exact ⟨hclosed.trans (hkept.released hheld).1, (hkept.released hheld).2⟩
    · intro hreading
      exact heof.trans (hkept.reading (hloop.symm.trans hreading))
  | opens hclient hopen hset =>
    have hkept := h _ _ hclient
    refine h.put hset ⟨hkept.held, ?_, hkept.reading⟩
    intro hheld
    exact absurd (hkept.released hheld).2 hopen
  | shutsDown hclient hset =>
    have hkept := h _ _ hclient
    refine h.put hset ⟨hkept.held, ?_, hkept.reading⟩
    intro hheld
    exact ⟨(hkept.released hheld).1, GatewayClient.shutDown_shutdown _⟩
  | releases _ hclient hset => exact h.put hset (h _ _ hclient).release
  | ends hclient hreleasing hset =>
    have hkept := h _ _ hclient
    refine h.put hset ⟨?_, hkept.released, hkept.reading⟩
    intro hheld
    have hpolling := (hkept.held hheld).2
    rw [hreleasing] at hpolling
    cases hpolling
  | letsGo hclient hset => exact h.put hset ((h _ _ hclient).letGo "the gateway is closing" _)

theorem not_loses {a : GatewayAction} (hreceive : ∀ index r, a ≠ .receive index r) : ¬ Loses env s a := by
  intro hloses
  cases hloses with
  | receive _ _ _ _ => exact hreceive _ _ rfl

/-- A step leaves every client that is held read, or its end to be seen, exactly if it loses none. -/
theorem Seen.step (h : s.Seen) (hkept : s.AllKept) {a : GatewayAction} (hstep : s.step env a = some s') :
    s'.Seen ↔ ¬ Loses env s a := by
  cases changes_of_step hstep with
  | none hother hsame =>
    refine iff_of_true ?_ (not_loses hother)
    intro index client hclient
    exact h index client (hsame ▸ hclient)
  | enters hset => exact iff_of_true (h.put hset (fun _ => Or.inl rfl)) (not_loses (by simp))
  | @reads index r client transport hclient htransport hset =>
    have hloses : Loses env s (.receive index r) ↔ client.held = true ∧ client.adapterClosed = false ∧ Lost env r := by
      constructor
      · rintro ⟨hclient', hheld, hadapter, hlost⟩
        obtain rfl := Option.some.inj (hclient.symm.trans hclient')
        exact ⟨hheld, hadapter, hlost⟩
      · rintro ⟨hheld, hadapter, hlost⟩
        exact .receive hclient hheld hadapter hlost
    rw [hloses]
    constructor
    · rintro hseen ⟨hheld, hlost⟩
      have hafter := Dict.get?_set_self s.clients index { client with
        transport
        adapterClosed := (env.read client.adapterClosed r).1 }
      rw [← hset] at hafter
      have hgoes := hseen index _ hafter hheld
      exact (received_cases (hkept index client hclient) hheld htransport).mp hgoes hlost
    · intro hnot
      refine h.put hset ?_
      intro hheld
      exact (received_cases (hkept index client hclient) hheld htransport).mpr (fun hlost => hnot ⟨hheld, hlost⟩)
  | serves hclient hquiet htransport hset =>
    obtain ⟨hloop, -, heof⟩ := JsonRpcTransport.quiet_step hquiet htransport
    refine iff_of_true (h.put hset ?_) (not_loses (by simp))
    intro hheld
    rw [hloop, heof]
    exact h _ _ hclient hheld
  | @opens index _ client server hclient _ hset => exact iff_of_true (h.put hset (h index client hclient)) (not_loses (by simp))
  | @shutsDown index client hclient hset => exact iff_of_true (h.put hset (h index client hclient)) (not_loses (by simp))
  | @releases _ _ client hother hclient hset =>
    refine iff_of_true (h.put hset ?_) (not_loses hother)
    intro hheld
    exact absurd (client.held_release.symm.trans hheld) Bool.false_ne_true
  | @ends index client hclient _ hset => exact iff_of_true (h.put hset (h index client hclient)) (not_loses (by simp))
  | letsGo hclient hset =>
    refine iff_of_true (h.put hset ?_) (not_loses (by simp))
    rintro ⟨⟩

/-! ## How many there are -/

/-- The clients whose frames are being read. -/
def readCount (s : Gateway) : Nat := (s.clients.having GatewayClient.isRead).length

/-- The clients that are held and whose input is at its end, which their handlers have not looked at yet. -/
def endedCount (s : Gateway) : Nat := (s.clients.having (fun client => client.held && client.transport.eof)).length

theorem isRead_eq {client : GatewayClient} (hkept : client.Kept)
    (hseen : client.held = true → client.transport.loop = .reading ∨ client.transport.eof = true) :
    client.isRead = (client.held && !client.transport.eof) := by
  unfold GatewayClient.isRead
  cases hheld : client.held with
  | true =>
    rw [(hkept.held hheld).1]
    by_cases hreading : client.transport.loop = .reading
    · simp [hreading, hkept.reading hreading]
    · simp [hreading, (hseen hheld).resolve_left hreading]
  | false =>
    rw [(hkept.released hheld).1]
    simp

/-- The entries of the table are of clients that are read, or at the end of their input. -/
theorem Seen.count (h : s.Seen) (hkept : s.AllKept) : s.connectionCount = s.readCount + s.endedCount := by
  have hread : s.clients.having GatewayClient.isRead = s.clients.having (fun client => client.held && !client.transport.eof) := by
    refine List.filter_congr ?_
    rintro ⟨index, client⟩ hentry
    have hclient := Dict.get?_eq_some.mpr hentry
    exact isRead_eq (hkept index client hclient) (h index client hclient)
  have hsplit := List.length_eq_length_filter_add (l := s.clients.having GatewayClient.held) (fun entry => entry.2.transport.eof)
  unfold connectionCount readCount endedCount
  rw [hread, hsplit]
  simp only [Dict.having, List.filter_filter, Bool.and_comm]
  omega

/-- A client that the gateway let go: its entry is out, its server shut down and its transport closed. -/
structure LetGo (client : GatewayClient) : Prop where
  held : client.held = false
  server : client.server.shutDown = true
  transport : client.transport.closed = true

theorem AllKept.letGo (h : s.AllKept) {index : Nat} {client : GatewayClient} (hclient : s.clients.get? index = some client)
    (hheld : client.held = false) : LetGo client :=
  ⟨hheld, ((h index client hclient).released hheld).2, ((h index client hclient).released hheld).1⟩

/-- The handler looks at a transport that is closed or at its end, and lets the client go. -/
theorem poll_releases (hkept : s.AllKept) {index : Nat} {client : GatewayClient} (hclient : s.clients.get? index = some client)
    (hpolling : client.handler = .polling) (hends : client.transport.closed = true ∨ client.transport.eof = true) :
    ∃ s', s.step env (.poll index) = some s' ∧ s'.clients.get? index = some client.release ∧ LetGo client.release := by
  have hstep : s.step env (.poll index) = some (s.putClient index client.release) := by
    simp only [Gateway.step, hclient, hpolling, if_true]
    rw [if_pos]
    simpa using hends
  have hafter : (s.putClient index client.release).clients.get? index = some client.release := Dict.get?_set_self _ _ _
  exact ⟨_, hstep, hafter, (hkept.step hstep).letGo hafter client.held_release⟩

/-- The handler of a client that was let go is over, or ends when it goes on. -/
theorem AllKept.handler_ends (h : s.AllKept) {index : Nat} {client : GatewayClient} (hclient : s.clients.get? index = some client)
    (hheld : client.held = false) : client.handler = .over ∨ ∃ a s' client', (a = .poll index ∨ a = .handlerEnds index) ∧
      s.step env a = some s' ∧ s'.clients.get? index = some client' ∧ client'.handler = .over := by
  cases hhandler : client.handler with
  | polling =>
    right
    have hclosed := (h.letGo hclient hheld).transport
    have hpoll : ∃ s', s.step env (.poll index) = some s' ∧ s'.clients.get? index = some client.release ∧ LetGo client.release :=
      poll_releases h hclient hhandler (Or.inl hclosed)
    obtain ⟨s', hstep, hafter, -⟩ := hpoll
    refine ⟨_, s', client.release, Or.inl rfl, hstep, hafter, ?_⟩
    unfold GatewayClient.release
    rw [if_neg (by simp [hheld])]
  | releasing =>
    right
    refine ⟨.handlerEnds index, s.putClient index { client with handler := .over }, _, Or.inr rfl, ?_, Dict.get?_set_self _ _ _, rfl⟩
    simp only [Gateway.step, hclient, hhandler, if_true]
  | «over» => exact Or.inl rfl

/-- The handler of a client that is at the end of its input is over when it has let the client go. -/
theorem release_over {client : GatewayClient} (hkept : client.Kept) (heof : client.transport.eof = true) : client.release.handler = .over := by
  unfold GatewayClient.release
  split
  · refine if_neg ?_
    intro hreading
    exact Bool.false_ne_true ((hkept.reading hreading).symm.trans heof)
  · rfl

/-- The limit refuses a client exactly if so many clients are read, or about to be let go. -/
theorem handle_refuses {index : Nat} (hopen : s.closed = false) (hstep : s.step env (.handle index) = some s') :
    s'.clients.get? index = none ↔ env.maxConnections ≤ s.connectionCount := by
  simp only [Gateway.step] at hstep
  split at hstep
  · rename_i hnew
    obtain rfl := Option.some.inj hstep
    unfold Gateway.handle
    rw [hopen]
    simp only [Bool.false_eq_true, if_false]
    split
    · rename_i hfull
      exact iff_of_true hnew hfull
    · rename_i hroom
      refine iff_of_false ?_ hroom
      simp [putClient]
  · cases hstep

theorem kept_start : ({} : Gateway).AllKept := by
  rintro index client ⟨⟩

theorem seen_start : ({} : Gateway).Seen := by
  rintro index client ⟨⟩

end Gateway

open Gateway in
/-- In every run in which no step loses a client, each client of the table is read, or at the end of its input, and then its handler's next
look lets it go and ends the handler; one that is out of the table was let go, and its handler is over, or ends when it goes on. So the
table has as many entries as clients are read, or are at the end and not looked at yet, and the limit refuses a client exactly if there are
so many. The next step keeps every client seen exactly if it loses none. -/
theorem gateway_releases (env : GatewayEnv) (s : Gateway) (hreach : Machine.Reach (Gateway.step env) (fun s a => ¬ Loses env s a) {} s) :
    (∀ index client, s.clients.get? index = some client → client.held = true →
      client.isRead = true ∨ ∃ s' client', s.step env (.poll index) = some s' ∧ s'.clients.get? index = some client' ∧ LetGo client' ∧
        client'.handler = .over) ∧
    (∀ index client, s.clients.get? index = some client → client.held = false →
      LetGo client ∧ (client.handler = .over ∨ ∃ a s' client', (a = .poll index ∨ a = .handlerEnds index) ∧ s.step env a = some s' ∧
        s'.clients.get? index = some client' ∧ client'.handler = .over)) ∧
    s.connectionCount = s.readCount + s.endedCount ∧
    (∀ index s', s.closed = false → s.step env (.handle index) = some s' →
      (s'.clients.get? index = none ↔ env.maxConnections ≤ s.readCount + s.endedCount)) ∧
    ∀ a s', s.step env a = some s' → (s'.Seen ↔ ¬ Loses env s a) := by
  obtain ⟨hkept, hseen⟩ := hreach.invariant (P := fun s => s.AllKept ∧ s.Seen) ⟨kept_start, seen_start⟩ (by
    rintro s a s' ⟨hkept, hseen⟩ hnot hstep
    exact ⟨hkept.step hstep, (hseen.step hkept hstep).mpr hnot⟩)
  have hcount := hseen.count hkept
  refine ⟨?_, ?_, hcount, ?_, ?_⟩
  · intro index client hclient hheld
    have hthis := hkept index client hclient
    rw [isRead_eq hthis (hseen index client hclient), hheld]
    cases heof : client.transport.eof with
    | false => exact Or.inl rfl
    | true =>
      right
      obtain ⟨s', hstep, hafter, hletGo⟩ := poll_releases hkept hclient (hthis.held hheld).2 (Or.inr heof)
      exact ⟨s', client.release, hstep, hafter, hletGo, release_over hthis heof⟩
  · intro index client hclient hheld
    exact ⟨hkept.letGo hclient hheld, hkept.handler_ends hclient hheld⟩
  · intro index s' hopen hstep
    rw [handle_refuses hopen hstep, hcount]
  · intro a s' hstep
    exact hseen.step hkept hstep

/-- A gateway for one client, whose frames may have four bytes, and whose lines are all noise. -/
def smallGateway : GatewayEnv where
  maxConnections := 1
  maxFrameBytes := 4
  decode _ := ""
  json :=
    { loads _ := .decodeError
      refuses _ := none }

open Gateway in
/-- A frame of noise, and the end of the input: the handler's next look lets the client go. -/
theorem gateway_releases_peer : ∃ s, Machine.exec (Gateway.step smallGateway) {} [.handle 0, .receive 0 (.text "hi"), .receive 0 .nothing] =
      some s ∧ s.connectionCount = 1 ∧ s.readCount = 0 ∧
    ∃ s' client', s.step smallGateway (.poll 0) = some s' ∧ s'.clients.get? 0 = some client' ∧ LetGo client' ∧
      client'.handler = .over := by
  have hreach : Machine.Reach (Gateway.step smallGateway) (fun s a => ¬ Loses smallGateway s a) {}
      ((Machine.exec (Gateway.step smallGateway) {} [.handle 0, .receive 0 (.text "hi"), .receive 0 .nothing]).getD {}) := by
    refine .next (.receive 0 .nothing) (.next (.receive 0 (.text "hi")) (.next (.handle 0) .start ?_ rfl) ?_ rfl) ?_ rfl
    · exact not_loses (by simp)
    · rintro ⟨-, -, -, ⟨hframe, hsize⟩ | heq | heq | ⟨hframe, -, ⟨text, -, -, hraises⟩⟩⟩
      · cases hframe
        exact absurd hsize (by decide +kernel)
      · cases heq
      · cases heq
      · cases hraises
    · rintro ⟨-, -, -, ⟨hframe, -⟩ | heq | heq | ⟨hframe, -, -⟩⟩
      · cases hframe
      · cases heq
      · cases heq
      · cases hframe
  refine ⟨_, rfl, rfl, rfl, ?_⟩
  refine ((gateway_releases smallGateway _ hreach).1 0 _ rfl rfl).resolve_left ?_
  exact fun hread => Bool.false_ne_true hread

open Gateway in
/-- A frame that is too large ends the loop of the only client: nobody is read, but the client's entry stays however often its handler
looks, its server and transport are open, and another client is refused. -/
theorem large_frame_kept : ∃ s client, Machine.exec (Gateway.step smallGateway) {} [.handle 0, .receive 0 (.text "large")] = some s ∧
    s.clients.get? 0 = some client ∧ client.transport.loop = .ended ∧ s.readCount = 0 ∧ s.connectionCount = 1 ∧
    client.server.shutDown = false ∧ client.transport.closed = false ∧ s.step smallGateway (.poll 0) = some s ∧
    (s.step smallGateway (.handle 1)).map Gateway.refused = some [(1, "this gateway is at its connection limit")] :=
  ⟨_, _, rfl, rfl, rfl, rfl, rfl, rfl, rfl, rfl, rfl⟩

end Pydsh
