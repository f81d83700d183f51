import Pydsh.Mcp.Client
import Pydsh.Python.Utf8
import Pydsh.Runtime.Protocol

/-!
# The answer to a POST

`mcp/client.py`, `StreamableHttpTransport`: `send` posts a request, and `_read_response` hands what the server answers to the client. Of
an event stream it hands the object of the first `data:` line that has one, and no more: `return` stands inside the loop. So a message
behind another one is lost, and a request whose response comes after a notification waits out its timeout. The client is given all the
messages of a stream, and its request completes with the response, exactly if the stream has at most one message, the first line that is
read as a message is it, and a response has no error but an object (`sse_answer_delivered`). Of what servers write, the first two are to
have at most one message (`reachedFirst_frames_iff`).

The messages of a stream are told by the format of event streams, not by the reader: an event ends with a blank line, and its data are
its `data` fields, one a line. What `httpx` makes the lines of a body is foreign, and so is what `json` makes of a text.
-/

namespace Pydsh

/-- What `httpx` and `json` make of an answer: `aiter_lines()`, `json.loads` of a text and of bytes, and `repr`. -/
structure Httpx where
  aiterLines : List UInt8 → List String
  loads : String → LineParse
  loadsBytes : List UInt8 → LineParse
  repr : String → String
  reprBytes : List UInt8 → String

/-- An answer to a POST: its status, its `content-type` and its body. -/
structure HttpReply where
  statusCode : Nat
  contentType : Option String
  body : List UInt8

/-- What `_sse_payload` makes of a line; it lets what is no `JSONDecodeError` through. -/
inductive SseLine where
  | payload (payload : PyDict)
  | nothing
  | raises

/-- An exception of `_read_response`: an `McpError`, or another. -/
inductive ResponseError where
  | mcp (message : String)
  | other

/-- What a POST leaves: the client, the messages that were handed to it, and what was raised. -/
structure Posted (ε : Type) where
  client : McpClient
  handed : List PyDict := []
  error : Option ε := none

/-- The rest of a text that begins so. -/
def afterPrefix? (start text : String) : Option String := (start.toList.isPrefixOf? text.toList).map String.ofList

/-- `_sse_payload`. -/
def ssePayload (loads : String → LineParse) (line : String) : SseLine :=
  match afterPrefix? "data:" (pyStrip line) with
  | none => .nothing
  | some rest =>
    let data := pyStrip rest
    if data = "" ∨ data = "[DONE]" then .nothing
    else
      match loads data with
      | .value (.dict payload) => .payload payload
      | .value _ => .nothing
      | .decodeError => .nothing
      | .raises => .raises

namespace HttpReply

/-- `"text/event-stream" in content_type`. -/
def isEventStream (reply : HttpReply) : Bool :=
  decide ("text/event-stream".toList <:+: (reply.contentType.getD "").toList)

end HttpReply

namespace StreamableHttpTransport

/-- `_deliver`, of an object. -/
def deliver (s : McpClient) (payload : PyDict) : Posted ResponseError :=
  match s.onMessage payload with
  | .ok s' => { client := s', handed := [payload] }
  | .error _ => { client := s, handed := [payload], error := some .other }

/-- The loop of `_read_response` over the lines of an event stream. -/
def readLines (loads : String → LineParse) (s : McpClient) : List String → Posted ResponseError
  | [] => { client := s, error := some (.mcp "the MCP SSE response ended before any message") }
  | line :: rest =>
    match ssePayload loads line with
    | .nothing => readLines loads s rest
    | .raises => { client := s, error := some .other }
    | .payload payload => deliver s payload

/-- `_read_response`. -/
def readResponse (http : Httpx) (s : McpClient) (reply : HttpReply) : Posted ResponseError :=
  if reply.isEventStream then readLines http.loads s (http.aiterLines reply.body)
  else if reply.body = [] ∨ reply.statusCode = 202 then { client := s }
  else
    match http.loadsBytes reply.body with
    | .value (.dict payload) => deliver s payload
    | .value _ => { client := s }
    | .decodeError => { client := s, error := some (.mcp ("the MCP response is not JSON: " ++ http.reprBytes (reply.body.take 120))) }
    | .raises => { client := s, error := some .other }

/-- `send`, of a request with this method, where the server answers it so. -/
def send (http : Httpx) (s : McpClient) (method : String) (reply : HttpReply) : Posted String :=
  if 400 ≤ reply.statusCode then
    { client := s
      error := some ("the MCP request failed (HTTP " ++ toString reply.statusCode ++ "): " ++ http.reprBytes (reply.body.take 200)) }
  else
    let read := readResponse http s reply
    { client := read.client
      handed := read.handed
      error := read.error.map (fun error =>
        match error with
        | .mcp message => message
        | .other => "the MCP request " ++ http.repr method ++ " could not be sent") }

end StreamableHttpTransport

/-- `request`, up to the end of its `send`; `none` where it is refused. -/
def McpClient.request (s : McpClient) (http : Httpx) (method : String) (reply : HttpReply) : Option (Posted String) :=
  if s.closed then none
  else (s.step (.request method)).map (fun asked => StreamableHttpTransport.send http asked method reply)

/-! ## The messages of an event stream -/

/-- The lines of a text: they end with a line feed, a carriage return, or both. -/
def streamLines : List Char → List (List Char)
  | [] => [[]]
  | '\r' :: '\n' :: rest => [] :: streamLines rest
  | c :: rest =>
    if c = '\n' ∨ c = '\r' then [] :: streamLines rest
    else
      match streamLines rest with
      | [] => [[c]]
      | line :: lines => (c :: line) :: lines

/-- What a line of an event stream says in a `data` field: what stands behind the colon, and behind one space. -/
def dataField (line : List Char) : Option (List Char) :=
  if line.takeWhile (· ≠ ':') = "data".toList then
    match line.dropWhile (· ≠ ':') with
    | ':' :: ' ' :: value => some value
    | _ :: value => some value
    | [] => some []
  else none

/-- The data of an event, whose `data` fields are these. -/
def eventData (fields : List (List Char)) : List (List Char) := if fields = [] then [] else [['\n'].intercalate fields]

/-- The data of the events in the lines, after the `data` fields of an event that has begun. -/
def streamEvents (fields : List (List Char)) : List (List Char) → List (List Char)
  | [] => eventData fields
  | line :: lines =>
    if line = [] then eventData fields ++ streamEvents [] lines
    else streamEvents (fields ++ (dataField line).toList) lines

/-- A text without a byte order mark at its begin. -/
def withoutMark : List Char → List Char
  | '\uFEFF' :: text => text
  | text => text

/-- The message that a text is. -/
def messageOf (loads : String → LineParse) (text : String) : Option PyDict :=
  match loads text with
  | .value (.dict message) => some message
  | _ => none

/-- The JSON messages of an event stream, in order. -/
def sseMessages (loads : String → LineParse) (body : List UInt8) : List PyDict :=
  (streamEvents [] (streamLines (withoutMark (decodeReplace body)))).filterMap (fun data => messageOf loads (String.ofList data))

/-! ## What is handed on -/

section Payloads

variable {loads : String → LineParse} {line : String}

theorem ssePayload_other (h : afterPrefix? "data:" (pyStrip line) = none) : ssePayload loads line = .nothing := by
  rw [ssePayload, h]

end Payloads

/-- The message of a body, if there is one, is the object of the first line that is read as one. -/
inductive ReachedFirst (loads : String → LineParse) (lines : List String) (messages : List PyDict) : Prop where
  | silent (hnone : messages = [])
  | first {before after : List String} {line : String} {message : PyDict} (hlines : lines = before ++ line :: after)
    (hbefore : ∀ earlier ∈ before, ssePayload loads earlier = .nothing) (hline : ssePayload loads line = .payload message)
    (hone : messages = [message])

/-! ## What a server writes -/

/-- What a server writes into a stream: a comment, or a message on a line of its own. -/
inductive SseFrame where
  | comment (text : String)
  | message (text : String)

namespace SseFrame

/-- The lines of it; a message ends with a blank one. -/
def lines : SseFrame → List String
  | .comment text => [":" ++ text]
  | .message text => ["data: " ++ text, ""]

def text : SseFrame → String
  | .comment text | .message text => text

/-- The JSON message in it. -/
def payload? (loads : String → LineParse) : SseFrame → Option PyDict
  | .comment _ => none
  | .message text => messageOf loads text

/-- The body of an answer. -/
def body (frames : List SseFrame) : List UInt8 :=
  encodeUtf8 ((frames.flatMap lines).flatMap (fun line => line.toList ++ ['\n']))

/-- It is one line; and what it says as a message is no mark, and can be read. -/
structure Plain (loads : String → LineParse) (frame : SseFrame) : Prop where
  line : ∀ c ∈ frame.text.toList, c ≠ '\n' ∧ c ≠ '\r'
  stripped : pyStrip frame.text = frame.text
  marked : frame.text ≠ "" ∧ frame.text ≠ "[DONE]"
  readable : loads frame.text ≠ .raises

end SseFrame

section Frames

variable {loads : String → LineParse} {frame : SseFrame} {frames : List SseFrame}

theorem streamLines_line {line rest : List Char} (h : ∀ c ∈ line, c ≠ '\n' ∧ c ≠ '\r') :
    streamLines (line ++ '\n' :: rest) = line :: streamLines rest := by
  induction line with
  | nil => simp [streamLines]
  | cons c line ih =>
    obtain ⟨hfeed, hreturn⟩ := h c List.mem_cons_self
    have hrest := ih (fun d hd => h d (List.mem_cons_of_mem _ hd))
    rw [List.cons_append, streamLines, hrest]
    · simp [hfeed, hreturn]
    · exact fun _ heq => absurd heq hreturn

theorem streamLines_lines {lines : List (List Char)} (h : ∀ line ∈ lines, ∀ c ∈ line, c ≠ '\n' ∧ c ≠ '\r') :
    streamLines (lines.flatMap (fun line => line ++ ['\n'])) = lines ++ [[]] := by
  induction lines with
  | nil => rfl
  | cons line lines ih =>
    rw [List.flatMap_cons, List.append_assoc, List.singleton_append, streamLines_line (h line List.mem_cons_self),
      ih (fun other hother => h other (List.mem_cons_of_mem _ hother))]
    rfl

theorem streamEvents_frames (frames : List SseFrame) :
    streamEvents [] ((frames.flatMap SseFrame.lines).map String.toList ++ [[]]) =
      frames.filterMap (fun frame =>
        match frame with
        | .comment _ => none
        | .message text => some text.toList) := by
  induction frames with
  | nil => rfl
  | cons frame frames ih =>
    rw [List.flatMap_cons, List.map_append, List.append_assoc]
    cases frame with
    | comment text =>
      rw [List.filterMap_cons, ← ih]
      simp [SseFrame.lines, streamEvents, dataField]
    | message text =>
      rw [List.filterMap_cons, ← ih]
      have hfield : dataField ('d' :: 'a' :: 't' :: 'a' :: ':' :: ' ' :: text.toList) = some text.toList := rfl
      simp [SseFrame.lines, streamEvents, hfield, eventData]

theorem SseFrame.Plain.lines (h : frame.Plain loads) : ∀ line ∈ frame.lines, ∀ c ∈ line.toList, c ≠ '\n' ∧ c ≠ '\r' := by
  have hline := h.line
  cases frame with
  | comment text =>
    intro line hmem c hc
    obtain rfl := List.mem_singleton.mp hmem
    rw [String.toList_append, List.mem_append] at hc
    rcases hc with hc | hc
    · obtain rfl := List.mem_singleton.mp hc
      decide
    · exact hline c hc
  | message text =>
    intro line hmem c hc
    rcases List.mem_cons.mp hmem with rfl | hmem
    · rw [String.toList_append, List.mem_append] at hc
      rcases hc with hc | hc
      · have hlabel : ∀ c ∈ ['d', 'a', 't', 'a', ':', ' '], c ≠ '\n' ∧ c ≠ '\r' := by simp
        exact hlabel c hc
      · exact hline c hc
    · obtain rfl := List.mem_singleton.mp hmem
      exact absurd hc List.not_mem_nil

theorem withoutMark_frames (frames : List SseFrame) :
    withoutMark ((frames.flatMap SseFrame.lines).flatMap (fun line => line.toList ++ ['\n'])) =
      (frames.flatMap SseFrame.lines).flatMap (fun line => line.toList ++ ['\n']) := by
  cases frames with
  | nil => rfl
  | cons frame frames =>
    cases frame with
    | comment text => simp [SseFrame.lines, withoutMark]
    | message text => simp [SseFrame.lines, withoutMark]

/-- The messages of a body that a server writes are those it wrote. -/
theorem sseMessages_body (h : ∀ frame ∈ frames, frame.Plain loads) :
    sseMessages loads (SseFrame.body frames) = frames.filterMap (SseFrame.payload? loads) := by
  have hbreaks : ∀ line ∈ (frames.flatMap SseFrame.lines).map String.toList, ∀ c ∈ line, c ≠ '\n' ∧ c ≠ '\r' := by
    intro line hmem
    obtain ⟨written, hwritten, rfl⟩ := List.mem_map.mp hmem
    obtain ⟨frame, hframe, hline⟩ := List.mem_flatMap.mp hwritten
    exact (h frame hframe).lines written hline
  unfold sseMessages SseFrame.body
  rw [decodeReplace_encodeUtf8, withoutMark_frames, ← List.flatMap_map String.toList (fun line => line ++ ['\n']),
    streamLines_lines hbreaks, streamEvents_frames, List.filterMap_filterMap]
  congr 1
  funext frame
  cases frame with
  | comment text => rfl
  | message text => exact congrArg (messageOf loads) String.ofList_toList

theorem toList_pyStrip (text : String) :
    (pyStrip text).toList = ((text.toList.dropWhile isSpace).reverse.dropWhile isSpace).reverse := String.toList_ofList

theorem dropWhile_of_stripped {text : String} (h : pyStrip text = text) :
    text.toList.dropWhile isSpace = text.toList ∧ text.toList.reverse.dropWhile isSpace = text.toList.reverse := by
  have hlist : ((text.toList.dropWhile isSpace).reverse.dropWhile isSpace).reverse = text.toList := by
    rw [← toList_pyStrip, h]
  have hfront : text.toList.dropWhile isSpace = text.toList := by
    refine (List.dropWhile_suffix isSpace).eq_of_length (Nat.le_antisymm (List.dropWhile_suffix isSpace).length_le ?_)
    have hlength := (List.dropWhile_suffix (l := (text.toList.dropWhile isSpace).reverse) isSpace).length_le
    rw [← List.length_reverse, hlist, List.length_reverse] at hlength
    exact hlength
  refine ⟨hfront, ?_⟩
  rw [hfront] at hlist
  rw [← List.reverse_inj, hlist, List.reverse_reverse]

theorem pyStrip_append {front text : String} {c : Char} {rest : List Char} (hfront : front.toList = c :: rest) (hc : isSpace c = false)
    (htext : pyStrip text = text) (hne : text ≠ "") : pyStrip (front ++ text) = front ++ text := by
  obtain ⟨-, hback⟩ := dropWhile_of_stripped htext
  have hsome : text.toList.reverse ≠ [] := fun hnil => hne (String.toList_inj.mp (List.reverse_eq_nil_iff.mp hnil))
  rw [← String.toList_inj, toList_pyStrip, String.toList_append, hfront, List.cons_append, List.dropWhile_cons_of_neg (by simp [hc]),
    ← List.cons_append, List.reverse_append, List.dropWhile_append, hback, if_neg (by simpa using hsome), ← List.reverse_append,
    List.reverse_reverse]

theorem pyStrip_space {text : String} (htext : pyStrip text = text) : pyStrip (" " ++ text) = text := by
  obtain ⟨hfront, hback⟩ := dropWhile_of_stripped htext
  have hspace : (" " ++ text).toList.dropWhile isSpace = text.toList := by
    rw [String.toList_append]
    exact (List.dropWhile_cons_of_pos (by decide)).trans hfront
  rw [← String.toList_inj, toList_pyStrip, hspace, hback, List.reverse_reverse]

theorem head_pyStrip_comment (text : String) : ∃ rest, (pyStrip (":" ++ text)).toList = ':' :: rest := by
  have hfront : (":" ++ text).toList.dropWhile isSpace = ':' :: text.toList := by
    rw [String.toList_append]
    exact List.dropWhile_cons_of_neg (by decide)
  rw [toList_pyStrip, hfront, List.reverse_cons, List.dropWhile_append]
  split
  · exact ⟨[], rfl⟩
  · exact ⟨_, by rw [List.reverse_append]; rfl⟩

theorem ssePayload_message {text : String} (h : (SseFrame.message text).Plain loads) : ssePayload loads ("data: " ++ text) =
    match loads text with
    | .value (.dict payload) => .payload payload
    | .value _ => .nothing
    | .decodeError => .nothing
    | .raises => .raises := by
  have hmarked : text ≠ "" ∧ text ≠ "[DONE]" := h.marked
  have hline : pyStrip ("data: " ++ text) = "data: " ++ text :=
    pyStrip_append (show "data: ".toList = 'd' :: ['a', 't', 'a', ':', ' '] from rfl) (by decide) h.stripped hmarked.1
  have hrest : afterPrefix? "data:" ("data: " ++ text) = some (" " ++ text) := by
    simp [afterPrefix?, List.isPrefixOf?]
  have hdata : pyStrip (" " ++ text) = text := pyStrip_space h.stripped
  rw [ssePayload, hline, hrest]
  dsimp only
  rw [hdata, if_neg (not_or.mpr hmarked)]

theorem ssePayload_silent (h : frame.Plain loads) (hnone : frame.payload? loads = none) :
    ∀ line ∈ frame.lines, ssePayload loads line = .nothing := by
  cases frame with
  | comment text =>
    intro line hmem
    obtain rfl := List.mem_singleton.mp hmem
    obtain ⟨rest, hrest⟩ := head_pyStrip_comment text
    refine ssePayload_other ?_
    rw [afterPrefix?, hrest]
    rfl
  | message text =>
    intro line hmem
    rcases List.mem_cons.mp hmem with rfl | hmem
    · rw [ssePayload_message h]
      have hreadable := h.readable
      simp only [SseFrame.payload?, messageOf] at hnone
      simp only [SseFrame.text] at hreadable
      split
      · rename_i heq
        rw [heq] at hnone
        contradiction
      · rfl
      · rfl
      · rename_i heq
        exact absurd heq hreadable
    · obtain rfl := List.mem_singleton.mp hmem
      exact ssePayload_other rfl

/-- Of what a server writes, all is handed on exactly if it has at most one message. -/
theorem reachedFirst_frames_iff (h : ∀ frame ∈ frames, frame.Plain loads) :
    ReachedFirst loads (frames.flatMap SseFrame.lines) (sseMessages loads (SseFrame.body frames)) ↔
      (frames.filterMap (SseFrame.payload? loads)).length ≤ 1 := by
  rw [sseMessages_body h]
  constructor
  · rintro (hnone | ⟨-, -, -, hone⟩)
    · simp [hnone]
    · simp [hone]
  · intro hlength
    cases hmessages : frames.filterMap (SseFrame.payload? loads) with
    | nil => exact .silent rfl
    | cons message others =>
      obtain rfl : others = [] := by
        rw [hmessages, List.length_cons] at hlength
        exact List.length_eq_zero_iff.mp (by omega)
      obtain ⟨before, frame, after, rfl, hbefore, hframe, -⟩ := List.filterMap_eq_cons_iff.mp hmessages
      cases frame with
      | comment text => cases hframe
      | message text =>
        have hplain : (SseFrame.message text).Plain loads := h _ (by simp)
        have hpayload : ssePayload loads ("data: " ++ text) = .payload message := by
          rw [ssePayload_message hplain]
          simp only [SseFrame.payload?, messageOf] at hframe
          split at hframe
          · rename_i heq
            rw [heq]
            exact congrArg SseLine.payload (Option.some.inj hframe)
          · contradiction
        have hlines : (before ++ SseFrame.message text :: after).flatMap SseFrame.lines =
            before.flatMap SseFrame.lines ++ ("data: " ++ text) :: "" :: after.flatMap SseFrame.lines := by
          rw [List.flatMap_append, List.flatMap_cons]
          rfl
        refine .first hlines ?_ hpayload rfl
        intro line hmem
        obtain ⟨earlier, hearlier, hline⟩ := List.mem_flatMap.mp hmem
        exact ssePayload_silent (h earlier (by simp [hearlier])) (hbefore earlier hearlier) line hline

end Frames

/-- A request completes with an outcome, and by this response: its `send` returns, and its future has the outcome. -/
def Posted.Completes (posted : Posted String) (id : Nat) (response : PyDict) (outcome : McpOutcome) : Prop :=
  ∃ s call, Machine.exec McpClient.step posted.client [.sent id posted.error, .resume id] = some s ∧ s.calls.get? id = some call ∧
    call.ended = some (.outcome outcome) ∧ call.settledBy = some response

/-- The client is handed the messages, in order, and its request completes with the response among them. -/
structure Posted.Delivered (posted : Posted String) (id : Nat) (messages : List PyDict) : Prop where
  handed : messages.Sublist posted.handed
  completes : ∀ response ∈ messages, McpClient.IsResponse response id →
    ∃ outcome, McpClient.outcomeOf response = .ok outcome ∧ posted.Completes id response outcome

/-- The error of a message, if it has one, is an object. -/
def McpClient.ErrorObject (payload : PyDict) : Prop :=
  ∀ error, payload.get? "error" = some error → error = .none ∨ ∃ fields, error = .dict fields

/-- A message says what a future is settled with exactly if its error can be asked for its fields. -/
theorem McpClient.outcomeOf_ok_iff {payload : PyDict} : (∃ outcome, outcomeOf payload = .ok outcome) ↔ ErrorObject payload := by
  unfold outcomeOf ErrorObject
  cases herror : payload.get? "error" with
  | none => exact iff_of_true ⟨_, rfl⟩ (by simp)
  | some error =>
    cases error with
    | none => exact iff_of_true ⟨_, rfl⟩ (by simp)
    | dict fields => exact iff_of_true ⟨_, rfl⟩ (by simp)
    | _ => exact iff_of_false (by simp [PyValue.getAttr, bind, Except.bind]) (by simp)

/-- A call whose `send` is under way, and that no message has answered. -/
structure McpClient.Sending (s : McpClient) (id : Nat) (call : McpCall) : Prop where
  asked : s.calls.get? id = some call
  sending : call.sending = true
  pending : call.pending = true
  future : call.future = none
  ended : call.ended = none

namespace StreamableHttpTransport

open McpClient

variable {http : Httpx} {s : McpClient} {id : Nat} {call : McpCall} {loads : String → LineParse} {payload : PyDict}

@[simp] theorem handed_deliver : (deliver s payload).handed = [payload] := by
  unfold deliver
  split
  · rfl
  · rfl

theorem readLines_cons (s : McpClient) (line : String) (rest : List String) : readLines loads s (line :: rest) =
    match ssePayload loads line with
    | .nothing => readLines loads s rest
    | .raises => { client := s, error := some .other }
    | .payload payload => deliver s payload := by
  rw [readLines]

theorem readLines_nothing {line : String} {rest : List String} (h : ssePayload loads line = .nothing) :
    readLines loads s (line :: rest) = readLines loads s rest := by
  rw [readLines_cons, h]

theorem readLines_payload {line : String} {rest : List String} (h : ssePayload loads line = .payload payload) :
    readLines loads s (line :: rest) = deliver s payload := by
  rw [readLines_cons, h]

theorem readLines_first {before after : List String} {line : String} (hbefore : ∀ earlier ∈ before, ssePayload loads earlier = .nothing)
    (hline : ssePayload loads line = .payload payload) : readLines loads s (before ++ line :: after) = deliver s payload := by
  induction before with
  | nil => exact readLines_payload hline
  | cons earlier before ih =>
    rw [List.cons_append, readLines_nothing (hbefore earlier List.mem_cons_self)]
    exact ih (fun other hmem => hbefore other (List.mem_cons_of_mem _ hmem))

/-- What the reader hands on: nothing, or the object of the first line that is read as one. -/
theorem handed_readLines (loads : String → LineParse) (s : McpClient) (lines : List String) : (readLines loads s lines).handed = [] ∨
    ∃ before line after payload, lines = before ++ line :: after ∧ (∀ earlier ∈ before, ssePayload loads earlier = .nothing) ∧
      ssePayload loads line = .payload payload ∧ (readLines loads s lines).handed = [payload] := by
  induction lines with
  | nil => exact Or.inl rfl
  | cons line lines ih =>
    cases hline : ssePayload loads line with
    | payload payload =>
      refine Or.inr ⟨[], line, lines, payload, rfl, by simp, hline, ?_⟩
      rw [readLines_payload hline, handed_deliver]
    | raises =>
      left
      rw [readLines_cons, hline]
    | nothing =>
      rw [readLines_nothing hline]
      rcases ih with hnone | ⟨before, found, after, payload, rfl, hbefore, hfound, hhanded⟩
      · exact Or.inl hnone
      · refine Or.inr ⟨line :: before, found, after, payload, rfl, ?_, hfound, hhanded⟩
        intro earlier hmem
        rcases List.mem_cons.mp hmem with rfl | hmem
        · exact hline
        · exact hbefore earlier hmem

theorem deliver_response (hsending : s.Sending id call) {outcome : McpOutcome} (hresponse : IsResponse payload id)
    (houtcome : outcomeOf payload = .ok outcome) :
    deliver s payload =
      { client := s.putCall id { call with
          future := some outcome
          settledBy := some payload }
        handed := [payload] } := by
  have hkey : ∃ messageId, McpClient.messageId payload = some messageId ∧ messageId.hashKey = .ok (.number id) := by
    rcases hresponse.2 with hint | hfloat
    · exact ⟨.int id, by simp only [messageId, hint], rfl⟩
    · exact ⟨.float (.finite id), by simp only [messageId, hfloat], rfl⟩
  obtain ⟨messageId, hid, hhash⟩ := hkey
  have hwaiting : s.waiting? (.number id) = some (id, call) := by
    simp [waiting?, HashKey.natural?, hsending.asked, hsending.pending, hsending.future]
  have hmessage : s.onMessage payload = .ok (s.putCall id { call with
      future := some outcome
      settledBy := some payload }) := by
    simp only [onMessage, hid, resolve, hhash, bind, Except.bind, hwaiting, houtcome]
    rfl
  simp only [deliver, hmessage]

/-- A request that was answered while its `send` was under way goes on with the answer. -/
theorem resumed (hsending : s.Sending id call) {outcome : McpOutcome} :
    ∃ s' call', Machine.exec step (s.putCall id { call with
        future := some outcome
        settledBy := some payload }) [.sent id none, .resume id] = some s' ∧
      s'.calls.get? id = some call' ∧ call'.ended = some (.outcome outcome) ∧ call'.settledBy = some payload := by
  let answered : McpCall := { call with
    future := some outcome
    settledBy := some payload }
  let sent : McpClient := (s.putCall id answered).putCall id { answered with sending := false }
  let done : McpCall := { answered with sending := false }.finish (.outcome outcome)
  have hsent : step (s.putCall id answered) (.sent id none) = some sent := by
    simp [step, putCall, answered, sent, hsending.sending, hsending.ended]
  have hresume : step sent (.resume id) = some (sent.putCall id done) := by
    simp [step, putCall, answered, sent, done, hsending.ended]
  refine ⟨sent.putCall id done, done, ?_, Dict.get?_set_self .., rfl, rfl⟩
  rw [Machine.exec, hsent, Option.bind_some, Machine.exec, hresume, Option.bind_some, Machine.exec]

theorem send_stream (http : Httpx) (s : McpClient) (method : String) {reply : HttpReply} (hstatus : reply.statusCode < 400)
    (hstream : reply.isEventStream = true) :
    (send http s method reply).client = (readLines http.loads s (http.aiterLines reply.body)).client ∧
    (send http s method reply).handed = (readLines http.loads s (http.aiterLines reply.body)).handed ∧
    ((readLines http.loads s (http.aiterLines reply.body)).error = none → (send http s method reply).error = none) := by
  unfold send
  rw [if_neg (Nat.not_le.mpr hstatus), readResponse, if_pos hstream]
  refine ⟨rfl, rfl, ?_⟩
  intro hnone
  simp only [hnone]
  rfl

/-- The client is handed all messages of an event stream exactly if there is at most one, on the first line that is read as one; and the
call completes with it, if it is its response, exactly if its error is none but an object. -/
theorem send_delivered_iff (hsending : s.Sending id call) {method : String} {reply : HttpReply} (hstatus : reply.statusCode < 400)
    (hstream : reply.isEventStream = true) {messages : List PyDict} :
    (send http s method reply).Delivered id messages ↔
      ReachedFirst http.loads (http.aiterLines reply.body) messages ∧
        ∀ response ∈ messages, IsResponse response id → ErrorObject response := by
  obtain ⟨hclient, hhanded, herror⟩ := send_stream http s method hstatus hstream
  constructor
  · intro h
    refine ⟨?_, ?_⟩
    · have hsub := h.handed
      rw [hhanded] at hsub
      rcases handed_readLines http.loads s (http.aiterLines reply.body) with
        hnone | ⟨before, line, after, payload, hlines, hbefore, hline, hone⟩
      · rw [hnone] at hsub
        exact .silent (List.sublist_nil.mp hsub)
      · rw [hone] at hsub
        rcases List.sublist_singleton.mp hsub with rfl | rfl
        · exact .silent rfl
        · exact .first hlines hbefore hline rfl
    · intro response hmem hresponse
      obtain ⟨outcome, houtcome, -⟩ := h.completes response hmem hresponse
      exact outcomeOf_ok_iff.mp ⟨outcome, houtcome⟩
  · rintro ⟨rfl | ⟨hlines, hbefore, hline, rfl⟩, hobjects⟩
    · exact ⟨List.nil_sublist _, fun _ hmem => absurd hmem List.not_mem_nil⟩
    · rename_i before after line message
      have hread : readLines http.loads s (http.aiterLines reply.body) = deliver s message := by
        rw [hlines]
        exact readLines_first hbefore hline
      refine ⟨?_, ?_⟩
      · rw [hhanded, hread, handed_deliver]
      · intro response hmem hresponse
        obtain ⟨outcome, houtcome⟩ := outcomeOf_ok_iff.mpr (hobjects response hmem hresponse)
        obtain rfl := List.mem_singleton.mp hmem
        have hdeliver := deliver_response hsending hresponse houtcome
        rw [hread, hdeliver] at hclient herror
        have hnone := herror rfl
        refine ⟨outcome, houtcome, ?_⟩
        unfold Posted.Completes
        rw [hclient, hnone]
        exact resumed hsending

end StreamableHttpTransport

theorem McpClient.sending_request {s asked : McpClient} {method : String} (hopen : s.closed = false)
    (hstep : s.step (.request method) = some asked) : asked.Sending (s.nextId + 1) { method } := by
  simp only [McpClient.step, hopen, Bool.false_eq_true, if_false, Option.some.injEq] at hstep
  obtain rfl := hstep
  exact ⟨Dict.get?_set_self .., rfl, rfl, rfl, rfl⟩

/-- Of a request that is answered with an event stream, the client is handed all messages in order, and the request completes with the
response among them, exactly if the stream has at most one message, which is the object of the first line that is read as one, and the
error of a response is none but an object. -/
theorem sse_answer_delivered (http : Httpx) (s : McpClient) (method : String) (reply : HttpReply) (posted : Posted String)
    (hposted : s.request http method reply = some posted) (hstatus : reply.statusCode < 400) (hstream : reply.isEventStream = true) :
    posted.Delivered (s.nextId + 1) (sseMessages http.loads reply.body) ↔
      ReachedFirst http.loads (http.aiterLines reply.body) (sseMessages http.loads reply.body) ∧
        ∀ response ∈ sseMessages http.loads reply.body, McpClient.IsResponse response (s.nextId + 1) →
          McpClient.ErrorObject response := by
  unfold McpClient.request at hposted
  split at hposted
  · contradiction
  · rename_i hopen
    obtain ⟨asked, hstep, rfl⟩ := Option.map_eq_some_iff.mp hposted
    have hsending := McpClient.sending_request (Bool.eq_false_iff.mpr hopen) hstep
    exact StreamableHttpTransport.send_delivered_iff hsending hstatus hstream

/-- A notification, and the response for the first request. -/
def progressNotice : PyDict := [(.str "jsonrpc", .str "2.0"), (.str "method", .str "notifications/progress")]

def firstAnswer : PyDict := [(.str "jsonrpc", .str "2.0"), (.str "id", .int 1), (.str "result", .dict [])]

def progressText : String := "\x7b\"jsonrpc\":\"2.0\",\"method\":\"notifications/progress\"\x7d"

def answerText : String := "\x7b\"jsonrpc\":\"2.0\",\"id\":1,\"result\":\x7b\x7d\x7d"

/-- A server that answers with these frames. -/
def answering (frames : List SseFrame) : Httpx where
  aiterLines := fun _ => frames.flatMap SseFrame.lines
  loads := fun text =>
    if text = progressText then .value (.dict progressNotice)
    else if text = answerText then .value (.dict firstAnswer)
    else .decodeError
  loadsBytes := fun _ => .decodeError
  repr := fun text => "'" ++ text ++ "'"
  reprBytes := fun _ => ""

def streamReply (frames : List SseFrame) : HttpReply where
  statusCode := 200
  contentType := some "text/event-stream; charset=utf-8"
  body := SseFrame.body frames

theorem isEventStream_streamReply (frames : List SseFrame) : (streamReply frames).isEventStream = true := by
  refine decide_eq_true ⟨[], "; charset=utf-8".toList, ?_⟩
  simp [streamReply]

/-- A comment, and the response. -/
def commentThenAnswer : List SseFrame := [.comment "ping", .message answerText]

/-- The notification, and the response. -/
def progressThenAnswer : List SseFrame := [.message progressText, .message answerText]

theorem plain_of_check (frames : List SseFrame) (hlines : frames.all (fun frame => frame.text.toList.all (fun c => c ≠ '\n' ∧ c ≠ '\r')
    && pyStrip frame.text == frame.text && frame.text != "" && frame.text != "[DONE]") = true) :
    ∀ frame ∈ frames, frame.Plain (answering frames).loads := by
  intro frame hmem
  have hcheck := List.all_eq_true.mp hlines frame hmem
  simp only [Bool.and_eq_true, List.all_eq_true, decide_eq_true_eq, beq_iff_eq, bne_iff_ne] at hcheck
  obtain ⟨⟨⟨hline, hstripped⟩, hsome⟩, hmark⟩ := hcheck
  refine ⟨hline, hstripped, ⟨hsome, hmark⟩, ?_⟩
  simp only [answering]
  split_ifs <;> simp

theorem messageOf_progressText (frames : List SseFrame) : messageOf (answering frames).loads progressText = some progressNotice := by
  simp only [messageOf, answering, if_true]

theorem messageOf_answerText (frames : List SseFrame) : messageOf (answering frames).loads answerText = some firstAnswer := by
  have hother : answerText ≠ progressText := by simp [answerText, progressText]
  simp only [messageOf, answering, if_neg hother, if_true]

/-- A request that is answered with a comment and its response completes with it. -/
theorem sse_answer_delivered_comment : ∃ posted,
    ({} : McpClient).request (answering commentThenAnswer) "tools/list" (streamReply commentThenAnswer) = some posted ∧
    posted.Delivered 1 [firstAnswer] ∧ posted.Completes 1 firstAnswer (.result (.dict [])) := by
  have hplain := plain_of_check commentThenAnswer
    (by simp [commentThenAnswer, SseFrame.text, answerText, pyStrip, isSpace])
  have hmessages : sseMessages (answering commentThenAnswer).loads (streamReply commentThenAnswer).body = [firstAnswer] := by
    rw [streamReply, sseMessages_body hplain]
    simp only [commentThenAnswer, List.filterMap_cons, SseFrame.payload?, messageOf_answerText, List.filterMap_nil]
  have hreached : ReachedFirst (answering commentThenAnswer).loads (commentThenAnswer.flatMap SseFrame.lines)
      (sseMessages (answering commentThenAnswer).loads (streamReply commentThenAnswer).body) := by
    rw [streamReply, reachedFirst_frames_iff hplain, ← sseMessages_body hplain]
    exact (congrArg List.length hmessages).le
  have herror : ∀ response ∈ sseMessages (answering commentThenAnswer).loads (streamReply commentThenAnswer).body,
      McpClient.IsResponse response 1 → McpClient.ErrorObject response := by
    intro response hmem _
    rw [hmessages, List.mem_singleton] at hmem
    subst hmem
    exact McpClient.outcomeOf_ok_iff.mp ⟨_, rfl⟩
  have hdelivered := (sse_answer_delivered (answering commentThenAnswer) {} "tools/list" (streamReply commentThenAnswer) _ rfl
    (by decide) (isEventStream_streamReply _)).mpr ⟨hreached, herror⟩
  rw [hmessages] at hdelivered
  obtain ⟨outcome, houtcome, hcompletes⟩ := hdelivered.completes firstAnswer (List.mem_singleton_self _) ⟨Or.inl rfl, Or.inl rfl⟩
  obtain rfl := Except.ok.inj houtcome
  exact ⟨_, rfl, hdelivered, hcompletes⟩

/-- The response behind a notification is lost: only the notification is handed on, and the request does not complete. -/
theorem sse_answer_lost : ∃ posted,
    ({} : McpClient).request (answering progressThenAnswer) "tools/list" (streamReply progressThenAnswer) = some posted ∧
    sseMessages (answering progressThenAnswer).loads (streamReply progressThenAnswer).body = [progressNotice, firstAnswer] ∧
    posted.handed = [progressNotice] ∧ McpClient.IsResponse firstAnswer 1 ∧
    McpClient.outcomeOf firstAnswer = .ok (.result (.dict [])) ∧ ¬ posted.Completes 1 firstAnswer (.result (.dict [])) := by
  have hplain := plain_of_check progressThenAnswer
    (by simp [progressThenAnswer, SseFrame.text, progressText, answerText, pyStrip, isSpace])
  have hmessages : sseMessages (answering progressThenAnswer).loads (streamReply progressThenAnswer).body =
      [progressNotice, firstAnswer] := by
    rw [streamReply, sseMessages_body hplain]
    simp only [progressThenAnswer, List.filterMap_cons, SseFrame.payload?, messageOf_progressText, messageOf_answerText,
      List.filterMap_nil]
  have hnotice : ssePayload (answering progressThenAnswer).loads ("data: " ++ progressText) = .payload progressNotice := by
    rw [ssePayload_message (hplain _ List.mem_cons_self)]
    simp only [answering, if_true]
  -- What the request leaves before its answer is read.
  let asked : McpClient := { McpClient.putCall {} 1 { method := "tools/list" } with nextId := 1 }
  obtain ⟨hclient, hhanded, herror⟩ := StreamableHttpTransport.send_stream (answering progressThenAnswer) asked "tools/list"
    (by decide) (isEventStream_streamReply progressThenAnswer)
  have hread : StreamableHttpTransport.readLines (answering progressThenAnswer).loads asked
      ((answering progressThenAnswer).aiterLines (streamReply progressThenAnswer).body) =
      StreamableHttpTransport.deliver asked progressNotice := StreamableHttpTransport.readLines_payload hnotice
  rw [hread] at hclient hhanded herror
  refine ⟨_, rfl, hmessages, hhanded.trans StreamableHttpTransport.handed_deliver, ⟨Or.inl rfl, Or.inl rfl⟩, rfl, ?_⟩
  rintro ⟨s, call, hrun, -⟩
  have hwaits : Machine.exec McpClient.step (StreamableHttpTransport.deliver asked progressNotice).client [.sent 1 none, .resume 1] =
      none := rfl
  rw [← hclient, ← herror rfl] at hwaits
  exact Option.some_ne_none s (hrun.symm.trans hwaits)

end Pydsh
