import Pydsh.Lib.Result
import Pydsh.Mcp.Client

/-!
# A call of a server's tool

`mcp/bridge.py`, `McpTool.execute`: the call goes to the client, and what the server answers is rendered for the model. A call that fails
becomes a text that begins with `Error:`, as the loop's contract is a return. But only the call is guarded. What it gives is taken for an
object, which it need not be: on a result that is a list, a string or a number, `result.get` raises (`tool_call_returns`).
-/

namespace Pydsh

/-- What Python makes of values: `str`, `repr` of a string, and `json.dumps(value, ensure_ascii=False)`, `none` where it raises a
`TypeError` or a `ValueError`. -/
structure PyTexts where
  str : PyValue → String
  repr : String → String
  dumps : PyValue → Option String

/-- What comes out of a call instead of a value: a cancellation, or an exception with its text. -/
inductive CallRaised where
  | cancelled
  | exception (text : String)

/-- `no_text`. -/
def noTextContent (toolName : String) : String := "(" ++ toolName ++ " returned no text content)"

/-- What stands for an image or for audio. -/
def discarded (python : PyTexts) (kind : String) (block : PyDict) : String :=
  "[" ++ kind ++ ": " ++ python.str ((block.get? "mimeType").getD (.str "unknown type")) ++ ", content discarded]"

/-- What a block adds to the text of `extract_text`; a text block without text adds nothing. -/
def blockPart (python : PyTexts) : PyValue → Option String
  | .dict block =>
    match (PyDict.get? block "type").getD .none with
    | .str "text" =>
      match (PyDict.get? block "text").getD .none with
      | .none => none
      | text => some (python.str text)
    | .str "image" => some (discarded python "image" block)
    | .str "audio" => some (discarded python "audio" block)
    | .str "resource" | .str "resource_link" => some "[resource: content discarded]"
    | kind => some ("[unsupported content type: " ++ python.str kind ++ "]")
  | _ => some "[unsupported content: not an object]"

/-- `x or y`, of strings. -/
def orText (x y : String) : String := if x = "" then y else x

/-- `extract_text`, of a list. -/
def extractText (python : PyTexts) (content : List PyValue) (toolName : String) : String :=
  orText ("\n".intercalate (content.filterMap (blockPart python))) (noTextContent toolName)

/-- `_json`. -/
def jsonText (python : PyTexts) (value : PyValue) : String := (python.dumps value).getD (python.str value)

/-- What `request` returns or raises, by how the call ended. -/
def McpEnd.returned (python : PyTexts) (method : String) (timeout : PyFloat) : McpEnd → Except CallRaised PyValue
  | .outcome (.result value) => .ok value
  | .outcome (.error message _) => .error (.exception (python.str message))
  | .refused => .error (.exception "the MCP client is closed")
  | .unsent error => .error (.exception error)
  | .timedOut => .error (.exception
      ("the MCP request " ++ python.repr method ++ " timed out after " ++ python.str (.float timeout) ++ "s"))
  | .cancelled => .error .cancelled

/-- The arguments of a call, as an object; what is none is sent as an empty one. -/
def toolPayload : PyValue → PyDict
  | .dict arguments => arguments
  | _ => []

/-- The parameters of `tools/call`. -/
def callParams (rawName : String) (arguments : PyDict) : PyDict := [(.str "name", .str rawName), (.str "arguments", .dict arguments)]

section Calling

variable (python : PyTexts) (request : String → PyDict → McpEnd) (rawName : String) (timeout : PyFloat)

/-- `call_tool`, where `request` says how the client's request ends. -/
def callTool (arguments : PyDict) : Except CallRaised PyValue := do
  let result ← (request "tools/call" (callParams rawName arguments)).returned python "tools/call" timeout
  return result.orElse (.dict [])

/-- `result.get(key)`. -/
def resultGet (result : PyValue) (key : String) : Except CallRaised PyValue := (result.getAttr key).mapError .exception

/-- The text of a result: its content, or else its `toolResult`. -/
def resultText (result : PyValue) : Except CallRaised String := do
  match ← resultGet result "content" with
  | .list blocks => return extractText python blocks rawName
  | _ =>
    let rendered ← resultGet result "toolResult"
    return if rendered.isNone then noTextContent rawName else jsonText python rendered

/-- `execute`, from the result on. -/
def renderResult (result : PyValue) : Except CallRaised String := do
  let text ← resultText python rawName result
  match ← resultGet result "isError" with
  | .bool true => return "Error: " ++ text
  | _ => return text

/-- `McpTool.execute`. -/
def executeMcpTool (arguments : PyValue) : Except CallRaised String :=
  match callTool python request rawName timeout (toolPayload arguments) with
  | .error .cancelled => .error .cancelled
  | .error (.exception text) => .ok ("Error: the MCP tool " ++ python.repr rawName ++ " failed: " ++ text)
  | .ok result => renderResult python rawName result

end Calling

/-! ## What a call returns -/

/-- The call failed: in the transport, at its timeout, or with an error of the server. -/
def McpEnd.Failed : McpEnd → Prop
  | .outcome (.result _) => False
  | _ => True

/-- The server marked its result as an error. -/
def McpEnd.MarkedError (ended : McpEnd) : Prop :=
  ∃ result : PyDict, ended = .outcome (.result (.dict result)) ∧ result.get? "isError" = some (.bool true)

/-- A call of a tool returns a text, which begins with `Error:` where the call failed or its result is an error. -/
def ReturnsText (returned : Except CallRaised String) (ended : McpEnd) : Prop :=
  ∃ text, returned = .ok text ∧ (ended.Failed ∨ ended.MarkedError → "Error:".toList <+: text.toList)

/-- What the server answered with is an object, or nothing: `None`, `False`, zero, or empty. -/
def McpEnd.ObjectOrNothing (ended : McpEnd) : Prop :=
  ∀ result, ended = .outcome (.result result) → result.truthy = false ∨ ∃ fields, result = .dict fields

theorem resultGet_dict (fields : PyDict) (key : String) : resultGet (.dict fields) key = .ok ((fields.get? key).getD .none) := rfl

theorem resultText_dict (python : PyTexts) (rawName : String) (fields : PyDict) :
    ∃ text, resultText python rawName (.dict fields) = .ok text := by
  simp only [resultText, resultGet_dict, bind, Except.bind]
  split
  · exact ⟨_, rfl⟩
  · exact ⟨_, rfl⟩

theorem renderResult_dict (python : PyTexts) (rawName : String) (fields : PyDict) :
    ∃ text, renderResult python rawName (.dict fields) = .ok text ∧
      (fields.get? "isError" = some (.bool true) → "Error:".toList <+: text.toList) := by
  obtain ⟨text, htext⟩ := resultText_dict python rawName fields
  simp only [renderResult, htext, resultGet_dict, bind, Except.bind]
  split
  · refine ⟨_, rfl, fun _ => ?_⟩
    rw [String.toList_append]
    exact (List.prefix_append "Error:".toList [' ']).trans (List.prefix_append _ _)
  · rename_i hnot
    refine ⟨_, rfl, fun htrue => ?_⟩
    rw [htrue] at hnot
    exact absurd rfl hnot

theorem renderResult_not_dict (python : PyTexts) (rawName : String) {result : PyValue} (h : ∀ fields, result ≠ .dict fields) :
    ∃ error, renderResult python rawName result = .error (.exception error) := by
  have hget : ∃ error, resultGet result "content" = .error (.exception error) := by
    unfold resultGet PyValue.getAttr
    split
    · rename_i fields
      exact absurd rfl (h fields)
    · exact ⟨_, rfl⟩
  obtain ⟨error, hget⟩ := hget
  refine ⟨error, ?_⟩
  rw [renderResult, resultText, hget]
  rfl

/-- A result that is no object, and not nothing, raises; any other is rendered. -/
theorem renderResult_returns_iff (python : PyTexts) (rawName : String) (result : PyValue) :
    (∃ text, renderResult python rawName (result.orElse (.dict [])) = .ok text ∧
      (∀ fields : PyDict, result = .dict fields → fields.get? "isError" = some (.bool true) → "Error:".toList <+: text.toList)) ↔
      result.truthy = false ∨ ∃ fields, result = .dict fields := by
  by_cases hdict : ∃ fields, result = .dict fields
  · refine iff_of_true ?_ (Or.inr hdict)
    obtain ⟨fields, rfl⟩ := hdict
    cases fields with
    | nil =>
      obtain ⟨text, hok, herror⟩ := renderResult_dict python rawName []
      refine ⟨text, hok, ?_⟩
      rintro fields ⟨⟩
      exact herror
    | cons field fields =>
      obtain ⟨text, hok, herror⟩ := renderResult_dict python rawName (field :: fields)
      refine ⟨text, hok, ?_⟩
      rintro fields ⟨⟩
      exact herror
  · cases htruthy : result.truthy with
    | false =>
      obtain ⟨text, hok, -⟩ := renderResult_dict python rawName []
      refine iff_of_true ⟨text, ?_, fun fields heq => absurd ⟨fields, heq⟩ hdict⟩ (Or.inl rfl)
      rw [PyValue.orElse, htruthy]
      exact hok
    | true =>
      refine iff_of_false ?_ (by simpa using hdict)
      rintro ⟨text, hok, -⟩
      obtain ⟨error, herror⟩ := renderResult_not_dict python rawName (fun fields heq => hdict ⟨fields, heq⟩)
      rw [PyValue.orElse, htruthy, if_pos rfl, herror] at hok
      contradiction

/-- A call of a tool that is not cancelled returns a text, and one that begins with `Error:` where it failed or its result is an error,
exactly if what the server answered with is an object or nothing. -/
theorem tool_call_returns (python : PyTexts) (request : String → PyDict → McpEnd) (rawName : String) (timeout : PyFloat)
    (arguments : PyValue) (hawaited : request "tools/call" (callParams rawName (toolPayload arguments)) ≠ .cancelled) :
    ReturnsText (executeMcpTool python request rawName timeout arguments)
        (request "tools/call" (callParams rawName (toolPayload arguments))) ↔
      (request "tools/call" (callParams rawName (toolPayload arguments))).ObjectOrNothing := by
  unfold executeMcpTool callTool
  generalize request "tools/call" (callParams rawName (toolPayload arguments)) = ended at hawaited ⊢
  have hfailed : ∀ text, ReturnsText (.ok ("Error: the MCP tool " ++ python.repr rawName ++ " failed: " ++ text)) ended := by
    intro text
    refine ⟨_, rfl, fun _ => ?_⟩
    simp only [String.toList_append, List.append_assoc]
    exact (List.prefix_append "Error:".toList " the MCP tool ".toList).trans (List.prefix_append _ _)
  cases ended with
  | outcome outcome =>
    cases outcome with
    | error message code => exact iff_of_true (hfailed _) (by simp [McpEnd.ObjectOrNothing])
    | result result =>
      have hobject : (McpEnd.outcome (.result result)).ObjectOrNothing ↔ result.truthy = false ∨ ∃ fields, result = .dict fields := by
        simp [McpEnd.ObjectOrNothing]
      rw [hobject, ← renderResult_returns_iff python rawName]
      constructor
      · rintro ⟨text, hok, herror⟩
        refine ⟨text, hok, ?_⟩
        rintro fields rfl htrue
        exact herror (Or.inr ⟨fields, rfl, htrue⟩)
      · rintro ⟨text, hok, herror⟩
        refine ⟨text, hok, ?_⟩
        rintro (hnot | ⟨fields, heq, htrue⟩)
        · exact absurd hnot id
        · obtain rfl := McpOutcome.result.inj (McpEnd.outcome.inj heq)
          exact herror fields rfl htrue
  | cancelled => exact absurd rfl hawaited
  | refused => exact iff_of_true (hfailed _) (by simp [McpEnd.ObjectOrNothing])
  | unsent error => exact iff_of_true (hfailed _) (by simp [McpEnd.ObjectOrNothing])
  | timedOut => exact iff_of_true (hfailed _) (by simp [McpEnd.ObjectOrNothing])

/-- Texts as Python makes them of strings; other values are told by their type. -/
def plainTexts : PyTexts where
  str := fun value =>
    match value with
    | .str text => text
    | value => value.typeName
  repr := fun text => "'" ++ text ++ "'"
  dumps := fun _ => none

/-- A server that marks its result as an error. -/
def markedError : PyValue :=
  .dict [(.str "content", .list [.dict [(.str "type", .str "text"), (.str "text", .str "no such file")], .none]),
    (.str "isError", .bool true)]

theorem tool_call_returns_error :
    ReturnsText (executeMcpTool plainTexts (fun _ _ => .outcome (.result markedError)) "read" (.finite 60) .none)
      (.outcome (.result markedError)) ∧
    (McpEnd.outcome (.result markedError)).MarkedError ∧
    executeMcpTool plainTexts (fun _ _ => .outcome (.result markedError)) "read" (.finite 60) .none =
      .ok "Error: no such file\n[unsupported content: not an object]" := by
  refine ⟨(tool_call_returns plainTexts (fun _ _ => .outcome (.result markedError)) "read" (.finite 60) .none (by simp)).mpr ?_,
    ⟨_, rfl, rfl⟩, rfl⟩
  rintro result ⟨⟩
  exact Or.inr ⟨_, rfl⟩

/-- A result that is a string raises. -/
theorem tool_call_raises :
    executeMcpTool plainTexts (fun _ _ => .outcome (.result (.str "done"))) "read" (.finite 60) (.dict []) =
      .error (.exception "AttributeError: 'str' object has no attribute 'get'") ∧
    ¬ ReturnsText (executeMcpTool plainTexts (fun _ _ => .outcome (.result (.str "done"))) "read" (.finite 60) (.dict []))
      (.outcome (.result (.str "done"))) := by
  have hraises : executeMcpTool plainTexts (fun _ _ => .outcome (.result (.str "done"))) "read" (.finite 60) (.dict []) =
      .error (.exception "AttributeError: 'str' object has no attribute 'get'") := rfl
  refine ⟨hraises, ?_⟩
  rintro ⟨text, hok, -⟩
  rw [hraises] at hok
  contradiction

end Pydsh
