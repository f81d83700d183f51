import Pydsh.Python.Phrase
import Pydsh.Session.Events

/-!
# Filters of events

`query/filters.py`: the clauses of an event filter, checked and copied from what a client sends, and applied one after another. What `repr`
and `str` give for a value other than a string, and when two characters are the same in any case, are parameters.
-/

namespace Pydsh

/-- What the queries use of Python's texts. -/
structure QueryTexts where
  repr : Json → String
  str : Json → String
  same : Char → Char → Bool

/-- `f"{value}"`. -/
def QueryTexts.format (python : QueryTexts) : Json → String
  | .str s => s
  | value => python.str value

/-- Why a query raises: `QueryError` with its code, or something else. -/
inductive QueryFailure where
  | query (message code : String)
  | raised (message : String)
  deriving DecidableEq

/-- `QueryError` with its default code. -/
def invalidFilter (message : String) : QueryFailure := .query message "SESSION_QUERY_INVALID_FILTER"

/-- `SURFACE_CLASSES`. -/
inductive SurfaceClass where
  | current | shadowed | logOnly
  deriving DecidableEq

def SurfaceClass.name : SurfaceClass → String
  | .current => "current"
  | .shadowed => "shadowed"
  | .logOnly => "log-only"

/-- The string an event type is. -/
def EventType.name : EventType → String
  | .turnStart => "turn/start"
  | .turnEnd => "turn/end"
  | .stepStart => "step/start"
  | .stepEnd => "step/end"
  | .userMessage => "user/message"
  | .assistantChunk => "assistant/chunk"
  | .assistantMessage => "assistant/message"
  | .toolCall => "tool/call"
  | .toolResult => "tool/result"
  | .inboxSpliced => "agent/inbox/spliced"
  | .compactionStart => "compaction/start"
  | .compactionSummary => "compaction/summary"
  | .compactionEnd => "compaction/end"
  | .todoWrite => "todo/write"
  | .goalChange => "goal/change"
  | .scheduleChange => "schedule/change"
  | .planMode => "plan/mode"
  | .feedbackRecord => "feedback/record"
  | .other name => name

/-- An event as a filterable document. -/
structure EventDocument where
  sessionId : String
  seq : Nat
  time : Rat
  type : EventType
  surface : SurfaceClass
  text : String

/-- A clause of a filter. -/
inductive EventClause where
  | seq (lower upper : Option Rat)
  | time (lower upper : Option Rat)
  | type (values : List String)
  | surface (values : List String)
  | text (text : String) (pattern : List PatternPiece)

/-! ## Checking -/

/-- `compile_text_filter`. -/
def compileTextFilter (text : String) : Except QueryFailure (List PatternPiece) :=
  let trimmed := pyStrip text
  if trimmed.isEmpty then .error (invalidFilter "a text filter needs non-whitespace text")
  else
    match parsePattern (phrasePattern (pySplit trimmed.toList)) with
    | some pieces => .ok pieces
    | none => .error (.raised "re.error")

/-- One bound of `_copy_range`. -/
def copyEdge (python : QueryTexts) (kind : String) (raw : List (String × Json)) (edge : String) : Except QueryFailure (Option Rat) :=
  match field? raw edge with
  | none | some .null => .ok none
  | some (.int i) => .ok (some i)
  | some (.float q) => .ok (some q)
  | some value => .error (invalidFilter (kind ++ " filter " ++ edge ++ " must be a number, got " ++ python.repr value))

/-- `_copy_range`. -/
def copyRange (python : QueryTexts) (kind : String) (raw : List (String × Json)) : Except QueryFailure (Option Rat × Option Rat) := do
  let lower ← copyEdge python kind raw "from"
  let upper ← copyEdge python kind raw "to"
  match lower, upper with
  | some low, some high =>
    if high < low then
      let shown := fun edge => python.format ((field? raw edge).getD .null)
      .error (invalidFilter (kind ++ " filter is inverted: from " ++ shown "from" ++ " is after to " ++ shown "to"))
    else .ok (lower, upper)
  | _, _ => .ok (lower, upper)

/-- `_string_values`. -/
def stringValues (python : QueryTexts) (raw : List (String × Json)) (kind : String) : Except QueryFailure (List String) :=
  match field? raw "values" with
  | some (.arr values) => values.mapM (fun value =>
      match value with
      | .str s => .ok s
      | value => .error (invalidFilter (kind ++ " filter values must be strings, got " ++ python.repr value)))
  | _ => .error (invalidFilter (kind ++ " filter values must be a list"))

/-- A value that is one of `SURFACE_CLASSES`. -/
def surfaceValue (python : QueryTexts) (value : String) : Except QueryFailure Unit :=
  if value ∈ [SurfaceClass.current, .shadowed, .logOnly].map SurfaceClass.name then .ok ()
  else .error (invalidFilter ("surface filter value " ++ python.repr (.str value) ++
    " is unknown; expected one of current, shadowed, log-only"))

/-- One filter of `materialise_event_filters`. -/
def materialiseClause (python : QueryTexts) : Json → Except QueryFailure EventClause
  | .obj raw =>
    match field? raw "kind" with
    | some (.str "seq") => (copyRange python "seq" raw).map (fun range => .seq range.1 range.2)
    | some (.str "time") => (copyRange python "time" raw).map (fun range => .time range.1 range.2)
    | some (.str "type") => (stringValues python raw "type").map .type
    | some (.str "surface") => do
      let values ← stringValues python raw "surface"
      values.forM (surfaceValue python)
      return .surface values
    | some (.str "text") =>
      match field? raw "text" with
      | some (.str text) => (compileTextFilter text).map (.text text)
      | _ => .error (invalidFilter "text filter text must be a string")
    | kind => .error (invalidFilter ("unknown event filter kind " ++ python.repr (kind.getD .null) ++
        "; expected one of seq, time, type, surface, text"))
  | _ => .error (invalidFilter "each filter must be an object")

/-- `materialise_event_filters`. -/
def materialiseEventFilters (python : QueryTexts) : Json → Except QueryFailure (List EventClause)
  | .arr filters => filters.mapM (materialiseClause python)
  | _ => .error (invalidFilter "filters must be a list")

/-! ## Applying -/

/-- `_in_range`. -/
def inRange (value : Rat) (lower upper : Option Rat) : Bool := lower.all (fun low => low ≤ value) && upper.all (fun high => value ≤ high)

/-- Whether a clause keeps a document. -/
def EventClause.keeps (python : QueryTexts) (doc : EventDocument) : EventClause → Bool
  | .seq lower upper => inRange doc.seq lower upper
  | .time lower upper => inRange doc.time lower upper
  | .type values => values.contains doc.type.name
  | .surface values => values.contains doc.surface.name
  | .text _ pattern => searchPieces python.same doc.text.toList pattern

/-- `apply_event_filters`. -/
def applyEventFilters (python : QueryTexts) (docs : List EventDocument) (clauses : List EventClause) : List EventDocument :=
  clauses.foldl (fun out clause => out.filter (fun doc => clause.keeps python doc)) docs

/-! ## What the clauses say -/

end Pydsh
