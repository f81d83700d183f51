import Pydsh.Lib.Dict
import Pydsh.Message.Texts
import Pydsh.Persistence.Sqlite
import Pydsh.Query.Filters

/-!
# The query engine

`query/engine.py`: the events of a session as documents that filters are applied to, read from the live session, or from what the SQLite
backend has stored where there is none.
-/

namespace Pydsh

/-! ## Texts -/

/-- What a decoding raises, as a query that fails. -/
def PayloadError.failure : PayloadError → QueryFailure
  | .unknownTag _ => .raised "PayloadDecodeError"
  | .missing key => .raised ("KeyError: " ++ key)
  | .shape => .raised "TypeError"

/-- `message_text`. -/
def Query.messageText (value : Json) : Except QueryFailure String :=
  match decodePayload value with
  | .error e => .error e.failure
  | .ok (.message _ _ content _) =>
    match (content.filterMap PyValue.blockText?).mapM PyValue.joined with
    | .ok texts => .ok (" ".intercalate texts)
    | .error e => .error (.raised e)
  | .ok (.dict kvs) =>
    match PyDict.get? kvs "content" with
    | some (.str content) => .ok content
    | _ => .ok ""
  | .ok _ => .ok ""

/-- `event_text`. -/
def eventText (python : QueryTexts) (event : SessionEvent) : Except QueryFailure String :=
  match event.data with
  | .obj kvs =>
    match event.type with
    | .userMessage => Query.messageText event.data
    | .assistantMessage | .toolResult => Query.messageText ((field? kvs "message").getD .null)
    | .toolCall =>
      .ok (python.format ((field? kvs "name").getD (.str "")) ++ " " ++ python.format ((field? kvs "arguments").getD (.str "")))
    | _ => .ok ""
  | .str s => .ok s
  | _ => .ok ""

/-! ## Surfaces -/

/-- The class of one event. -/
def surfaceClass (surfaceNodes : List Nat) (event : SessionEvent) : SurfaceClass :=
  if event.seq ∈ surfaceNodes then .current
  else if event.type.isSurface then .shadowed
  else .logOnly

/-- `classify_surface`. -/
def classifySurface (events : List SessionEvent) (surfaceNodes : List Nat) : Dict Nat SurfaceClass :=
  events.foldl (fun classes event => classes.set event.seq (surfaceClass surfaceNodes event)) .empty

/-! ## Loading -/

/-- What `load` gives. -/
structure LoadedSession where
  header : SessionHeader
  events : List SessionEvent
  surfaceNodes : List Nat

/-- The branch of `load` for a live session. -/
def loadLive (s : Session) : LoadedSession := { header := s.header, events := s.events, surfaceNodes := s.surfaceNodes }

/-- What a load of the backend raises, as a query that fails. -/
def LoadError.failure : LoadError → QueryFailure
  | .unsupported _ => .raised "SessionFormatUnsupportedError"
  | .session _ => .raised "SessionError"

/-- The branch of `load` for a stored session. -/
def loadStored (loadsText : String → Option (List (PyKey × PyValue))) (python : QueryTexts) (db : Database) (sessionId : String) :
    Except QueryFailure LoadedSession :=
  match db.readFrom loadsText sessionId 1 with
  | .error e => .error e.failure
  | .ok none => .error (.query ("no session " ++ python.repr (.str sessionId)) "SESSION_QUERY_NOT_FOUND")
  | .ok (some (header, events)) =>
    match (Session.new sessionId header).seedAll events with
    | .error e => .error (LoadError.failure (.session e))
    | .ok rebuilt => .ok { header, events, surfaceNodes := rebuilt.surfaceNodes }

/-! ## Queries -/

/-- One document of `list_events`. -/
def eventDocument (python : QueryTexts) (sessionId : String) (classes : Dict Nat SurfaceClass) (event : SessionEvent) :
    Except QueryFailure EventDocument :=
  (eventText python event).map (fun text =>
    { sessionId
      seq := event.seq
      time := event.time
      type := event.type
      -- every event has a class
      surface := (classes.get? event.seq).getD .logOnly
      text })

/-- `list_events`, of what was loaded. -/
def listEvents (python : QueryTexts) (sessionId : String) (loaded : LoadedSession) : Except QueryFailure (List EventDocument) :=
  let classes := classifySurface loaded.events loaded.surfaceNodes
  loaded.events.mapM (eventDocument python sessionId classes)

/-- `filter_session_events`, with what `load` gives. -/
def filterSessionEvents (python : QueryTexts) (sessionId : String) (loaded : Except QueryFailure LoadedSession) (filters : Json) :
    Except QueryFailure (List EventDocument) := do
  let clauses ← materialiseEventFilters python filters
  let loaded ← loaded
  let docs ← listEvents python sessionId loaded
  return applyEventFilters python docs clauses

/-- `read_session`, with what `load` gives. -/
def readSession (sessionId : String) (loaded : Except QueryFailure LoadedSession) :
    Except QueryFailure (String × SessionHeader × List SessionEvent) :=
  loaded.map (fun loaded => (sessionId, loaded.header, loaded.events))

/-- `read_surface`, with what `load` gives. -/
def readSurface (python : QueryTexts) (sessionId : String) (loaded : Except QueryFailure LoadedSession) :
    Except QueryFailure (List EventDocument) := do
  let loaded ← loaded
  let docs ← listEvents python sessionId loaded
  return docs.filter (fun doc => decide (doc.surface = .current))

end Pydsh
