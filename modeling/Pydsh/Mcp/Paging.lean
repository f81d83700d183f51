import Mathlib.Data.Set.Finite.Basic
import Mathlib.Order.Lattice.Nat
import Pydsh.Lib.Result
import Pydsh.Mcp.Bridge
import Pydsh.Python.Dynamic

/-!
# Fetching a server's tools page by page

`fetch_tools` of `mcp/bridge.py` asks for a page, enters its tools, and asks for the next one while the answer has a cursor. A page that
lists a tool again ends it, and so does a request that fails; each request ends, as it has a timeout. Nothing else bounds the pages. So
where a server has finitely many tool names, the fetch ends, with all tools it listed or with an error, unless the server keeps handing out
cursors and from some page on lists nothing (`fetch_ends_iff`); the lock of the sync is held as long.
-/

namespace Pydsh

/-- What one fetch depends on: the hash of the names, `str` of a name that is no string, the server, the client that is asked, and what the
server answers to the request of a number with a cursor, where the request may raise. -/
structure ToolListing where
  sha : Sha256
  str : PyValue → String
  serverName : String
  client : Nat
  answer : Nat → PyValue → Except String PyValue

/-- Why a fetch raises: a request does, or an answer has not the form of one, or a tool is listed twice. -/
inductive FetchError where
  | request (message : String)
  | malformed (message : String)
  | listedTwice (rawName : String)
  deriving DecidableEq

/-- How far a fetch is. -/
inductive Fetching where
  | asking (cursor : PyValue) (tools : Dict String McpTool)
  | ended (result : Except FetchError (Dict String McpTool))

namespace ToolListing

/-- `McpClient.list_tools`, from the answer on: a page, and the cursor for the next. -/
def listTools (answer : Except String PyValue) : Except FetchError (List PyValue × PyValue) := do
  let result ← answer.mapError .request
  let result := result.orElse (.dict [])
  let tools ← (result.getAttr "tools").mapError .malformed
  let page ← ((tools.orElse (.tuple [])).elements).mapError .malformed
  let cursor ← (result.getAttr "nextCursor").mapError .malformed
  return (page, cursor)

variable (l : ToolListing)

/-- `entry.get("name") or ""`, as names are built from it. -/
def rawName (entry : PyValue) : Except FetchError String :=
  match entry.getAttr "name" with
  | .error e => .error (.malformed e)
  | .ok name =>
    match name.orElse (.str "") with
    | .str s => .ok s
    | name => .ok (l.str name)

/-- The public name of a tool. -/
def publicName (rawName : String) : String := publicToolName l.sha ⟨l.serverName, rawName⟩

/-- An entry of a page, entered. -/
def enter (tools : Dict String McpTool) (entry : PyValue) : Except FetchError (Dict String McpTool) := do
  let rawName ← l.rawName entry
  if (tools.get? (l.publicName rawName)).isSome then throw (.listedTwice rawName)
  return tools.set (l.publicName rawName) { rawName, client := l.client }

/-- A page, entered. -/
def enterPage (tools : Dict String McpTool) (page : List PyValue) : Except FetchError (Dict String McpTool) := page.foldlM l.enter tools

/-- What the request of a number does. -/
def ask (n : Nat) : Fetching → Fetching
  | .ended result => .ended result
  | .asking cursor tools =>
    match listTools (l.answer n cursor) with
    | .error e => .ended (.error e)
    | .ok (page, next) =>
      match l.enterPage tools page with
      | .error e => .ended (.error e)
      | .ok tools => if next.truthy then .asking next tools else .ended (.ok tools)

/-- `fetch_tools`, after some requests. -/
def fetchAfter : Nat → Fetching
  | 0 => .asking .none .empty
  | n + 1 => l.ask n (fetchAfter n)

/-- Whether the lock of the sync is held: until the fetch ends, as the registry is changed without a pause. -/
def syncLocked : Fetching → Bool
  | .asking _ _ => true
  | .ended _ => false

/-! ## What the server lists -/

/-- The cursor of the request of a number, where the answers before had the form of one. -/
def cursorAt : Nat → PyValue
  | 0 => .none
  | n + 1 =>
    match listTools (l.answer n (cursorAt n)) with
    | .ok (_, next) => next
    | .error _ => .none

/-- The answer to the request of a number. -/
def pageAt (n : Nat) : Except FetchError (List PyValue × PyValue) := listTools (l.answer n (l.cursorAt n))

/-- The entries of a page; none where there is no page. -/
def entriesAt (n : Nat) : List PyValue :=
  match l.pageAt n with
  | .ok (page, _) => page
  | .error _ => []

/-- The entries of the pages before that of a number. -/
def entriesBefore : Nat → List PyValue
  | 0 => []
  | n + 1 => entriesBefore n ++ l.entriesAt n

/-- The names of the tools a server lists. -/
def names : Set String :=
  {name | ∃ n cursor page next, listTools (l.answer n cursor) = .ok (page, next) ∧ ∃ entry ∈ page, l.rawName entry = .ok name}

/-- The answer is a page, and has a cursor for the next. -/
def HasNext (n : Nat) : Prop := ∃ page next, l.pageAt n = .ok (page, next) ∧ next.truthy = true

/-- Some entries have names, and no two a public name. -/
def Distinct (entries : List PyValue) : Prop :=
  ∃ rawNames, entries.mapM l.rawName = .ok rawNames ∧ (rawNames.map l.publicName).Nodup

/-- A server keeps a fetch going: each answer is a page with a cursor for the next, no tool is listed twice, and from some page on none is
listed. -/
structure KeepsGoing : Prop where
  next : ∀ n, l.HasNext n
  once : ∀ n, l.Distinct (l.entriesBefore n)
  empty : ∃ n, ∀ k, n ≤ k → l.entriesAt k = []

/-- Tools are all that were listed before a page, and that is where the cursors end. -/
structure Complete (n : Nat) (tools : Dict String McpTool) : Prop where
  last : ∃ page next, l.pageAt n = .ok (page, next) ∧ next.truthy = false
  all : ∃ rawNames, (l.entriesBefore (n + 1)).mapM l.rawName = .ok rawNames ∧
    fetchTools l.sha l.serverName l.client rawNames .empty = some tools

end ToolListing

/-! ## Entering names -/

theorem fetchTools_isSome_iff {sha : Sha256} {serverName : String} {client : Nat} {rawNames : List String} {tools : Dict String McpTool} :
    (fetchTools sha serverName client rawNames tools).isSome ↔
      (rawNames.map (fun rawName => publicToolName sha ⟨serverName, rawName⟩)).Nodup ∧
        ∀ rawName ∈ rawNames, tools.get? (publicToolName sha ⟨serverName, rawName⟩) = none := by
  induction rawNames generalizing tools with
  | nil => simp [fetchTools]
  | cons rawName rest ih =>
    unfold fetchTools
    simp only
    split
    · rename_i hthere
      refine iff_of_false (by simp) ?_
      rintro ⟨-, hnone⟩
      rw [hnone rawName List.mem_cons_self] at hthere
      cases hthere
    · rename_i hfree
      rw [ih]
      simp only [List.map_cons, List.nodup_cons, List.mem_map, not_exists, not_and, List.mem_cons, forall_eq_or_imp, Dict.get?_set]
      have hnone : tools.get? (publicToolName sha ⟨serverName, rawName⟩) = none := by simpa using hfree
      constructor
      · rintro ⟨hnodup, hrest⟩
        refine ⟨⟨fun other hother heq => ?_, hnodup⟩, hnone, fun other hother => ?_⟩
        · have hget := hrest other hother
          rw [if_pos heq] at hget
          cases hget
        · have hget := hrest other hother
          split at hget
          · cases hget
          · exact hget
      · rintro ⟨⟨hapart, hnodup⟩, -, hrest⟩
        refine ⟨hnodup, fun other hother => ?_⟩
        rw [if_neg (hapart other hother)]
        exact hrest other hother

namespace ToolListing

variable {l : ToolListing} {n : Nat} {tools tools' : Dict String McpTool}

theorem enterPage_ok_iff {entries : List PyValue} : l.enterPage tools entries = .ok tools' ↔
    ∃ rawNames, entries.mapM l.rawName = .ok rawNames ∧ fetchTools l.sha l.serverName l.client rawNames tools = some tools' := by
  induction entries generalizing tools with
  | nil =>
    constructor
    · intro h
      cases h
      exact ⟨[], rfl, rfl⟩
    · rintro ⟨rawNames, hnames, hfetch⟩
      cases hnames
      cases hfetch
      rfl
  | cons entry entries ih =>
    rw [enterPage, List.foldlM_cons, List.mapM_cons]
    simp only [Except.bind_eq_ok_iff]
    constructor
    · rintro ⟨tools₁, henter, hrest⟩
      unfold enter at henter
      obtain ⟨rawName, hname, henter⟩ := Except.bind_eq_ok_iff.mp henter
      obtain ⟨rawNames, hnames, hfetch⟩ := ih.mp hrest
      split at henter
      · cases henter
      · rename_i hfree
        cases henter
        exact ⟨rawName :: rawNames, ⟨rawName, hname, rawNames, hnames, rfl⟩, (if_neg hfree).trans hfetch⟩
    · rintro ⟨all, ⟨rawName, hname, rawNames, hnames, hall⟩, hfetch⟩
      cases hall
      unfold fetchTools at hfetch
      simp only at hfetch
      split at hfetch
      · cases hfetch
      · rename_i hfree
        refine ⟨_, ?_, ih.mpr ⟨rawNames, hnames, hfetch⟩⟩
        unfold enter
        rw [hname]
        exact if_neg hfree

theorem enterPage_append {page entries : List PyValue} : l.enterPage tools (page ++ entries) = .ok tools' ↔
    ∃ tools₁, l.enterPage tools page = .ok tools₁ ∧ l.enterPage tools₁ entries = .ok tools' := by
  rw [enterPage, List.foldlM_append, Except.bind_eq_ok_iff]
  rfl

/-- Entries can be entered exactly if they have names and no two the same public one. -/
theorem distinct_iff {entries : List PyValue} : l.Distinct entries ↔ ∃ tools, l.enterPage .empty entries = .ok tools := by
  constructor
  · rintro ⟨rawNames, hnames, hnodup⟩
    obtain ⟨tools, htools⟩ := Option.isSome_iff_exists.mp (fetchTools_isSome_iff.mpr ⟨hnodup, fun _ _ => Dict.get?_empty _⟩)
    exact ⟨tools, enterPage_ok_iff.mpr ⟨rawNames, hnames, htools⟩⟩
  · rintro ⟨tools, htools⟩
    obtain ⟨rawNames, hnames, hfetch⟩ := enterPage_ok_iff.mp htools
    exact ⟨rawNames, hnames, (fetchTools_isSome_iff.mp (Option.isSome_of_eq_some hfetch)).1⟩

/-! ## How far a fetch gets -/

/-- A request goes on to the next one where its answer is a page that can be entered and has a cursor. -/
theorem ask_asking_iff {fetching : Fetching} {next : PyValue} : l.ask n fetching = .asking next tools' ↔
    ∃ cursor tools page, fetching = .asking cursor tools ∧ listTools (l.answer n cursor) = .ok (page, next) ∧
      l.enterPage tools page = .ok tools' ∧ next.truthy = true := by
  constructor
  · intro h
    unfold ask at h
    split at h
    · cases h
    · rename_i cursor tools
      split at h
      · cases h
      · rename_i page next' hlist
        split at h
        · cases h
        · rename_i tools₁ henter
          split at h
          · rename_i htruthy
            cases h
            exact ⟨cursor, tools, page, rfl, hlist, henter, htruthy⟩
          · cases h
  · rintro ⟨cursor, tools, page, rfl, hlist, henter, htruthy⟩
    simp only [ask, hlist, henter, htruthy, if_true]

/-- The request that ends a fetch with tools: its page has no cursor. -/
theorem ask_ended_ok {fetching : Fetching} (h : l.ask n fetching = .ended (.ok tools')) : fetching = .ended (.ok tools') ∨
    ∃ cursor tools page next, fetching = .asking cursor tools ∧ listTools (l.answer n cursor) = .ok (page, next) ∧
      l.enterPage tools page = .ok tools' ∧ next.truthy = false := by
  unfold ask at h
  split at h
  · exact Or.inl h
  · rename_i cursor tools
    split at h
    · cases h
    · rename_i page next hlist
      split at h
      · cases h
      · rename_i tools₁ henter
        split at h
        · cases h
        · rename_i hfalsy
          cases h
          exact Or.inr ⟨cursor, tools, page, next, rfl, hlist, henter, by simpa using hfalsy⟩

theorem entriesAt_of_pageAt {page : List PyValue} {next : PyValue} (h : l.pageAt n = .ok (page, next)) : l.entriesAt n = page := by
  rw [entriesAt, h]

/-- A fetch that asks has been told so each time, and holds all that was listed. -/
theorem fetchAfter_asking_iff {cursor : PyValue} : l.fetchAfter n = .asking cursor tools ↔
    cursor = l.cursorAt n ∧ (∀ k < n, l.HasNext k) ∧ l.enterPage .empty (l.entriesBefore n) = .ok tools := by
  induction n generalizing cursor tools with
  | zero =>
    constructor
    · intro h
      cases h
      exact ⟨rfl, fun k hk => absurd hk (Nat.not_lt_zero k), rfl⟩
    · rintro ⟨rfl, -, htools⟩
      cases htools
      rfl
  | succ n ih =>
    have hcursor : ∀ {page next}, l.pageAt n = .ok (page, next) → l.cursorAt (n + 1) = next := by
      intro page next hpage
      unfold pageAt at hpage
      rw [cursorAt, hpage]
    rw [fetchAfter, ask_asking_iff]
    constructor
    · rintro ⟨cursor₀, tools₀, page, hfetch, hlist, henter, htruthy⟩
      obtain ⟨rfl, hbefore, hentered⟩ := ih.mp hfetch
      refine ⟨(hcursor hlist).symm, fun k hk => ?_, ?_⟩
      · rcases Nat.lt_succ_iff_lt_or_eq.mp hk with hk | rfl
        · exact hbefore k hk
        · exact ⟨page, cursor, hlist, htruthy⟩
      · rw [entriesBefore, entriesAt_of_pageAt hlist, enterPage_append]
        exact ⟨tools₀, hentered, henter⟩
    · rintro ⟨rfl, hbefore, hentered⟩
      obtain ⟨page, next, hpage, htruthy⟩ := hbefore n (Nat.lt_succ_self n)
      rw [entriesBefore, entriesAt_of_pageAt hpage, enterPage_append] at hentered
      obtain ⟨tools₀, hentered, henter⟩ := hentered
      rw [hcursor hpage]
      exact ⟨l.cursorAt n, tools₀, page, ih.mpr ⟨rfl, fun k hk => hbefore k (Nat.lt_succ_of_lt hk), hentered⟩, hpage, henter, htruthy⟩

/-- A fetch that ended with tools has all of them, and came to the page without a cursor. -/
theorem fetchAfter_ok (h : l.fetchAfter n = .ended (.ok tools)) : ∃ k, l.Complete k tools := by
  induction n with
  | zero => cases h
  | succ n ih =>
    rcases ask_ended_ok h with hended | ⟨cursor, tools₀, page, next, hfetch, hlist, henter, hfalsy⟩
    · exact ih hended
    · obtain ⟨rfl, -, hentered⟩ := fetchAfter_asking_iff.mp hfetch
      refine ⟨n, ⟨page, next, hlist, hfalsy⟩, enterPage_ok_iff.mp ?_⟩
      rw [entriesBefore, entriesAt_of_pageAt hlist, enterPage_append]
      exact ⟨tools₀, hentered, henter⟩

/-! ## Pages that list nothing -/

theorem mem_names_of_entriesBefore {entry : PyValue} {name : String} (hentry : entry ∈ l.entriesBefore n)
    (hname : l.rawName entry = .ok name) : name ∈ l.names := by
  induction n with
  | zero => cases hentry
  | succ n ih =>
    rcases List.mem_append.mp hentry with hbefore | hat
    · exact ih hbefore
    · unfold entriesAt at hat
      split at hat
      · rename_i page next hpage
        exact ⟨n, l.cursorAt n, page, next, hpage, entry, hat, hname⟩
      · cases hat

/-- As many entries as can be told apart are at most as many as there are names. -/
theorem length_entriesBefore_le (hfinite : l.names.Finite) (h : l.Distinct (l.entriesBefore n)) :
    (l.entriesBefore n).length ≤ hfinite.toFinset.card := by
  obtain ⟨rawNames, hnames, hnodup⟩ := h
  have hlength : (l.entriesBefore n).length = rawNames.length := (Except.forall₂_of_mapM_eq_ok hnames).length_eq
  have hdistinct : rawNames.Nodup := hnodup.of_map _
  rw [hlength, ← List.toFinset_card_of_nodup hdistinct]
  refine Finset.card_le_card (fun name hname => ?_)
  obtain ⟨entry, hentry, heq⟩ := Except.mem_of_mapM_eq_ok hnames (List.mem_toFinset.mp hname)
  exact hfinite.mem_toFinset.mpr (mem_names_of_entriesBefore hentry heq)

/-- Where names are finitely many, pages that can be told apart list nothing from some page on. -/
theorem empty_of_distinct (hfinite : l.names.Finite) (h : ∀ n, l.Distinct (l.entriesBefore n)) :
    ∃ n, ∀ k, n ≤ k → l.entriesAt k = [] := by
  have hbounded : BddAbove (Set.range (fun n => (l.entriesBefore n).length)) := by
    refine ⟨hfinite.toFinset.card, ?_⟩
    rintro _ ⟨n, rfl⟩
    exact length_entriesBefore_le hfinite (h n)
  have hgrows : Monotone (fun n => (l.entriesBefore n).length) := by
    refine monotone_nat_of_le_succ (fun n => ?_)
    simp [entriesBefore]
  -- the number of entries reaches its maximum
  obtain ⟨n, hn⟩ := Nat.sSup_mem (Set.range_nonempty _) hbounded
  refine ⟨n, fun k hk => ?_⟩
  have hle : (l.entriesBefore (k + 1)).length ≤ (l.entriesBefore n).length := by
    rw [show (l.entriesBefore n).length = _ from hn]
    exact le_csSup hbounded ⟨k + 1, rfl⟩
  have hmono := hgrows hk
  simp only [entriesBefore, List.length_append] at hle hmono
  exact List.length_eq_zero_iff.mp (by omega)

end ToolListing

/-- Of a server with finitely many tool names, a fetch ends, and with tools only if these are all, exactly if the server does not keep it
going. -/
theorem fetch_ends_iff {l : ToolListing} (hfinite : l.names.Finite) :
    (∃ n result, l.fetchAfter n = .ended result ∧ ToolListing.syncLocked (l.fetchAfter n) = false ∧
      ∀ tools, result = .ok tools → ∃ k, l.Complete k tools) ↔ ¬l.KeepsGoing := by
  constructor
  · rintro ⟨n, result, hended, -⟩ hgoing
    obtain ⟨tools, htools⟩ := ToolListing.distinct_iff.mp (hgoing.once n)
    have hasking : l.fetchAfter n = .asking (l.cursorAt n) tools :=
      ToolListing.fetchAfter_asking_iff.mpr ⟨rfl, fun k _ => hgoing.next k, htools⟩
    rw [hasking] at hended
    cases hended
  · intro hstops
    by_contra hnever
    have hasking : ∀ n, ∃ cursor tools, l.fetchAfter n = .asking cursor tools := by
      intro n
      cases hfetch : l.fetchAfter n with
      | asking cursor tools => exact ⟨cursor, tools, rfl⟩
      | ended result =>
        refine absurd ⟨n, result, hfetch, by rw [hfetch]; rfl, fun tools htools => ?_⟩ hnever
        exact ToolListing.fetchAfter_ok (by rw [hfetch, htools])
    have honce : ∀ n, l.Distinct (l.entriesBefore n) := by
      intro n
      obtain ⟨cursor, tools, hfetch⟩ := hasking n
      exact ToolListing.distinct_iff.mpr ⟨tools, (ToolListing.fetchAfter_asking_iff.mp hfetch).2.2⟩
    refine hstops ⟨fun n => ?_, honce, ToolListing.empty_of_distinct hfinite honce⟩
    obtain ⟨cursor, tools, hfetch⟩ := hasking (n + 1)
    exact (ToolListing.fetchAfter_asking_iff.mp hfetch).2.1 n (Nat.lt_succ_self n)

/-- A server with two tools on two pages. -/
def twoPages : ToolListing where
  sha := oneHash
  str _ := ""
  serverName := "s"
  client := 0
  answer _ cursor :=
    if cursor.isNone then .ok (.record [("tools", .list [.record [("name", .str "a")]]), ("nextCursor", .str "2")])
    else .ok (.record [("tools", .list [.record [("name", .str "b")]])])

theorem fetch_ends_iff_twoPages : ∃ n result, twoPages.fetchAfter n = .ended result ∧
    ToolListing.syncLocked (twoPages.fetchAfter n) = false ∧ ∀ tools, result = .ok tools → ∃ k, twoPages.Complete k tools := by
  have hfinite : twoPages.names.Finite := by
    refine (Set.finite_singleton "a" |>.union (Set.finite_singleton "b")).subset ?_
    rintro name ⟨n, cursor, page, next, hlist, entry, hentry, hname⟩
    simp only [twoPages] at hlist
    split at hlist
    · cases hlist
      obtain rfl := List.mem_singleton.mp hentry
      cases hname
      exact Or.inl rfl
    · cases hlist
      obtain rfl := List.mem_singleton.mp hentry
      cases hname
      exact Or.inr rfl
  refine (fetch_ends_iff hfinite).mpr (fun hgoing => ?_)
  obtain ⟨page, next, hpage, htruthy⟩ := hgoing.next 1
  cases hpage
  cases htruthy

/-- A server that has no tools, and a cursor for the next page of them. -/
def endlessPages : ToolListing where
  sha := oneHash
  str _ := ""
  serverName := "s"
  client := 0
  answer _ _ := .ok (.record [("tools", .list []), ("nextCursor", .str "again")])

/-- A fetch of them never ends. -/
theorem fetch_not_ends : ¬∀ l : ToolListing, l.names.Finite → ∃ n result, l.fetchAfter n = .ended result := by
  intro h
  have hnone : endlessPages.names = ∅ := by
    refine Set.eq_empty_of_forall_notMem ?_
    rintro name ⟨n, cursor, page, next, hlist, entry, hentry, -⟩
    cases hlist
    cases hentry
  have hasking : ∀ n, ∃ cursor, endlessPages.fetchAfter n = .asking cursor .empty := by
    intro n
    induction n with
    | zero => exact ⟨_, rfl⟩
    | succ n ih =>
      obtain ⟨cursor, hcursor⟩ := ih
      refine ⟨.str "again", ?_⟩
      rw [ToolListing.fetchAfter, hcursor]
      rfl
  obtain ⟨n, result, hended⟩ := h endlessPages (by rw [hnone]; exact Set.finite_empty)
  obtain ⟨cursor, hcursor⟩ := hasking n
  rw [hcursor] at hended
  cases hended

end Pydsh
