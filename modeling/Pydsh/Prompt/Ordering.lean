import Mathlib.Data.List.Nodup
import Pydsh.Lib.Result
import Pydsh.Python.Value

/-!
# The order of tools

`prompt/ordering.py`, and what `SystemPrompt` makes of it. A configured order names the tools that matter and has a marker where the
others go, which are sorted by name there. `orderTools_spec` is about orders with one marker.
-/

namespace Pydsh

/-- The schema of a tool. -/
structure ToolSchema where
  name : String
  description : String
  parameters : Json

/-- `TOOL_ORDER_REST` -/
def toolOrderRest : String := "<unlisted-tools>"

/-- What `order_tools` raises. -/
inductive ToolOrderError where
  /-- `ToolOrderError`: names of no tool, and those that there are. -/
  | unregistered (unknown registered : List String)
  /-- `KeyError`. -/
  | missing (name : String)

/-- `by_name[name]` -/
def toolNamed (tools : List ToolSchema) (name : String) : Option ToolSchema := tools.reverse.find? (fun tool => tool.name == name)

/-- `tools`, sorted by name. -/
def sortedTools (tools : List ToolSchema) : List ToolSchema := tools.mergeSort (fun a b => a.name ≤ b.name)

/-- The loop of `order_tools` over the configured order. -/
def placeTools (tools rest : List ToolSchema) : List String → List String → Except ToolOrderError (List ToolSchema)
  | [], _ => .ok []
  | name :: order, emitted =>
    if name = toolOrderRest then (placeTools tools rest order emitted).map (rest ++ ·)
    else if name ∈ emitted then placeTools tools rest order emitted
    else
      match toolNamed tools name with
      | none => .error (.missing name)
      | some tool => (placeTools tools rest order (name :: emitted)).map (tool :: ·)

/-- `order_tools`. -/
def orderTools (tools : List ToolSchema) (toolOrder : Option (List String)) : Except ToolOrderError (List ToolSchema) :=
  match toolOrder with
  | none => .ok (sortedTools tools)
  | some order =>
    if tools.isEmpty then .ok []
    else
      let unknown := order.filter (fun name => name ≠ toolOrderRest ∧ name ∉ tools.map (·.name))
      if unknown ≠ [] then .error (.unregistered unknown ((tools.map (·.name)).mergeSort (fun a b => a ≤ b)))
      else
        let listed := order.filter (fun name => name ≠ toolOrderRest)
        placeTools tools (sortedTools (tools.filter (fun tool => tool.name ∉ listed))) order []

/-- The check of `SystemPrompt.__init__`. -/
def acceptToolOrder (toolOrder : Option (List String)) : Except String (Option (List String)) :=
  match toolOrder with
  | none => .ok none
  | some order =>
    if toolOrderRest ∈ order then .ok (some order)
    else .error (s!"tool_order must contain the rest marker '{toolOrderRest}' — it is where tools you did not name are inserted, " ++
      "and without it a newly registered tool would silently never be shown")

/-- The loop of `assemble` over what the tool providers return: of each name the first. -/
def firstOfEachName : List ToolSchema → List String → List ToolSchema
  | [], _ => []
  | tool :: tools, seen => if tool.name ∈ seen then firstOfEachName tools seen else tool :: firstOfEachName tools (tool.name :: seen)

/-! ## The loop -/

theorem toolNamed_some {tools : List ToolSchema} {name : String} {tool : ToolSchema} (h : toolNamed tools name = some tool) :
    tool ∈ tools ∧ tool.name = name :=
  ⟨List.mem_reverse.mp (List.mem_of_find?_eq_some h), by simpa using List.find?_some h⟩

theorem exists_toolNamed {tools : List ToolSchema} {name : String} (h : name ∈ tools.map (·.name)) :
    ∃ tool, toolNamed tools name = some tool := by
  obtain ⟨tool, htool, hname⟩ := List.mem_map.mp h
  cases hfind : toolNamed tools name with
  | some found => exact ⟨found, rfl⟩
  | none =>
    have hnone := List.find?_eq_none.mp hfind tool (List.mem_reverse.mpr htool)
    simp [hname] at hnone

theorem eraseDups_filter_cons {name : String} {names emitted : List String} (h : name ∉ emitted) :
    ((name :: names).filter (fun other => other ∉ emitted)).eraseDups =
      name :: (names.filter (fun other => other ∉ name :: emitted)).eraseDups := by
  rw [List.filter_cons_of_pos (by simpa using h), List.eraseDups_cons, List.filter_filter]
  refine congrArg (fun names => name :: List.eraseDups names) (List.filter_congr ?_)
  intro other _
  rw [Bool.eq_iff_iff]
  simp

/-- Names that are listed, each at its first place, without those that were emitted. -/
theorem placeTools_names {tools rest : List ToolSchema} {names emitted : List String} (hmarker : toolOrderRest ∉ names)
    (hknown : ∀ name ∈ names, name ∈ tools.map (·.name)) :
    ∃ placed, placeTools tools rest names emitted = .ok placed ∧ (∀ tool ∈ placed, tool ∈ tools) ∧
      placed.map (·.name) = (names.filter (fun name => name ∉ emitted)).eraseDups := by
  induction names generalizing emitted with
  | nil => exact ⟨[], rfl, fun _ h => absurd h List.not_mem_nil, rfl⟩
  | cons name names ih =>
    obtain ⟨hne, hmarker⟩ := not_or.mp (List.mem_cons.not.mp hmarker)
    have hrest := fun emitted => @ih emitted hmarker (fun other hother => hknown other (List.mem_cons_of_mem name hother))
    rw [placeTools, if_neg (Ne.symm hne)]
    by_cases hemitted : name ∈ emitted
    · rw [if_pos hemitted, List.filter_cons_of_neg (by simpa using hemitted)]
      exact hrest emitted
    · obtain ⟨tool, htool⟩ := exists_toolNamed (hknown name List.mem_cons_self)
      obtain ⟨hmem, hname⟩ := toolNamed_some htool
      obtain ⟨placed, hplaced, hall, hnames⟩ := hrest (name :: emitted)
      rw [if_neg hemitted, htool, hplaced]
      refine ⟨tool :: placed, rfl, ?_, ?_⟩
      · intro other hother
        rcases List.mem_cons.mp hother with rfl | hother
        · exact hmem
        · exact hall other hother
      · rw [List.map_cons, hnames, hname, eraseDups_filter_cons hemitted]

/-- The names in front of the marker, the rest, and the names behind the marker. -/
theorem placeTools_marker {tools rest : List ToolSchema} {before after emitted : List String} (hbefore : toolOrderRest ∉ before)
    (hafter : toolOrderRest ∉ after) (hknown : ∀ name ∈ before ++ after, name ∈ tools.map (·.name)) :
    ∃ front back, placeTools tools rest (before ++ toolOrderRest :: after) emitted = .ok (front ++ rest ++ back) ∧
      (∀ tool ∈ front ++ back, tool ∈ tools) ∧ front.map (·.name) = (before.filter (fun name => name ∉ emitted)).eraseDups ∧
      back.map (·.name) = (after.filter (fun name => name ∉ emitted ∧ name ∉ before)).eraseDups := by
  induction before generalizing emitted with
  | nil =>
    obtain ⟨back, hback, hall, hnames⟩ := @placeTools_names tools rest after emitted hafter hknown
    refine ⟨[], back, ?_, hall, rfl, ?_⟩
    · rw [List.nil_append, placeTools, if_pos rfl, hback]
      rfl
    · rw [hnames]
      simp
  | cons name before ih =>
    obtain ⟨hne, hbefore⟩ := not_or.mp (List.mem_cons.not.mp hbefore)
    have hrest := fun emitted => @ih emitted hbefore (fun other hother => hknown other (List.mem_cons_of_mem name hother))
    rw [List.cons_append, placeTools, if_neg (Ne.symm hne)]
    by_cases hemitted : name ∈ emitted
    · obtain ⟨front, back, hplaced, hall, hfront, hback⟩ := hrest emitted
      rw [if_pos hemitted, List.filter_cons_of_neg (by simpa using hemitted)]
      refine ⟨front, back, hplaced, hall, hfront, ?_⟩
      rw [hback]
      refine congrArg List.eraseDups (List.filter_congr ?_)
      intro other _
      rw [decide_eq_decide, List.mem_cons, not_or]
      constructor
      · rintro ⟨hnew, hnot⟩
        exact ⟨hnew, fun heq => hnew (heq ▸ hemitted), hnot⟩
      · rintro ⟨hnew, -, hnot⟩
        exact ⟨hnew, hnot⟩
    · obtain ⟨tool, htool⟩ := exists_toolNamed (hknown name List.mem_cons_self)
      obtain ⟨hmem, hname⟩ := toolNamed_some htool
      obtain ⟨front, back, hplaced, hall, hfront, hback⟩ := hrest (name :: emitted)
      rw [if_neg hemitted, htool, hplaced]
      refine ⟨tool :: front, back, rfl, ?_, ?_, ?_⟩
      · intro other hother
        rcases List.mem_cons.mp hother with rfl | hother
        · exact hmem
        · exact hall other hother
      · rw [List.map_cons, hfront, hname, eraseDups_filter_cons hemitted]
      · rw [hback]
        refine congrArg List.eraseDups (List.filter_congr ?_)
        intro other _
        rw [decide_eq_decide, List.mem_cons, List.mem_cons, not_or, not_or]
        constructor
        · rintro ⟨⟨hother, hnew⟩, hnot⟩
          exact ⟨hnew, hother, hnot⟩
        · rintro ⟨hnew, hother, hnot⟩
          exact ⟨⟨hother, hnew⟩, hnot⟩

/-! ## The order -/

/-- The order names a tool that there is not, among others that there are. -/
def NamesUnregistered (tools : List ToolSchema) (order : List String) : Prop :=
  tools ≠ [] ∧ ∃ name ∈ order, name ≠ toolOrderRest ∧ name ∉ tools.map (·.name)

/-- The tools that are named before the marker, as they are listed, the tools that are not named, sorted by name, and the tools that are
named behind the marker, as they are listed. A name that is repeated counts where it stands first. -/
def LaidOut (tools : List ToolSchema) (before after : List String) (ordered : List ToolSchema) : Prop :=
  ∃ front rest back, ordered = front ++ rest ++ back ∧ front.map (·.name) = before.eraseDups ∧
    rest.Perm (tools.filter (fun tool => tool.name ∉ before ++ after)) ∧ rest.Pairwise (fun a b => a.name ≤ b.name) ∧
    back.map (·.name) = (after.filter (fun name => name ∉ before)).eraseDups

theorem sortedTools_perm (tools : List ToolSchema) : (sortedTools tools).Perm tools := List.mergeSort_perm tools _

theorem sortedTools_pairwise (tools : List ToolSchema) : (sortedTools tools).Pairwise (fun a b => a.name ≤ b.name) :=
  pairwise_mergeSort_text ToolSchema.name tools

theorem nodup_eraseDups (names : List String) : names.eraseDups.Nodup := by
  induction hlength : names.length using Nat.strong_induction_on generalizing names with
  | _ n ih =>
    cases names with
    | nil => exact List.nodup_nil
    | cons name names =>
      have hle := List.length_filter_le (fun other => !other == name) names
      rw [List.length_cons] at hlength
      rw [List.eraseDups_cons, List.nodup_cons]
      exact ⟨by simp [List.mem_eraseDups], ih _ (by omega) _ rfl⟩

/-- A list of tools with the names of a list without repetitions has no tool twice, and its names are those of the list. -/
theorem nodup_of_names {listed : List ToolSchema} {names : List String} (h : listed.map (·.name) = names.eraseDups) :
    listed.Nodup ∧ ∀ tool ∈ listed, tool.name ∈ names := by
  refine ⟨List.Nodup.of_map ToolSchema.name (h ▸ nodup_eraseDups names), ?_⟩
  intro tool htool
  have hmem := List.mem_map_of_mem (f := ToolSchema.name) htool
  rwa [h, List.mem_eraseDups] at hmem

theorem mem_of_names {tools listed : List ToolSchema} (hnames : (tools.map (·.name)).Nodup) (hall : ∀ tool ∈ listed, tool ∈ tools)
    {names : List String} (h : listed.map (·.name) = names.eraseDups) {tool : ToolSchema} (htool : tool ∈ tools)
    (hname : tool.name ∈ names) : tool ∈ listed := by
  rw [← List.mem_eraseDups, ← h] at hname
  obtain ⟨placed, hmem, heq⟩ := List.mem_map.mp hname
  obtain rfl := List.inj_on_of_nodup_map hnames (hall placed hmem) htool heq
  exact hmem

theorem perm_of_parts {tools front rest back : List ToolSchema} {before after : List String} (hnames : (tools.map (·.name)).Nodup)
    (hall : ∀ tool ∈ front ++ back, tool ∈ tools) (hfront : front.map (·.name) = before.eraseDups)
    (hperm : rest.Perm (tools.filter (fun tool => tool.name ∉ before ++ after)))
    (hback : back.map (·.name) = (after.filter (fun name => name ∉ before)).eraseDups) : (front ++ rest ++ back).Perm tools := by
  have hinrest : ∀ tool, tool ∈ rest ↔ tool ∈ tools ∧ tool.name ∉ before ++ after := by
    intro tool
    rw [hperm.mem_iff, List.mem_filter, decide_eq_true_eq]
  have hinafter : ∀ name : String, name ∈ after.filter (fun name => name ∉ before) ↔ name ∈ after ∧ name ∉ before := by
    intro name
    rw [List.mem_filter, decide_eq_true_eq]
  obtain ⟨hfrontNodup, hinfront⟩ := nodup_of_names hfront
  obtain ⟨hbackNodup, hinback⟩ := nodup_of_names hback
  have hrestNodup : rest.Nodup := hperm.nodup_iff.mpr ((List.Nodup.of_map _ hnames).filter _)
  have hnodup : (front ++ rest ++ back).Nodup := by
    refine List.nodup_append'.mpr ⟨List.nodup_append'.mpr ⟨hfrontNodup, hrestNodup, ?_⟩, hbackNodup, ?_⟩
    · intro tool htool htool'
      exact ((hinrest tool).mp htool').2 (List.mem_append_left _ (hinfront tool htool))
    · intro tool htool htool'
      obtain ⟨hafter, hbefore⟩ := (hinafter tool.name).mp (hinback tool htool')
      rcases List.mem_append.mp htool with htool | htool
      · exact hbefore (hinfront tool htool)
      · exact ((hinrest tool).mp htool).2 (List.mem_append_right _ hafter)
  rw [List.perm_ext_iff_of_nodup hnodup (List.Nodup.of_map _ hnames)]
  intro tool
  constructor
  · intro htool
    rcases List.mem_append.mp htool with htool | htool
    · rcases List.mem_append.mp htool with htool | htool
      · exact hall tool (List.mem_append_left _ htool)
      · exact ((hinrest tool).mp htool).1
    · exact hall tool (List.mem_append_right _ htool)
  · -- a tool stands where its name is listed, or among the rest
    intro htool
    by_cases hbefore : tool.name ∈ before
    · have hmem := mem_of_names hnames (fun placed hplaced => hall placed (List.mem_append_left _ hplaced)) hfront htool hbefore
      exact List.mem_append_left _ (List.mem_append_left _ hmem)
    · by_cases hafter : tool.name ∈ after
      · exact List.mem_append_right _ (mem_of_names hnames (fun placed hplaced => hall placed (List.mem_append_right _ hplaced)) hback
          htool ((hinafter tool.name).mpr ⟨hafter, hbefore⟩))
      · refine List.mem_append_left _ (List.mem_append_right _ ((hinrest tool).mpr ⟨htool, ?_⟩))
        exact fun hmem => (List.mem_append.mp hmem).elim hbefore hafter

theorem placeTools_perm {tools : List ToolSchema} (hnames : (tools.map (·.name)).Nodup) {before after : List String}
    (hbefore : toolOrderRest ∉ before) (hafter : toolOrderRest ∉ after) (hknown : ∀ name ∈ before ++ after, name ∈ tools.map (·.name)) :
    ∃ ordered, placeTools tools (sortedTools (tools.filter (fun tool => tool.name ∉ before ++ after)))
        (before ++ toolOrderRest :: after) [] = .ok ordered ∧ ordered.Perm tools ∧ LaidOut tools before after ordered := by
  obtain ⟨front, back, hplaced, hall, hfront, hback⟩ :=
    @placeTools_marker tools (sortedTools (tools.filter (fun tool => tool.name ∉ before ++ after))) before after [] hbefore hafter hknown
  have hnew : ∀ names : List String, names.filter (fun name => name ∉ ([] : List String)) = names := fun names => by simp
  rw [hnew] at hfront
  have hnew' : after.filter (fun name => name ∉ ([] : List String) ∧ name ∉ before) = after.filter (fun name => name ∉ before) :=
    List.filter_congr (fun name _ => by simp)
  rw [hnew'] at hback
  have hperm := sortedTools_perm (tools.filter (fun tool => tool.name ∉ before ++ after))
  exact ⟨_, hplaced, perm_of_parts hnames hall hfront hperm hback, front, _, back, rfl, hfront, hperm, sortedTools_pairwise _, hback⟩

theorem marker_mem_of_accept {order : List String} {accepted : Option (List String)} (h : acceptToolOrder (some order) = .ok accepted) :
    toolOrderRest ∈ order := by
  by_contra hmarker
  simp only [acceptToolOrder, if_neg hmarker, reduceCtorEq] at h

/-- An order that names a tool that there is not is refused, unless there are none. -/
theorem orderTools_unregistered {tools : List ToolSchema} {order : List String} (h : NamesUnregistered tools order) :
    ∃ e, orderTools tools (some order) = .error e := by
  obtain ⟨hsome, name, hname, hne, hunknown⟩ := h
  have hfound : order.filter (fun name => name ≠ toolOrderRest ∧ name ∉ tools.map (·.name)) ≠ [] := by
    refine List.ne_nil_of_mem (a := name) (List.mem_filter.mpr ⟨hname, ?_⟩)
    rw [decide_eq_true_eq]
    exact ⟨hne, hunknown⟩
  rw [orderTools, if_neg (by simpa using hsome)]
  simp only [hfound, ne_eq, not_false_eq_true, if_true]
  exact ⟨_, rfl⟩

theorem orderTools_registered {tools : List ToolSchema} (hsome : tools ≠ []) {before after : List String} (hbefore : toolOrderRest ∉ before)
    (hafter : toolOrderRest ∉ after) (hknown : ∀ name ∈ before ++ after, name ∈ tools.map (·.name)) :
    orderTools tools (some (before ++ toolOrderRest :: after)) =
      placeTools tools (sortedTools (tools.filter (fun tool => tool.name ∉ before ++ after))) (before ++ toolOrderRest :: after) [] := by
  have hnone : (before ++ toolOrderRest :: after).filter (fun name => name ≠ toolOrderRest ∧ name ∉ tools.map (·.name)) = [] := by
    rw [List.filter_eq_nil_iff]
    intro name hname
    rw [decide_eq_true_eq]
    rintro ⟨hne, hunknown⟩
    rcases List.mem_append.mp hname with hname | hname
    · exact hunknown (hknown name (List.mem_append_left _ hname))
    · exact hunknown (hknown name (List.mem_append_right _ ((List.mem_cons.mp hname).resolve_left hne)))
  have hkeep : ∀ names : List String, toolOrderRest ∉ names → names.filter (fun name => name ≠ toolOrderRest) = names := by
    intro names hmarker
    rw [List.filter_eq_self]
    intro name hname
    rw [decide_eq_true_eq]
    rintro rfl
    exact hmarker hname
  have hlisted : (before ++ toolOrderRest :: after).filter (fun name => name ≠ toolOrderRest) = before ++ after := by
    rw [List.filter_append, List.filter_cons_of_neg (by simp), hkeep before hbefore, hkeep after hafter]
  rw [orderTools, if_neg (by simpa using hsome)]
  simp only [hnone, hlisted, ne_eq, not_true_eq_false, if_false]

/-- Tools with distinct names and an order that is accepted and has one marker. Without an order the tools are sorted by name, and no
tools are in no order; an order that names a tool that there is not is refused; any other lays all tools out, each once. -/
theorem orderTools_spec {tools : List ToolSchema} (hnames : (tools.map (·.name)).Nodup) {toolOrder : Option (List String)}
    (haccept : acceptToolOrder toolOrder = .ok toolOrder) (honce : ∀ order, toolOrder = some order → order.count toolOrderRest ≤ 1) :
    (∀ order, toolOrder = some order → NamesUnregistered tools order → ∃ e, orderTools tools toolOrder = .error e) ∧
      ((∀ order, toolOrder = some order → ¬NamesUnregistered tools order) →
        ∃ ordered, orderTools tools toolOrder = .ok ordered ∧ ordered.Perm tools ∧
          (toolOrder = none → ordered.Pairwise (fun a b => a.name ≤ b.name)) ∧
          ∀ order, toolOrder = some order → tools ≠ [] →
            ∃ before after, order = before ++ toolOrderRest :: after ∧ LaidOut tools before after ordered) := by
  cases toolOrder with
  | none =>
    refine ⟨fun order horder => absurd horder (by simp),
      fun _ => ⟨_, rfl, sortedTools_perm tools, fun _ => sortedTools_pairwise tools, ?_⟩⟩
    exact fun order horder => absurd horder (by simp)
  | some order =>
    obtain ⟨before, after, rfl⟩ := List.append_of_mem (marker_mem_of_accept haccept)
    have hcount := honce _ rfl
    rw [List.count_append, List.count_cons_self] at hcount
    have hbefore : toolOrderRest ∉ before := List.count_eq_zero.mp (by omega)
    have hafter : toolOrderRest ∉ after := List.count_eq_zero.mp (by omega)
    refine ⟨?_, ?_⟩
    · rintro order horder hunregistered
      cases horder
      exact orderTools_unregistered hunregistered
    · intro hregistered
      by_cases hsome : tools = []
      · subst hsome
        exact ⟨[], rfl, .refl _, fun _ => .nil, fun _ _ hne => absurd rfl hne⟩
      · have hknown : ∀ name ∈ before ++ after, name ∈ tools.map (·.name) := by
          intro name hname
          by_contra hunknown
          refine hregistered _ rfl ⟨hsome, name, ?_, ?_, hunknown⟩
          · rcases List.mem_append.mp hname with hname | hname
            · exact List.mem_append_left _ hname
            · exact List.mem_append_right _ (List.mem_cons_of_mem _ hname)
          · rintro rfl
            exact (List.mem_append.mp hname).elim hbefore hafter
        obtain ⟨ordered, hplaced, hperm, hlaid⟩ := placeTools_perm hnames hbefore hafter hknown
        refine ⟨ordered, (orderTools_registered hsome hbefore hafter hknown).trans hplaced, hperm, fun h => absurd h (by simp), ?_⟩
        intro order horder _
        cases horder
        exact ⟨before, after, rfl, hlaid⟩

/-! ### Three tools -/

def writeTool : ToolSchema := ⟨"write", "", .obj []⟩

def readTool : ToolSchema := ⟨"read", "", .obj []⟩

def bashTool : ToolSchema := ⟨"bash", "", .obj []⟩

theorem orderTools_spec_three : ∃ ordered,
    orderTools [writeTool, readTool, bashTool] (some ["read", toolOrderRest]) = .ok ordered ∧
      ordered.Perm [writeTool, readTool, bashTool] := by
  have hspec := @orderTools_spec [writeTool, readTool, bashTool] (by decide) (some ["read", toolOrderRest]) rfl
    (fun order horder => by cases horder; decide)
  obtain ⟨ordered, hordered, hperm, -⟩ := hspec.2 (fun order horder => by
    cases horder
    rintro ⟨-, name, hname, hne, hunknown⟩
    simp only [List.mem_cons, List.not_mem_nil, or_false] at hname
    rcases hname with rfl | rfl
    · exact hunknown (by decide)
    · exact hne rfl)
  exact ⟨ordered, hordered, hperm⟩

/-- The tools that are not named do not keep their own order, and an order that is accepted may name a tool that there is not. -/
theorem not_orderTools_own_order :
    (¬∃ ordered, orderTools [writeTool, bashTool] (some [toolOrderRest]) = .ok ordered ∧
      ordered.filter (fun tool => tool.name ∉ [toolOrderRest]) = [writeTool, bashTool].filter (fun tool => tool.name ∉ [toolOrderRest])) ∧
      ∃ e, orderTools [writeTool, bashTool] (some ["ghost", toolOrderRest]) = .error e := by
  refine ⟨?_, orderTools_unregistered ⟨by simp, "ghost", by simp, by decide, by decide⟩⟩
  rintro ⟨ordered, hordered, hown⟩
  have hplaced := @orderTools_registered [writeTool, bashTool] (by simp) [] [] List.not_mem_nil List.not_mem_nil
    (fun _ hname => absurd hname List.not_mem_nil)
  rw [List.nil_append, hordered] at hplaced
  have hsorted : ordered.Pairwise (fun a b => a.name ≤ b.name) := by
    rw [Except.ok.inj hplaced]
    simp only [List.append_nil]
    exact sortedTools_pairwise _
  have hfiltered := hsorted.filter (fun tool => tool.name ∉ [toolOrderRest])
  rw [hown] at hfiltered
  revert hfiltered
  decide

end Pydsh
