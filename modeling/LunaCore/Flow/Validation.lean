import LunaCore.Flow.NodeConfig

/-! The two readings of a definition's graph: `validate_definition` for the editor, and
    `_build_graph` with LangGraph's `compile` for the run.

    Both want distinct ids, an entry point and edges among the nodes. They part over `__end__`:
    `_build_graph` reads it as END, the validator as one more node id. LangGraph refuses some names
    for nodes; which ones is a parameter, of which only that END is among them matters. -/

namespace LunaCore.Flow
open LunaCore.Values

def FlowDefinition.ids (d : FlowDefinition) : List String := d.nodes.map FlowNode.id

/-! ### The validator -/

/-- The ids that stand again after one of the same name. -/
def duplicateIds : List String → List String → List String
  | _, [] => []
  | seen, id :: ids => (if id ∈ seen then [id] else []) ++ duplicateIds (id :: seen) ids

/-- The items of a list, where all are strings. -/
def strings : List Json → Option (List String)
  | [] => some []
  | .str s :: items => (strings items).map (s :: ·)
  | _ :: _ => none

section
variable (repr : Json → String)

/-- One reference of `inherit_history_from`. -/
def inheritErrors (d : FlowDefinition) (node : FlowNode) (ref : String) : List String :=
  if ref = node.id then ["node " ++ repr (.str node.id) ++ ": cannot inherit from itself"]
  else if ref ∉ d.ids then
    ["node " ++ repr (.str node.id) ++ ": inherit_history_from references unknown node " ++
      repr (.str ref)]
  else []

def malformedInherit (node : FlowNode) : String :=
  "node " ++ repr (.str node.id) ++ ": inherit_history_from must be a list of node ids"

/-- The field `inherit_history_from`, where it is not null. -/
def historyErrors (d : FlowDefinition) (node : FlowNode) : List String :=
  match node.config.get "inherit_history_from" with
  | none | some .null => []
  | some (.arr items) =>
    match strings items with
    | some refs => refs.flatMap (inheritErrors repr d node)
    | none => [malformedInherit repr node]
  | some _ => [malformedInherit repr node]

def nodeErrors (d : FlowDefinition) (node : FlowNode) : List String :=
  match node.type with
  | .action =>
    if given node.config "operation_id" then []
    else ["node " ++ repr (.str node.id) ++ " (action) missing config.operation_id"]
  | .aiAgent =>
    (if given node.config "agent_id" then []
      else ["node " ++ repr (.str node.id) ++ " (ai_agent) missing config.agent_id"]) ++
    historyErrors repr d node
  | _ => []

def edgeErrors (d : FlowDefinition) (entry : FlowEdge × ℕ) : List String :=
  (if entry.1.source ∈ d.ids then []
    else ["edge[" ++ toString entry.2 ++ "].from " ++ repr (.str entry.1.source) ++
      " references unknown node"]) ++
  (if entry.1.dest ∈ d.ids then []
    else ["edge[" ++ toString entry.2 ++ "].to " ++ repr (.str entry.1.dest) ++
      " references unknown node"])

/-- `validate_definition`: the errors it raises with; it accepts where there are none. -/
def validateDefinition (d : FlowDefinition) : List String :=
  (match duplicateIds [] d.ids with
    | [] => []
    | duplicates => ["duplicate node ids: " ++
        repr (.arr ((duplicates.dedup.mergeSort fun a b => decide (a ≤ b)).map Json.str))]) ++
  (if d.entryPoint ∈ d.ids then []
    else ["entry_point " ++ repr (.str d.entryPoint) ++ " does not match any node id"]) ++
  d.edges.zipIdx.flatMap (edgeErrors repr d) ++
  d.nodes.flatMap (nodeErrors repr d)

end

/-- No id is reported just when none repeats and none was seen before. -/
theorem duplicateIds_nil_iff (ids : List String) : ∀ seen : List String,
    duplicateIds seen ids = [] ↔ ids.Nodup ∧ List.Disjoint seen ids := by
  induction ids with
  | nil => simp [duplicateIds]
  | cons id ids ih =>
    intro seen
    rw [duplicateIds, List.append_eq_nil_iff, ih, List.nodup_cons, List.disjoint_cons_left,
      List.disjoint_cons_right]
    by_cases h : id ∈ seen
    · simp [h]
    · simp only [h, if_false, not_false_iff]
      tauto

theorem ite_nil_iff {p : Prop} [Decidable p] {text : String} :
    (if p then [] else [text]) = [] ↔ p := by
  split <;> simp_all

/-- The validator accepts a graph of distinct nodes whose edges and entry are among them, and
    whose nodes it finds nothing wrong with. -/
theorem validateDefinition_nil_iff (repr : Json → String) (d : FlowDefinition) :
    validateDefinition repr d = [] ↔
      d.ids.Nodup ∧ d.entryPoint ∈ d.ids ∧ (∀ e ∈ d.edges, e.source ∈ d.ids ∧ e.dest ∈ d.ids) ∧
        ∀ node ∈ d.nodes, nodeErrors repr d node = [] := by
  have hduplicates : (match duplicateIds [] d.ids with
      | [] => []
      | duplicates => ["duplicate node ids: " ++
          repr (.arr ((duplicates.dedup.mergeSort fun a b => decide (a ≤ b)).map Json.str))]) = [] ↔
        d.ids.Nodup := by
    have hiff := duplicateIds_nil_iff d.ids []
    split
    · rename_i hnone
      exact ⟨fun _ => (hiff.mp hnone).1, fun _ => rfl⟩
    · rename_i hsome
      exact ⟨nofun, fun hnodup => absurd (hiff.mpr ⟨hnodup, List.disjoint_nil_left _⟩) hsome⟩
  have hedges : d.edges.zipIdx.flatMap (edgeErrors repr d) = [] ↔
      ∀ e ∈ d.edges, e.source ∈ d.ids ∧ e.dest ∈ d.ids := by
    rw [List.flatMap_eq_nil_iff]
    have hone (entry : FlowEdge × ℕ) : edgeErrors repr d entry = [] ↔
        entry.1.source ∈ d.ids ∧ entry.1.dest ∈ d.ids := by
      rw [edgeErrors, List.append_eq_nil_iff, ite_nil_iff, ite_nil_iff]
    constructor
    · intro h e he
      obtain ⟨i, hi⟩ := List.mem_iff_getElem?.mp he
      exact (hone (e, i)).mp (h (e, i) (List.mk_mem_zipIdx_iff_getElem?.mpr hi))
    · intro h entry hentry
      exact (hone entry).mpr (h entry.1 (List.fst_mem_of_mem_zipIdx hentry))
  rw [validateDefinition, List.append_eq_nil_iff, List.append_eq_nil_iff, List.append_eq_nil_iff,
    hduplicates, ite_nil_iff, hedges, List.flatMap_eq_nil_iff]
  tauto

/-! ### The graph -/

/-- LangGraph: the names `add_node` refuses. -/
structure LangGraph where
  reserved : String → Bool
  reserved_end : reserved endToken = true

/-- Where a route can lead. -/
def Route.targets : Route → List Target
  | .direct targets => targets
  | .conditional _ _ mapping => mapping.map Prod.snd

/-- END, or a node of the graph. -/
def Target.Known (ids : List String) : Target → Prop
  | .finish => True
  | .node id => id ∈ ids

/-- `add_node` and `compile` raise nothing: the names are allowed, none is added twice, and every
    edge and branch leads to END or a node. -/
structure LangGraph.Compiles (lg : LangGraph) (g : Graph) : Prop where
  names : ∀ node ∈ g.nodes, lg.reserved node.id = false
  distinct : (g.nodes.map FlowNode.id).Nodup
  targets : ∀ entry ∈ g.routes, ∀ t ∈ entry.2.targets, t.Known (g.nodes.map FlowNode.id)

theorem target_known_iff {ids : List String} {dest : String} :
    (target dest).Known ids ↔ dest = endToken ∨ dest ∈ ids := by
  rw [target]
  split
  case isTrue h => simp [Target.Known, h]
  case isFalse h => simp [Target.Known, h]

/-- The edges so far, grouped by their source. -/
structure Grouped (edges : List FlowEdge) (groups : List (String × List FlowEdge)) : Prop where
  sound : ∀ group ∈ groups, group.2 ≠ [] ∧ ∀ e ∈ group.2, e ∈ edges ∧ e.source = group.1
  complete : ∀ e ∈ edges, ∃ group ∈ groups, e ∈ group.2

/-- One more edge goes into its group and takes no other out. -/
theorem mem_setdefaultAppend (edge : FlowEdge) (groups : List (String × List FlowEdge)) :
    (∃ group ∈ setdefaultAppend edge groups, edge ∈ group.2) ∧
      (∀ group ∈ groups, ∃ group' ∈ setdefaultAppend edge groups, group.2 ⊆ group'.2) ∧
      ∀ group ∈ setdefaultAppend edge groups, group ∈ groups ∨ (group.1 = edge.source ∧
        ∃ old, group.2 = old ++ [edge] ∧ (old = [] ∨ (edge.source, old) ∈ groups)) := by
  induction groups with
  | nil => simp [setdefaultAppend]
  | cons first groups ih =>
    obtain ⟨source, edges⟩ := first
    obtain ⟨hself, hkeep, honly⟩ := ih
    by_cases h : source = edge.source
    · rw [setdefaultAppend, if_pos h]
      refine ⟨⟨_, List.mem_cons_self, by simp⟩, ?_, ?_⟩
      · intro group hgroup
        rcases List.mem_cons.mp hgroup with rfl | hgroup
        · exact ⟨_, List.mem_cons_self, List.subset_append_left _ _⟩
        · exact ⟨group, List.mem_cons_of_mem _ hgroup, List.Subset.refl _⟩
      · intro group hgroup
        rcases List.mem_cons.mp hgroup with rfl | hgroup
        · exact .inr ⟨h, edges, rfl, .inr (h ▸ List.mem_cons_self)⟩
        · exact .inl (List.mem_cons_of_mem _ hgroup)
    · rw [setdefaultAppend, if_neg h]
      refine ⟨?_, ?_, ?_⟩
      · obtain ⟨group, hgroup, hmem⟩ := hself
        exact ⟨group, List.mem_cons_of_mem _ hgroup, hmem⟩
      · intro group hgroup
        rcases List.mem_cons.mp hgroup with rfl | hgroup
        · exact ⟨_, List.mem_cons_self, List.Subset.refl _⟩
        · obtain ⟨group', hgroup', hsub⟩ := hkeep group hgroup
          exact ⟨group', List.mem_cons_of_mem _ hgroup', hsub⟩
      · intro group hgroup
        rcases List.mem_cons.mp hgroup with rfl | hgroup
        · exact .inl List.mem_cons_self
        · rcases honly group hgroup with hold | ⟨hsource, old, hnew, hold⟩
          · exact .inl (List.mem_cons_of_mem _ hold)
          · exact .inr ⟨hsource, old, hnew, hold.imp_right (List.mem_cons_of_mem _)⟩

theorem Grouped.append {edges : List FlowEdge} {groups : List (String × List FlowEdge)}
    (h : Grouped edges groups) (edge : FlowEdge) :
    Grouped (edges ++ [edge]) (setdefaultAppend edge groups) := by
  obtain ⟨hself, hkeep, honly⟩ := mem_setdefaultAppend edge groups
  constructor
  · intro group hgroup
    rcases honly group hgroup with hold | ⟨hsource, old, hnew, hold⟩
    · exact ⟨(h.sound group hold).1, fun e he =>
        ⟨List.mem_append_left _ ((h.sound group hold).2 e he).1, ((h.sound group hold).2 e he).2⟩⟩
    · refine ⟨by simp [hnew], fun e he => ?_⟩
      rw [hnew] at he
      rcases List.mem_append.mp he with he | he
      · rcases hold with rfl | hold
        · cases he
        · obtain ⟨hmem, hsame⟩ := (h.sound _ hold).2 e he
          exact ⟨List.mem_append_left _ hmem, hsame.trans hsource.symm⟩
      · obtain rfl := List.mem_singleton.mp he
        exact ⟨List.mem_append_right _ he, hsource.symm⟩
  · intro e he
    rcases List.mem_append.mp he with he | he
    · obtain ⟨group, hgroup, hmem⟩ := h.complete e he
      obtain ⟨group', hgroup', hsub⟩ := hkeep group hgroup
      exact ⟨group', hgroup', hsub hmem⟩
    · obtain rfl := List.mem_singleton.mp he
      exact hself

theorem grouped_outgoing (edges : List FlowEdge) : Grouped edges (outgoing edges) := by
  induction edges using List.reverseRecOn with
  | nil => exact ⟨nofun, nofun⟩
  | append_singleton edges edge ih =>
    have hfold : outgoing (edges ++ [edge]) = setdefaultAppend edge (outgoing edges) := by
      simp [outgoing]
    rw [hfold]
    exact ih.append edge

/-- A mapping has every edge's target under its name, and nothing else but what it had. -/
theorem mem_foldl_mapTarget (edges : List FlowEdge) (mapping : List (String × Target))
    (hmapping : ∀ entry ∈ mapping, entry.2 = target entry.1) (entry : String × Target) :
    entry ∈ edges.foldl (fun m e => mapTarget m e.dest) mapping ↔
      entry ∈ mapping ∨ ∃ e ∈ edges, entry = (e.dest, target e.dest) := by
  induction edges generalizing mapping with
  | nil => simp
  | cons e edges ih =>
    have hnew : ∀ entry, entry ∈ mapTarget mapping e.dest ↔
        entry ∈ mapping ∨ entry = (e.dest, target e.dest) := by
      intro entry
      rw [mapTarget]
      split
      case isFalse => simp
      case isTrue hmem =>
        obtain ⟨old, hold, hdest⟩ := List.mem_map.mp hmem
        have hsame : (e.dest, target e.dest) = old := by
          rw [← hdest, ← hmapping old hold]
        constructor
        · exact .inl
        · rintro (hentry | rfl)
          · exact hentry
          · exact hsame ▸ hold
    have hkeep : ∀ entry ∈ mapTarget mapping e.dest, entry.2 = target entry.1 := by
      intro entry hentry
      rcases (hnew entry).mp hentry with hold | rfl
      · exact hmapping entry hold
      · rfl
    rw [List.foldl_cons, ih _ hkeep, hnew]
    simp only [List.mem_cons, exists_eq_or_imp, or_assoc]

/-- A route leads to known targets when the edges it is made of do. -/
theorem route_known_iff (ids : List String) (edges : List FlowEdge) :
    (∀ t ∈ (route edges).targets, t.Known ids) ↔
      ∀ e ∈ edges, e.dest = endToken ∨ e.dest ∈ ids := by
  have hmapping (entry : String × Target) :
      entry ∈ edges.foldl (fun m e => mapTarget m e.dest) [] ↔
        ∃ e ∈ edges, entry = (e.dest, target e.dest) := by
    rw [mem_foldl_mapTarget edges [] nofun]
    simp
  have hall : (∀ e ∈ edges, (target e.dest).Known ids) ↔
      ∀ e ∈ edges, e.dest = endToken ∨ e.dest ∈ ids :=
    forall₂_congr fun e _ => target_known_iff
  rw [← hall]
  rw [route]
  simp only
  split
  case isTrue hnone =>
    -- no edge has a condition: one direct target each
    have hfilter : edges.filter (fun e => e.condition.isNone) = edges := by
      rw [List.isEmpty_iff, List.filter_eq_nil_iff] at hnone
      rw [List.filter_eq_self]
      intro e he
      simpa using hnone e he
    simp [Route.targets, hfilter]
  case isFalse =>
    split
    · -- no default: the mapping gets END as well
      simp only [Route.targets, List.mem_map, forall_exists_index, and_imp]
      constructor
      · intro h e he
        refine h _ (e.dest, target e.dest) ?_ rfl
        rw [mapTarget]
        split
        · exact (hmapping _).mpr ⟨e, he, rfl⟩
        · exact List.mem_append_left _ ((hmapping _).mpr ⟨e, he, rfl⟩)
      · rintro h t entry hentry rfl
        rw [mapTarget] at hentry
        have hsplit : (∃ e ∈ edges, entry = (e.dest, target e.dest)) ∨
            entry = (endToken, target endToken) := by
          split at hentry
          · exact .inl ((hmapping entry).mp hentry)
          · rcases List.mem_append.mp hentry with hold | hnew
            · exact .inl ((hmapping entry).mp hold)
            · exact .inr (List.mem_singleton.mp hnew)
        rcases hsplit with ⟨e, he, rfl⟩ | rfl
        · exact h e he
        · exact target_known_iff.mpr (.inl rfl)
    · simp only [Route.targets, List.mem_map, forall_exists_index, and_imp]
      constructor
      · exact fun h e he => h _ _ ((hmapping (e.dest, target e.dest)).mpr ⟨e, he, rfl⟩) rfl
      · rintro h t entry hentry rfl
        obtain ⟨e, he, rfl⟩ := (hmapping entry).mp hentry
        exact h e he

/-- The run gets a compiled graph of the definition. -/
def Builds (lg : LangGraph) (d : FlowDefinition) : Prop :=
  ∃ g, buildGraph d = .ok g ∧ lg.Compiles g

/-- It does for distinct nodes of allowed names, with the entry among them and edges from them to
    them or to END. -/
theorem builds_iff (lg : LangGraph) (d : FlowDefinition) :
    Builds lg d ↔ d.ids.Nodup ∧ d.entryPoint ∈ d.ids ∧
      (∀ e ∈ d.edges, e.source ∈ d.ids ∧ (e.dest = endToken ∨ e.dest ∈ d.ids)) ∧
        ∀ node ∈ d.nodes, lg.reserved node.id = false := by
  have hgroups := grouped_outgoing d.edges
  constructor
  · rintro ⟨g, hbuild, hcompiles⟩
    rw [buildGraph] at hbuild
    split at hbuild
    case isFalse => cases hbuild
    case isTrue hentry =>
      split at hbuild
      · cases hbuild
      · rename_i hfind
        obtain rfl := Except.ok.inj hbuild
        refine ⟨hcompiles.distinct, hentry, fun e he => ?_, hcompiles.names⟩
        obtain ⟨group, hgroup, hmem⟩ := hgroups.complete e he
        constructor
        · have hknown := List.find?_eq_none.mp hfind group hgroup
          rw [((hgroups.sound group hgroup).2 e hmem).2]
          simpa [FlowDefinition.ids] using hknown
        · have hroute := hcompiles.targets (group.1, route group.2)
            (List.mem_append_left _ (List.mem_map.mpr ⟨group, hgroup, rfl⟩))
          exact (route_known_iff _ _).mp hroute e hmem
  · rintro ⟨hdistinct, hentry, hedges, hnames⟩
    have hfind : (outgoing d.edges).find? (fun group =>
        decide (group.1 ∉ d.nodes.map FlowNode.id)) = none := by
      rw [List.find?_eq_none]
      intro group hgroup
      obtain ⟨hne, hsources⟩ := hgroups.sound group hgroup
      obtain ⟨e, he⟩ := List.exists_mem_of_ne_nil _ hne
      obtain ⟨hedge, hsource⟩ := hsources e he
      have hknown := (hedges e hedge).1
      rw [hsource] at hknown
      simpa [FlowDefinition.ids] using hknown
    rw [Builds, buildGraph]
    rw [if_pos (show d.entryPoint ∈ d.nodes.map FlowNode.id from hentry), hfind]
    refine ⟨_, rfl, hnames, hdistinct, ?_⟩
    intro entry hroute
    rcases List.mem_append.mp hroute with hsource | hterminal
    · obtain ⟨group, hgroup, rfl⟩ := List.mem_map.mp hsource
      refine (route_known_iff _ _).mpr fun e he => ?_
      exact (hedges e ((hgroups.sound group hgroup).2 e he).1).2
    · obtain ⟨id, _, rfl⟩ := List.mem_map.mp hterminal
      intro t ht
      obtain rfl := List.mem_singleton.mp ht
      trivial

end LunaCore.Flow
