import LunaCore.Values.Json

/-! Flow definitions and the graph `FlowRunner._build_graph` makes of one.

    Nodes, edges and conditions are the schema's. Of LangGraph only the names START and END are
    needed here: a graph is the nodes added to it, the node START leads to, and how every source
    node leads on. What LangGraph does with a graph is a parameter of the runner's model. -/

namespace LunaCore.Flow
open LunaCore.Values

/-- `END_TOKEN`. -/
def endToken : String := "__end__"

inductive NodeType where
  | action
  | aiAgent
  | condition
  | humanCheckpoint
  | trigger
  | output
  deriving DecidableEq

/-- The literal the schema stores for a node type. -/
def NodeType.value : NodeType → String
  | .action => "action"
  | .aiAgent => "ai_agent"
  | .condition => "condition"
  | .humanCheckpoint => "human_checkpoint"
  | .trigger => "trigger"
  | .output => "output"

inductive ConditionOperator where
  | eq | ne | gt | gte | lt | lte | within | contains
  deriving DecidableEq

structure FlowEdgeCondition where
  field : String
  operator : ConditionOperator
  value : Json
  deriving DecidableEq

structure FlowNode where
  id : String
  type : NodeType
  name : String
  config : Dict
  deriving DecidableEq

/-- An edge; the schema's `from` and `to` are `source` and `dest` here. -/
structure FlowEdge where
  source : String
  dest : String
  condition : Option FlowEdgeCondition
  deriving DecidableEq

structure FlowDefinition where
  entryPoint : String
  nodes : List FlowNode
  edges : List FlowEdge
  deriving DecidableEq

/-- `nodes_by_id[id]`: a dict comprehension keeps the last node of an id. -/
def FlowDefinition.nodeById (d : FlowDefinition) (id : String) : Option FlowNode :=
  d.nodes.reverse.find? fun node => node.id == id

theorem nodeById_id {d : FlowDefinition} {id : String} {node : FlowNode}
    (h : d.nodeById id = some node) : node.id = id := by
  simpa using List.find?_some h

/-- Where an edge of the graph leads. -/
inductive Target where
  | finish
  | node (id : String)
  deriving DecidableEq

/-- `END if edge.to == END_TOKEN else edge.to`. -/
def target (dest : String) : Target := if dest = endToken then .finish else .node dest

/-- How a source leads on: one `add_edge` a target, or `add_conditional_edges` with its router's
    edges, default and mapping. -/
inductive Route where
  | direct (targets : List Target)
  | conditional (edges : List FlowEdge) (default : String) (mapping : List (String × Target))
  deriving DecidableEq

/-- A `StateGraph` before `compile`. -/
structure Graph where
  entry : String
  nodes : List FlowNode
  routes : List (String × Route)
  deriving DecidableEq

/-- `outgoing.setdefault(edge.from_, []).append(edge)`. -/
def setdefaultAppend (edge : FlowEdge) : List (String × List FlowEdge) → List (String × List FlowEdge)
  | [] => [(edge.source, [edge])]
  | (source, edges) :: rest =>
    if source = edge.source then (source, edges ++ [edge]) :: rest
    else (source, edges) :: setdefaultAppend edge rest

/-- The edges grouped by source node, sources in the order they first appear. -/
def outgoing (edges : List FlowEdge) : List (String × List FlowEdge) :=
  edges.foldl (fun groups edge => setdefaultAppend edge groups) []

/-- `mapping[edge.to] = target`, keeping the place of a key that is there. -/
def mapTarget (mapping : List (String × Target)) (dest : String) : List (String × Target) :=
  if dest ∈ mapping.map Prod.fst then mapping else mapping ++ [(dest, target dest)]

/-- How one source leads on, from its edges. -/
def route (edges : List FlowEdge) : Route :=
  let conditional := edges.filter fun e => e.condition.isSome
  let unconditional := edges.filter fun e => e.condition.isNone
  if conditional.isEmpty then .direct (unconditional.map fun e => target e.dest)
  else
    let mapping := edges.foldl (fun m e => mapTarget m e.dest) []
    match unconditional with
    | [] => .conditional edges endToken (mapTarget mapping endToken)
    | e :: _ => .conditional edges e.dest mapping

/-- `_build_graph`, with the text of the `ValueError` it raises. A repeated node id is refused by
    `add_node`, which the runner's model counts among LangGraph's own checks. -/
def buildGraph (d : FlowDefinition) : Except String Graph :=
  if d.entryPoint ∈ d.nodes.map FlowNode.id then
    match (outgoing d.edges).find? fun group => decide (group.1 ∉ d.nodes.map FlowNode.id) with
    | some (source, _) => .error ("edge.from references unknown node: " ++ source)
    | none =>
      let routes := (outgoing d.edges).map fun group => (group.1, route group.2)
      let terminal := (d.nodes.map FlowNode.id).filter fun id => decide (id ∉ routes.map Prod.fst)
      .ok ⟨d.entryPoint, d.nodes, routes ++ terminal.map fun id => (id, .direct [.finish])⟩
  else .error ("entry_point '" ++ d.entryPoint ++ "' is not in nodes")

/-- A graph that is built leads from START to the definition's entry point, one of its nodes. -/
theorem buildGraph_entry {d : FlowDefinition} {g : Graph} (h : buildGraph d = .ok g) :
    g.entry = d.entryPoint ∧ d.entryPoint ∈ d.nodes.map FlowNode.id := by
  rw [buildGraph] at h
  split at h
  case isFalse => cases h
  case isTrue hmem =>
    split at h
    · cases h
    · cases h
      exact ⟨rfl, hmem⟩

end LunaCore.Flow
