import LunaCore.Chat.Message

/-! The tools an agent is given: grants, the registry of system tools and the MCP catalogue.

    `_resolve_tools` filters by name what is advertised to the model, and builds the map from names
    to system tools the dispatcher looks a call up in. What the map does not hold goes to the MCP
    server under the name the model wrote. -/

namespace LunaCore.Engine
open LunaCore.Values LunaCore.Chat

inductive ToolScope where
  | catalog | context
  deriving DecidableEq

/-- `SystemTool`, less its description, schema and handler. -/
structure SystemTool where
  name : String
  scope : ToolScope
  terminal : Bool
  deriving DecidableEq

/-- An `AgentOperation` row with the name of its operation. -/
structure AgentOperation where
  name : String
  requiresApproval : Bool
  deriving DecidableEq

structure AgentSystemToolGrant where
  toolName : String
  deferred : Bool
  requiresApproval : Bool
  deriving DecidableEq

/-- An agent with its assignments of both kinds. -/
structure Agent where
  name : String
  operations : List AgentOperation
  grants : List AgentSystemToolGrant
  deriving DecidableEq

/-- What a runner resolves tools against: the registry, in registration order and one tool a name,
    and the names the MCP server lists. -/
structure Toolbox where
  registry : List SystemTool
  mcpTools : List String
  deriving DecidableEq

/-- `SystemToolRegistry.list_catalog`. -/
def Toolbox.listCatalog (box : Toolbox) : List SystemTool :=
  box.registry.filter fun t => t.scope = .catalog

/-- `SystemToolRegistry.get_many`: unknown names are dropped. -/
def Toolbox.getMany (box : Toolbox) (names : List String) : List SystemTool :=
  names.filterMap fun name => box.registry.find? fun t => t.name == name

/-- `_allowed_tool_names`: `none` for an agent without assignments, to whom all tools are open. -/
def Agent.allowedToolNames (agent : Agent) : Option (List String) :=
  let union := agent.operations.map AgentOperation.name ++
    agent.grants.map AgentSystemToolGrant.toolName
  if union = [] then none else some union

/-- `_approval_required_names`. -/
def Agent.approvalRequiredNames (agent : Agent) : List String :=
  (agent.operations.filter AgentOperation.requiresApproval).map AgentOperation.name ++
    (agent.grants.filter AgentSystemToolGrant.requiresApproval).map AgentSystemToolGrant.toolName

/-- `_deferred_tool_names`. -/
def Agent.deferredToolNames (agent : Agent) : List String :=
  (agent.grants.filter AgentSystemToolGrant.deferred).map AgentSystemToolGrant.toolName

/-- `allowed_names is None or name in allowed_names`. -/
def Agent.allows (agent : Agent) (name : String) : Bool :=
  match agent.allowedToolNames with
  | none => true
  | some names => decide (name ∈ names)

/-- A tool as the model is told of it. -/
structure LLMToolDefinition where
  name : String
  deferred : Bool
  deriving DecidableEq

/-- `_resolve_tools`: what is advertised, and the tools of `system_by_name`. -/
def resolveTools (agent : Agent) (box : Toolbox) (contextToolNames : List String) :
    List LLMToolDefinition × List SystemTool :=
  let contextTools := box.getMany contextToolNames
  let catalogTools := box.listCatalog.filter fun t => agent.allows t.name
  let mcpTools := box.mcpTools.filter agent.allows
  (contextTools.map (fun t => ⟨t.name, false⟩) ++
      catalogTools.map (fun t => ⟨t.name, decide (t.name ∈ agent.deferredToolNames)⟩) ++
      mcpTools.map (fun name => ⟨name, false⟩),
    contextTools ++ catalogTools)

/-- Where a call is dispatched to. -/
inductive Dispatcher where
  | system (tool : SystemTool)
  | mcp
  deriving DecidableEq

/-- `system_by_name.get(name)`, and the MCP client for a name that is not there. The comprehension
    keeps the last tool of a name. -/
def dispatcherOf (systemByName : List SystemTool) (name : String) : Dispatcher :=
  match systemByName.reverse.find? fun t => t.name == name with
  | some tool => .system tool
  | none => .mcp

/-- Every tool of the map is advertised. -/
theorem systemByName_advertised {agent : Agent} {box : Toolbox} {contextToolNames : List String}
    {tool : SystemTool} (h : tool ∈ (resolveTools agent box contextToolNames).2) :
    tool.name ∈ (resolveTools agent box contextToolNames).1.map LLMToolDefinition.name := by
  simp only [resolveTools, List.mem_append, List.map_append, List.map_map, List.mem_map] at h ⊢
  rcases h with h | h
  · exact .inl (.inl ⟨tool, h, rfl⟩)
  · exact .inl (.inr ⟨tool, h, rfl⟩)

/-- A call dispatched to a system tool bears that tool's name. -/
theorem dispatcherOf_system {systemByName : List SystemTool} {name : String} {tool : SystemTool}
    (h : dispatcherOf systemByName name = .system tool) :
    tool ∈ systemByName ∧ tool.name = name := by
  rw [dispatcherOf] at h
  split at h
  case h_1 found hfound =>
    cases h
    exact ⟨List.mem_reverse.mp (List.mem_of_find?_eq_some hfound), by simpa using List.find?_some hfound⟩
  case h_2 => cases h

end LunaCore.Engine
