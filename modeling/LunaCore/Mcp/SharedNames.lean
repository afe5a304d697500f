import LunaCore.Schemes.Machine
import LunaCore.Engine.Tools
import LunaCore.Mcp.Builder

/-! Does an agent that was granted an operation run that operation?

    A grant is of an operation by its id. The approval names, the names an agent may use, the call
    and the server's table all have the bare name, and operations of different connectors may share
    it. Beside the server runs what the builder was told: which operations are attached. A step is
    sound when the server's table follows it, a call runs its own operation, and the approval
    consulted is that of its own grant. -/

namespace LunaCore.Mcp
open LunaCore.Values LunaCore.Schemes LunaCore.Engine

variable {c : Catalogue}

/-- An `AgentOperation` row. -/
structure OperationGrant (c : Catalogue) where
  operation : c.Row
  requiresApproval : Bool
  deriving DecidableEq

/-- An agent's assignments: at most one row an operation. -/
structure Assignment (c : Catalogue) where
  name : String
  operations : List (OperationGrant c)
  distinct : (operations.map OperationGrant.operation).Nodup
  systemTools : List AgentSystemToolGrant

/-- The rows as the queries of the runner join them: an operation is its name. -/
def Assignment.agent (assigned : Assignment c) : Agent where
  name := assigned.name
  operations := assigned.operations.map fun g => ⟨g.operation.1.name, g.requiresApproval⟩
  grants := assigned.systemTools

def Assignment.Granted (assigned : Assignment c) (op : c.Row) : Prop :=
  op ∈ assigned.operations.map OperationGrant.operation

instance (assigned : Assignment c) (op : c.Row) : Decidable (assigned.Granted op) :=
  inferInstanceAs (Decidable (_ ∈ _))

/-- The flag of the operation's own row. -/
def Assignment.Flagged (assigned : Assignment c) (op : c.Row) : Prop :=
  ⟨op, true⟩ ∈ assigned.operations

/-- Some row of the name is flagged, an operation's or a system tool's. -/
def Assignment.NameFlagged (assigned : Assignment c) (name : String) : Prop :=
  (∃ other : c.Row, assigned.Flagged other ∧ other.1.name = name) ∨
    ∃ g ∈ assigned.systemTools, g.requiresApproval = true ∧ g.toolName = name

/-- The builder with its server, the agents' assignments, the approvals asked for, and the ids
    handed to `ConnectorRegistry.execute`. -/
structure Host (c : Catalogue) where
  internalTools : List InternalTool
  server : Server
  agents : ℕ → Assignment c
  asked : List (ℕ × String)
  executed : List ℕ

def Host.fresh : Host c := ⟨[], ∅, fun _ => ⟨"", [], List.nodup_nil, []⟩, [], []⟩

inductive Action (c : Catalogue) where
  | registerTool (tool : InternalTool)
  | attachOperation (op : c.Row)
  | attachInternal (tool : InternalTool)
  -- the tool of an operation that was deleted or renamed
  | detach (op : c.Row)
  | refreshFromDb (loaded : List c.Row)
  | assign (agent : ℕ) (assigned : Assignment c)
  -- whether a granted call of the agent waits for approval
  | consult (agent : ℕ) (op : c.Row)
  -- a granted call of the agent, approved or never gated, is dispatched
  | call (agent : ℕ) (op : c.Row) (contextToolNames : List String)

/-- What a name is dispatched to, for an agent. -/
def Host.dispatcher (registry : List SystemTool) (s : Host c) (agent : ℕ)
    (contextToolNames : List String) (name : String) : Dispatcher :=
  dispatcherOf (resolveTools (s.agents agent).agent ⟨registry, s.server.keys⟩ contextToolNames).2
    name

/-- The operation a server executes for a name, if it does. -/
def serverExecutes (server : Server) (name : String) : List ℕ :=
  match server.lookup name with
  | some ⟨.operation id, _, _⟩ => [id]
  | _ => []

/-- The operation a call of that name executes, if it does. -/
def Host.executes (registry : List SystemTool) (s : Host c) (agent : ℕ)
    (contextToolNames : List String) (name : String) : List ℕ :=
  match s.dispatcher registry agent contextToolNames name with
  | .system _ => []
  | .mcp => serverExecutes s.server name

def Host.serve (registry : List SystemTool) (s : Host c) : Action c → Option (Host c)
  | .registerTool tool => some { s with internalTools := Mcp.registerTool s.internalTools tool }
  | .attachOperation op => some { s with server := Mcp.attachOperation s.server op.1 }
  | .attachInternal tool => some { s with server := Mcp.attachInternal s.server tool }
  | .detach op => some { s with server := (Mcp.detach s.server op.1.name).1 }
  | .refreshFromDb loaded => some { s with
      server := Mcp.refreshFromDb s.internalTools s.server (loaded.map Subtype.val) }
  | .assign agent assigned => some { s with agents := Function.update s.agents agent assigned }
  | .consult agent op =>
    if (s.agents agent).Granted op then
      if op.1.name ∈ (s.agents agent).agent.approvalRequiredNames then
        some { s with asked := s.asked ++ [(agent, op.1.name)] }
      else some s
    else none
  | .call agent op contextToolNames =>
    if (s.agents agent).Granted op then
      some { s with
        executed := s.executed ++ s.executes registry agent contextToolNames op.1.name }
    else none

/-! ### What the builder was told -/

/-- The operations attached after a call of the builder. A refresh leaves what was loaded, and what
    stands under a name that is only an internal tool's. -/
def told (s : Host c) (attached : Set c.Row) : Action c → Set c.Row
  | .attachOperation op => insert op attached
  | .detach op => attached \ {op}
  | .refreshFromDb loaded => {op | op ∈ loaded ∨ (op.1.name ∉ loaded.map c.keyed.key ∧
      op.1.name ∈ s.internalTools.map InternalTool.name ∧ op ∈ attached)}
  | _ => attached

structure World (c : Catalogue) where
  host : Host c
  attached : Set c.Row

def World.fresh : World c := ⟨Host.fresh, ∅⟩

def step (registry : List SystemTool) (w : World c) (a : Action c) : Option (World c) :=
  (w.host.serve registry a).map fun t => ⟨t, told w.host w.attached a⟩

/-- What a step may do. -/
def OwnTool (w : World c) (a : Action c) (w' : World c) : Prop :=
  match a with
  -- no other operation's tool comes or goes
  | .attachOperation op | .detach op => ∀ other, other ≠ op →
      (c.keyed.Holds w'.host.server other ↔ c.keyed.Holds w.host.server other)
  | .attachInternal _ => ∀ op,
      c.keyed.Holds w'.host.server op ↔ c.keyed.Holds w.host.server op
  | .refreshFromDb _ => c.keyed.Represents w'.host.server w'.attached
  -- the call waits just when the operation's own row says so
  | .consult agent op => w'.host.asked = w.host.asked ++ [(agent, op.1.name)] ↔
      (w.host.agents agent).Flagged op
  -- the operation is executed if it is attached, and no other in any case
  | .call _ op _ => (op ∈ w.attached → w'.host.executed = w.host.executed ++ [op.1.id]) ∧
      (w'.host.executed = w.host.executed ∨ w'.host.executed = w.host.executed ++ [op.1.id])
  | .registerTool _ | .assign .. => True

/-- No other connector has an attached operation of this one's name. -/
def NoNamesake (attached : Set c.Row) (op : c.Row) : Prop :=
  ∀ other ∈ attached, other.1.name = op.1.name → other.1.connectorId = op.1.connectorId

/-- No name is shared where it matters: by what is attached or detached with an attached operation
    of another connector, by an internal tool with an attached operation, among what is loaded, by
    an operation without the flag with a flagged row, by a call with a system tool of the agent or
    with an attached operation of another connector. -/
def Unshared (registry : List SystemTool) (w : World c) (a : Action c) : Prop :=
  match a with
  | .attachOperation op | .detach op => NoNamesake w.attached op
  | .attachInternal tool => ∀ op ∈ w.attached, op.1.name ≠ tool.name
  | .refreshFromDb loaded => ∀ op ∈ loaded, NoNamesake {other | other ∈ loaded} op
  | .consult agent op => (w.host.agents agent).NameFlagged op.1.name →
      (w.host.agents agent).Flagged op
  | .call agent op contextToolNames =>
    match w.host.dispatcher registry agent contextToolNames op.1.name with
    | .system _ => op ∉ w.attached
    | .mcp => NoNamesake w.attached op
  | .registerTool _ | .assign .. => True

/-! ### Steps -/

/-- The server's table follows what the builder was told, and has nothing but operations and
    internal tools. -/
structure Follows (w : World c) : Prop where
  represents : c.keyed.Represents w.host.server w.attached
  accounted : c.keyed.Accounted (fun tool => tool.handler = .internal) w.host.server

theorem follows_fresh : Follows (World.fresh : World c) := by
  constructor
  · intro op
    constructor
    · intro h
      cases h
    · intro h
      cases h
  · intro name tool h
    cases h

/-- The approval names are the names of flagged rows. -/
theorem mem_approvalRequiredNames_iff (assigned : Assignment c) (name : String) :
    name ∈ assigned.agent.approvalRequiredNames ↔ assigned.NameFlagged name := by
  unfold Agent.approvalRequiredNames Assignment.agent Assignment.NameFlagged Assignment.Flagged
  rw [List.mem_append]
  refine or_congr ?_ ?_
  · simp only [List.mem_map, List.mem_filter]
    constructor
    · rintro ⟨row, ⟨⟨g, hg, rfl⟩, hflag⟩, rfl⟩
      obtain ⟨op, flag⟩ := g
      obtain rfl : flag = true := hflag
      exact ⟨op, hg, rfl⟩
    · rintro ⟨other, hrow, rfl⟩
      exact ⟨_, ⟨⟨_, hrow, rfl⟩, rfl⟩, rfl⟩
  · simp only [List.mem_map, List.mem_filter, and_assoc]

theorem serverExecutes_of_holds {server : Server} {op : c.Row} (h : c.keyed.Holds server op) :
    serverExecutes server op.1.name = [op.1.id] := by
  have hlookup : server.lookup op.1.name = some (operationTool op.1) := h
  rw [serverExecutes, hlookup]
  rfl

/-- For a name a server executes an attached operation of that name, or none. -/
theorem serverExecutes_cases {w : World c} (h : Follows w) (name : String) :
    serverExecutes w.host.server name = [] ∨
      ∃ op ∈ w.attached, op.1.name = name ∧ serverExecutes w.host.server name = [op.1.id] := by
  cases hlookup : w.host.server.lookup name with
  | none => exact .inl (by rw [serverExecutes, hlookup])
  | some tool =>
    rcases h.accounted name tool hlookup with hinternal | ⟨op, rfl, rfl⟩
    · obtain ⟨handler, description, parameters⟩ := tool
      obtain rfl : handler = .internal := hinternal
      exact .inl (by rw [serverExecutes, hlookup])
    · exact .inr ⟨op, (h.represents op).mp hlookup, rfl, serverExecutes_of_holds hlookup⟩

/-- What a call executes is its own operation, or none, just when no other attached operation has
    its name. -/
theorem serverExecutes_own_iff {w : World c} (h : Follows w) (op : c.Row) :
    ((op ∈ w.attached → serverExecutes w.host.server op.1.name = [op.1.id]) ∧
      (serverExecutes w.host.server op.1.name = [] ∨
        serverExecutes w.host.server op.1.name = [op.1.id])) ↔
      NoNamesake w.attached op := by
  refine Iff.trans ?_ (alone_iff w.attached op)
  constructor
  · rintro ⟨-, hown⟩ other hother (hname : other.1.name = op.1.name)
    have hruns := serverExecutes_of_holds ((h.represents other).mpr hother)
    rw [hname] at hruns
    rcases hown with hnone | hown
    · rw [hnone] at hruns
      cases hruns
    · rw [hown] at hruns
      have hid : op.1.id = other.1.id := List.singleton_inj.mp hruns
      exact Subtype.ext (c.ids _ other.2 _ op.2 hid.symm)
  · intro halone
    constructor
    · exact fun hattached => serverExecutes_of_holds ((h.represents op).mpr hattached)
    · rcases serverExecutes_cases h op.1.name with hnone | ⟨other, hother, hname, hruns⟩
      · exact .inl hnone
      · rw [halone other hother hname] at hruns
        exact .inr hruns

/-- A call that keeps to its own operation. -/
theorem executes_own_iff {registry : List SystemTool} {w : World c} (h : Follows w) (agent : ℕ)
    (op : c.Row) (contextToolNames : List String) :
    ((op ∈ w.attached → w.host.executes registry agent contextToolNames op.1.name = [op.1.id]) ∧
      (w.host.executes registry agent contextToolNames op.1.name = [] ∨
        w.host.executes registry agent contextToolNames op.1.name = [op.1.id])) ↔
      Unshared registry w (.call agent op contextToolNames) := by
  unfold Host.executes Unshared
  dsimp only
  cases w.host.dispatcher registry agent contextToolNames op.1.name with
  | system tool =>
    constructor
    · rintro ⟨hattached, -⟩ hmem
      cases hattached hmem
    · intro hnot
      exact ⟨fun hmem => absurd hmem hnot, .inl rfl⟩
  | mcp => exact serverExecutes_own_iff h op

/-- A step of the world is one of its host. -/
theorem step_some {registry : List SystemTool} {w w' : World c} {a : Action c}
    (h : step registry w a = some w') :
    w.host.serve registry a = some w'.host ∧ w'.attached = told w.host w.attached a := by
  obtain ⟨t, ht, rfl⟩ := Option.map_eq_some_iff.mp h
  exact ⟨ht, rfl⟩

/-- Consulting the approvals of a granted call. -/
theorem serve_consult {registry : List SystemTool} {s t : Host c} {agent : ℕ} {op : c.Row}
    (h : s.serve registry (.consult agent op) = some t) :
    (s.agents agent).Granted op ∧
      t = { s with asked := s.asked ++
        if op.1.name ∈ (s.agents agent).agent.approvalRequiredNames then [(agent, op.1.name)]
        else [] } := by
  simp only [Host.serve] at h
  split at h
  case isTrue hgranted =>
    refine ⟨hgranted, ?_⟩
    split at h
    case isTrue hname =>
      obtain rfl := Option.some.inj h
      rw [if_pos hname]
    case isFalse hname =>
      obtain rfl := Option.some.inj h
      rw [if_neg hname, List.append_nil]
  case isFalse => cases h

/-- Dispatching a granted call. -/
theorem serve_call {registry : List SystemTool} {s t : Host c} {agent : ℕ} {op : c.Row}
    {contextToolNames : List String}
    (h : s.serve registry (.call agent op contextToolNames) = some t) :
    (s.agents agent).Granted op ∧
      t = { s with
        executed := s.executed ++ s.executes registry agent contextToolNames op.1.name } := by
  simp only [Host.serve] at h
  split at h
  case isTrue hgranted =>
    obtain rfl := Option.some.inj h
    exact ⟨hgranted, rfl⟩
  case isFalse => cases h

/-- STEP: under names that are not shared the table goes on following. -/
theorem follows_step (registry : List SystemTool) (w : World c) (a : Action c) (w' : World c)
    (hw : Follows w) (hok : Unshared registry w a) (h : step registry w a = some w') :
    Follows w' := by
  obtain ⟨host', attached'⟩ := w'
  obtain ⟨hserve, rfl : attached' = _⟩ := step_some h
  cases a with
  | registerTool tool =>
    obtain rfl := Option.some.inj hserve
    exact ⟨hw.represents, hw.accounted⟩
  | attachOperation op =>
    obtain rfl := Option.some.inj hserve
    exact ⟨hw.represents.put ((alone_iff _ op).mpr hok), hw.accounted.insert (.inr ⟨op, rfl, rfl⟩)⟩
  | attachInternal tool =>
    obtain rfl := Option.some.inj hserve
    exact ⟨hw.represents.overwrite (internalTool_ne tool) hok, hw.accounted.insert (.inl rfl)⟩
  | detach op =>
    obtain rfl := Option.some.inj hserve
    exact ⟨hw.represents.erase ((alone_iff _ op).mpr hok), hw.accounted.erase _⟩
  | refreshFromDb loaded =>
    obtain rfl := Option.some.inj hserve
    constructor
    · intro op
      dsimp only
      rw [holds_refreshFromDb_iff _ _ ((injOn_iff loaded).mpr hok), hw.represents op]
      exact Iff.rfl
    · dsimp only
      rw [Mcp.refreshFromDb, foldl_attachOperation]
      exact (hw.accounted.eraseAll _).putAll _
  | assign agent assigned =>
    obtain rfl := Option.some.inj hserve
    exact ⟨hw.represents, hw.accounted⟩
  | consult agent op =>
    obtain ⟨-, rfl⟩ := serve_consult hserve
    exact ⟨hw.represents, hw.accounted⟩
  | call agent op contextToolNames =>
    obtain ⟨-, rfl⟩ := serve_call hserve
    exact ⟨hw.represents, hw.accounted⟩

/-- A step does what it may just when no name is shared where it matters. -/
theorem ownTool_iff (registry : List SystemTool) (w : World c) (a : Action c) (w' : World c)
    (hw : Follows w) (h : step registry w a = some w') :
    OwnTool w a w' ↔ Unshared registry w a := by
  obtain ⟨host', attached'⟩ := w'
  obtain ⟨hserve, rfl : attached' = _⟩ := step_some h
  cases a with
  | registerTool tool => exact Iff.rfl
  | attachOperation op =>
    obtain rfl := Option.some.inj hserve
    exact (Keyed.put_keeps_iff hw.represents).trans (alone_iff w.attached op)
  | attachInternal tool =>
    obtain rfl := Option.some.inj hserve
    exact Keyed.overwrite_keeps_iff hw.represents (internalTool_ne tool)
  | detach op =>
    obtain rfl := Option.some.inj hserve
    exact (Keyed.erase_keeps_iff hw.represents).trans (alone_iff w.attached op)
  | refreshFromDb loaded =>
    obtain rfl := Option.some.inj hserve
    constructor
    · intro hrepresents
      refine (injOn_iff loaded).mp ?_
      rw [← refreshFromDb_holds_iff w.host.internalTools w.host.server loaded]
      exact fun op hop => (hrepresents op).mpr (.inl hop)
    · intro hok
      exact (follows_step registry w _ _ hw hok h).represents
  | assign agent assigned => exact Iff.rfl
  | consult agent op =>
    obtain ⟨-, rfl⟩ := serve_consult hserve
    rw [OwnTool, Unshared]
    dsimp only
    by_cases hname : (w.host.agents agent).NameFlagged op.1.name
    · rw [if_pos ((mem_approvalRequiredNames_iff _ _).mpr hname)]
      simp [hname]
    · rw [if_neg fun hmem => hname ((mem_approvalRequiredNames_iff _ _).mp hmem)]
      have hunflagged : ¬ (w.host.agents agent).Flagged op := by
        intro hflag
        exact hname (.inl ⟨op, hflag, rfl⟩)
      simp [hname, hunflagged]
  | call agent op contextToolNames =>
    obtain ⟨-, rfl⟩ := serve_call hserve
    rw [← executes_own_iff hw agent op contextToolNames]
    rw [OwnTool]
    simp only [List.append_cancel_left_eq, List.append_right_eq_self]

/-- What is built is reached: `build` attaches the operations, then the internal tools. -/
theorem build_reached (registry : List SystemTool) (internalTools : List InternalTool)
    (operations : List c.Row) : ∃ w, runFrom (step registry) World.fresh
      (operations.map .attachOperation ++ internalTools.map .attachInternal) = some w ∧
        w.host.server = build internalTools (operations.map Subtype.val) := by
  have hoperations : ∀ (ops : List c.Row) (w : World c), ∃ w',
      runFrom (step registry) w (ops.map .attachOperation) = some w' ∧
        w'.host.server = (ops.map Subtype.val).foldl Mcp.attachOperation w.host.server := by
    intro ops
    induction ops with
    | nil => exact fun w => ⟨w, rfl, rfl⟩
    | cons op ops ih => exact fun w => ih _
  have hinternal : ∀ (tools : List InternalTool) (w : World c), ∃ w',
      runFrom (step registry) w (tools.map .attachInternal) = some w' ∧
        w'.host.server = tools.foldl Mcp.attachInternal w.host.server := by
    intro tools
    induction tools with
    | nil => exact fun w => ⟨w, rfl, rfl⟩
    | cons tool tools ih => exact fun w => ih _
  obtain ⟨u, hu, hserver⟩ := hoperations operations World.fresh
  obtain ⟨w, hw, hbuilt⟩ := hinternal internalTools u
  refine ⟨w, ?_, ?_⟩
  · rw [runFrom_append, hu]
    exact hw
  · rw [hbuilt, hserver]
    rfl

/-- RUN: every step does what it may just when in every step no name is shared where it matters. -/
theorem own_tools_run_iff (c : Catalogue) (registry : List SystemTool) (as : List (Action c)) :
    EveryStep (step registry) OwnTool World.fresh as ↔
      Guarded (step registry) (Unshared registry) World.fresh as :=
  everyStep_iff_guarded (follows_step registry) (ownTool_iff registry) follows_fresh

/-- Two connectors with a `search` each. -/
def tracker : Operation := ⟨1, 1, "search", "Search the tracker", []⟩

def payroll : Operation := ⟨2, 2, "search", "Search the payroll", []⟩

def twoSearches : Catalogue where
  rows := [tracker, payroll]
  ids := by decide
  names := by decide

def trackerRow : twoSearches.Row := ⟨tracker, by decide⟩

def payrollRow : twoSearches.Row := ⟨payroll, by decide⟩

/-- An agent that may search the tracker searches the payroll. -/
theorem granted_search_runs_other : ¬ ∀ (c : Catalogue) (registry : List SystemTool)
    (as : List (Action c)), EveryStep (step registry) OwnTool World.fresh as := by
  intro hall
  have hrun := hall twoSearches []
    ([.attachOperation trackerRow, .attachOperation payrollRow,
        .assign 0 ⟨"helper", [⟨trackerRow, false⟩], by decide, []⟩] ++
      .call 0 trackerRow [] :: [])
  have hcall : OwnTool _ _ _ := EveryStep.at hrun rfl rfl
  have hexecuted : [2] = [1] := hcall.1 (.inr (.inl rfl))
  cases hexecuted

end LunaCore.Mcp
