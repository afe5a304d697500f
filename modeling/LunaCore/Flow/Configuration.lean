import LunaCore.Flow.Validation

/-! What the node handlers check of a node's config, and how far the validator foresees it.

    A handler goes through its checks in order; some are about the definition, some about what
    surrounds the run (collaborators, agents, tools, checkers, records). What the validator promises
    is about the first kind: anything that would surface as a NodeExecutionError at runtime is
    caught upfront. The two readings share most rules, and each has some of its own:

        validator only   edge to __end__, action by system_tool_name, an empty inherit that is no list
        engine only      refused names, both targets, malformed ids, order and type of an inherited
                         node, carry schema, collection, stash, unhashable selection -/

namespace LunaCore.Flow
open LunaCore.Values

/-! ### Checks -/

/-- Why a handler fails: for what the definition says, or for what it finds around it. -/
inductive Fault where
  | definition (text : String)
  | environment (text : String)
  deriving DecidableEq

/-- What surrounds a run: the scope of a registered system tool, whether the collaborators are
    there, whether an agent is stored, how its context loads, what a registered checker says to a
    mapping of its fields, and how many records a collection has. -/
structure Environment where
  systemTool : Json → Option String
  connectorRegistry : Bool
  llm : Bool
  agentStored : Json → Bool
  context : FlowNode → Except String Unit
  checker : String → Option (Dict → Except String Unit)
  records : ℕ

/-- A check in some surroundings. -/
abbrev Check := Environment → Except Fault Unit

namespace Check

def andThen (f g : Check) : Check := fun env =>
  match f env with
  | .ok () => g env
  | .error fault => .error fault

/-- A check of the definition. -/
def ofDefinition : Except String Unit → Check
  | .ok () => fun _ => .ok ()
  | .error text => fun _ => .error (.definition text)

/-- A check of the surroundings. -/
def ofEnvironment (f : Environment → Except String Unit) : Check := fun env =>
  match f env with
  | .ok () => .ok ()
  | .error text => .error (.environment text)

/-- It fails for nothing that the definition alone decides. -/
def Free (f : Check) : Prop := ∀ env text, f env ≠ .error (.definition text)

end Check

def require (p : Bool) (text : String) : Except String Unit := if p then .ok () else .error text

/-! ### Handlers -/

section
variable (repr : Json → String) (uuidError : Json → Option String) (ceiling : ℕ)

/-- `config.get(key)`. -/
def FlowNode.raw (node : FlowNode) (key : String) : Json := (node.config.get key).getD .null

/-- `uuid.UUID(str(raw))`. -/
def checkUuid (raw : Json) : Except String Unit :=
  match uuidError raw with
  | none => .ok ()
  | some text => .error text

def systemToolCheck (node : FlowNode) : Check := .ofEnvironment fun env =>
  let name := node.raw "system_tool_name"
  match env.systemTool name with
  | none => .error ("action node " ++ node.id ++ ": system tool " ++ repr name ++
      " not registered. Hosts register catalog tools at startup; ensure " ++
      "install_*_system_tools() has run before triggering the flow.")
  | some scope => require (scope = "catalog") ("action node " ++ node.id ++ ": system tool " ++
      repr name ++ " has scope=" ++ repr (.str scope) ++
      "; only catalog-scope tools may be invoked from a flow node.")

/-- `_run_action`, up to the call. -/
def runAction (node : FlowNode) : Check :=
  let operation := given node.config "operation_id"
  let tool := given node.config "system_tool_name"
  .andThen (.ofDefinition (require (!(operation && tool)) ("action node " ++ node.id ++
    " declares both operation_id and system_tool_name; pick exactly one"))) <|
  .andThen (.ofDefinition (require (operation || tool) ("action node " ++ node.id ++
    " missing config.operation_id or config.system_tool_name"))) <|
  if tool then systemToolCheck repr node
  else
    .andThen (.ofEnvironment fun env => require env.connectorRegistry
      "action node requires a ConnectorRegistry; host app must inject one when constructing NodeExecutor") <|
    .ofDefinition (checkUuid uuidError (node.raw "operation_id"))

/-- The list of `inherit_history_from`, where it is one of strings. -/
def inheritRefs (node : FlowNode) : Option (List String) :=
  match node.config.get "inherit_history_from" with
  | some (.arr items) => strings items
  | _ => none

/-- `order_by_id.get(id)`. -/
def FlowDefinition.orderById (d : FlowDefinition) (id : String) : Option ℕ :=
  (d.nodes.zipIdx.reverse.find? fun entry => entry.1.id == id).map Prod.snd

/-- The inherited node is not declared before this one. -/
def FlowDefinition.notBefore (d : FlowDefinition) (own nid : String) : Bool :=
  match d.orderById own with
  | some order => decide (order ≤ (d.orderById nid).getD 0)
  | none => false

/-- One node of `_validate_inheritable_nodes`. -/
def checkInheritable (d : FlowDefinition) (own nid : String) : Except String Unit :=
  if nid = own then .error ("ai_agent node " ++ own ++ ": cannot inherit from itself")
  else match d.nodeById nid with
    | none => .error ("ai_agent node " ++ own ++ ": inherit_history_from references unknown node " ++
        repr (.str nid))
    | some ref =>
      if ref.type ≠ .aiAgent then .error ("ai_agent node " ++ own ++
        ": inherit_history_from references " ++ repr (.str nid) ++ " which is type " ++
        repr (.str ref.type.value) ++ ", expected ai_agent")
      else require (!d.notBefore own nid) ("ai_agent node " ++ own ++
        ": inherit_history_from references " ++ repr (.str nid) ++
        " which is not declared before this node")

/-- `_validate_inheritable_nodes`. -/
def validateInheritable (d : FlowDefinition) (own : String) : List String → Except String Unit
  | [] => .ok ()
  | nid :: rest =>
    match checkInheritable repr d own nid with
    | .ok () => validateInheritable d own rest
    | .error text => .error text

/-- `inherit_from`, with its checks. -/
def checkInherit (d : FlowDefinition) (node : FlowNode) : Except String Unit :=
  if given node.config "inherit_history_from" then
    match inheritRefs node with
    | some refs => validateInheritable repr d node.id refs
    | none => .error ("ai_agent node " ++ node.id ++
        ": inherit_history_from must be a list of node ids")
  else .ok ()

/-- `resolve_stash_record_schema`, as a check. -/
def checkRecordSchema (nodeId : String) (stash : Dict) : Except String Unit :=
  if given stash "record_schema" then
    match validateCarrySchema repr nodeId ((stash.get "record_schema").getD .null) with
    | .ok _ => .ok ()
    | .error text => .error (text.replace "carry_schema" "stash.record_schema")
  else .ok ()

/-- The object `stash.dedup` with its checker's name. -/
def dedupCfg (nodeId : String) : Json → Except String (Dict × String)
  | .obj cfg =>
    match Dict.get cfg "checker" with
    | some (.str name) =>
      if name = "" then
        .error ("ai_agent node " ++ nodeId ++ ": stash.dedup.checker must be a non-empty string")
      else .ok (cfg, name)
    | _ => .error ("ai_agent node " ++ nodeId ++ ": stash.dedup.checker must be a non-empty string")
  | _ => .error ("ai_agent node " ++ nodeId ++ ": stash.dedup must be an object")

/-- `dedup_cfg["fields"]`, as the checker of that name maps it. -/
def dedupFields (nodeId name : String) : Json → Check
  | .obj fields => .ofEnvironment fun env =>
    match env.checker name with
    | some accepts => accepts fields
    | none => .ok ()
  | _ => .ofDefinition (.error ("ai_agent node " ++ nodeId ++
      ": stash.dedup.fields must be an object mapping checker fields to record fields"))

/-- `resolve_stash_dedup_binding`, as a check. -/
def checkDedup (nodeId : String) (stash : Dict) : Check :=
  if given stash "dedup" then
    match dedupCfg nodeId ((stash.get "dedup").getD .null) with
    | .error text => .ofDefinition (.error text)
    | .ok (cfg, name) =>
      .andThen (.ofEnvironment fun env => require (env.checker name).isSome ("ai_agent node " ++
        nodeId ++ ": stash.dedup.checker " ++ repr (.str name) ++
        " is not a registered dedup checker")) <|
      dedupFields nodeId name (getOr cfg "fields" (.obj []))
  else .ofDefinition (.ok ())

/-- `_resolve_stash_schema` and `_resolve_stash_dedup`. -/
def checkStash (node : FlowNode) : Check :=
  match node.config.get "stash" with
  | some (.obj stash) =>
    .andThen (.ofDefinition (checkRecordSchema repr node.id stash)) (checkDedup repr node.id stash)
  | _ => .ofDefinition (.ok ())

/-- What `cancel_siblings` makes of an iteration's failure. -/
def siblingsFault (nodeId : String) (f : Check) : Check := fun env =>
  let wrap (text : String) : String := "ai_agent node " ++ nodeId ++
    ": iteration failed in cancel_siblings mode (NodeExecutionError: " ++ text ++ ")"
  match f env with
  | .ok () => .ok ()
  | .error (.definition text) => .error (.definition (wrap text))
  | .error (.environment text) => .error (.environment (wrap text))

/-- The records of a scratchpad: none, or each with the stash checks in its own iteration. -/
def runRecords (node : FlowNode) (cfg : Dict) : Check := fun env =>
  if env.records = 0 then .ok ()
  else match resolveIterationExecution ceiling cfg with
    | .sequential => checkStash repr node env
    | .parallel .cancelSiblings _ => siblingsFault node.id (checkStash repr node) env
    | .parallel .goOn _ => .ok ()

/-- The turns of an agent, plain or iterative. -/
def runTurns (node : FlowNode) : Check :=
  match iterationCfg node with
  | none => checkStash repr node
  | some cfg =>
    match resolveIterationSource (cfg.get "source") with
    | .agentYield =>
      .andThen (.ofDefinition ((validateCarrySchema repr node.id
        (getOr cfg "carry_schema" (.arr []))).map fun _ => ())) (checkStash repr node)
    | .scratchpad =>
      .andThen (.ofDefinition ((resolveScratchpadCollection node.id
        (cfg.get "source_config")).map fun _ => ())) (runRecords repr ceiling node cfg)

/-- `_run_ai_agent` and `_run_ai_agent_iterative`. -/
def runAiAgent (d : FlowDefinition) (node : FlowNode) : Check :=
  .andThen (.ofDefinition (require (given node.config "agent_id")
    ("ai_agent node " ++ node.id ++ " missing config.agent_id"))) <|
  .andThen (.ofEnvironment fun env => require env.llm
    "ai_agent node requires LLMRouter + MCPClient; host app must inject both when constructing NodeExecutor") <|
  .andThen (.ofDefinition (checkUuid uuidError (node.raw "agent_id"))) <|
  .andThen (.ofEnvironment fun env => require (env.agentStored (node.raw "agent_id"))
    ("agent " ++ repr (node.raw "agent_id") ++ " not found")) <|
  .andThen (.ofDefinition (checkInherit repr d node)) <|
  .andThen (.ofEnvironment fun env => env.context node) <|
  runTurns repr ceiling node

/-- A key of an output node's selection: a list or a dict is not hashable. -/
def checkKey : Json → Except String Unit
  | .arr _ => .error "unhashable type: 'list'"
  | .obj _ => .error "unhashable type: 'dict'"
  | _ => .ok ()

/-- `_run_output`, as a check. -/
def runOutput (node : FlowNode) : Except String Unit :=
  match node.config.get "select" with
  | some (.arr keys) => keys.forM checkKey
  | _ => .ok ()

/-- `_dispatch`, up to what leaves the process. -/
def runNode (d : FlowDefinition) (node : FlowNode) : Check :=
  match node.type with
  | .action => runAction repr uuidError node
  | .aiAgent => runAiAgent repr uuidError ceiling d node
  | .output => .ofDefinition (runOutput node)
  | .condition | .humanCheckpoint | .trigger => .ofDefinition (.ok ())

/-- The engine takes the definition: its graph compiles, and no node raises what the definition
    alone decides. -/
structure Runs (lg : LangGraph) (d : FlowDefinition) : Prop where
  builds : Builds lg d
  free : ∀ node ∈ d.nodes, (runNode repr uuidError ceiling d node).Free

end

/-! ### The best surroundings -/

/-- Surroundings in which nothing is missing. -/
def good : Environment where
  systemTool _ := some "catalog"
  connectorRegistry := true
  llm := true
  agentStored _ := true
  context _ := .ok ()
  checker _ := some fun _ => .ok ()
  records := 1

namespace Check

/-- What the definition decides against it in any surroundings, it decides in the best. -/
structure Grounded (f : Check) : Prop where
  sound : ∀ text, f good ≠ .error (.environment text)
  persists : ∀ env text, f env = .error (.definition text) → f good ≠ .ok ()

theorem Grounded.free_iff {f : Check} (h : f.Grounded) : f.Free ↔ f good = .ok () := by
  constructor
  · intro hfree
    cases hgood : f good with
    | ok => rfl
    | error fault =>
      cases fault with
      | definition text => exact absurd hgood (hfree good text)
      | environment text => exact absurd hgood (h.sound text)
  · intro hgood env text herror
    exact h.persists env text herror hgood

theorem andThen_ok_iff {f g : Check} {env : Environment} :
    f.andThen g env = .ok () ↔ f env = .ok () ∧ g env = .ok () := by
  rw [andThen]
  split
  · rename_i hf
    simp [hf]
  · rename_i fault hf
    simp [hf]

theorem Grounded.andThen {f g : Check} (hf : f.Grounded) (hg : g.Grounded) :
    (f.andThen g).Grounded := by
  constructor
  · intro text
    rw [Check.andThen]
    split
    · exact hg.sound text
    · rename_i fault hfault
      rintro heq
      exact hf.sound text (hfault.trans heq)
  · intro env text herror hgood
    obtain ⟨hfgood, hggood⟩ := andThen_ok_iff.mp hgood
    rw [Check.andThen] at herror
    split at herror
    · exact hg.persists env text herror hggood
    · rename_i fault hfault
      exact hf.persists env text (hfault.trans herror) hfgood

theorem ofDefinition_ok_iff {e : Except String Unit} {env : Environment} :
    ofDefinition e env = .ok () ↔ e = .ok () := by
  cases e with
  | ok => exact ⟨fun _ => rfl, fun _ => rfl⟩
  | error text => simp [ofDefinition]

theorem grounded_ofDefinition (e : Except String Unit) : (ofDefinition e).Grounded := by
  cases e with
  | ok => exact ⟨fun text => by simp [ofDefinition], fun env text h => by simp [ofDefinition] at h⟩
  | error text =>
    exact ⟨fun text => by simp [ofDefinition], fun env text _ => by simp [ofDefinition]⟩

theorem grounded_ofEnvironment {f : Environment → Except String Unit} (h : f good = .ok ()) :
    (ofEnvironment f).Grounded := by
  constructor
  · intro text
    simp [ofEnvironment, h]
  · intro env text herror
    rw [ofEnvironment] at herror
    split at herror
    · cases herror
    · simp at herror

theorem ofEnvironment_good {f : Environment → Except String Unit} (h : f good = .ok ()) :
    ofEnvironment f good = .ok () := by
  simp [ofEnvironment, h]

end Check

theorem require_ok_iff {p : Bool} {text : String} : require p text = .ok () ↔ p = true := by
  cases p <;> simp [require]

theorem map_ok_iff {α : Type} {e : Except String α} :
    (e.map fun _ => ()) = .ok () ↔ ∃ a, e = .ok a := by
  cases e <;> simp [Except.map]

/-! ### What each handler wants of the definition -/

section
variable {repr : Json → String} {uuidError : Json → Option String} {ceiling : ℕ}

theorem checkUuid_ok_iff {raw : Json} : checkUuid uuidError raw = .ok () ↔ uuidError raw = none := by
  rw [checkUuid]
  split
  · rename_i h
    simp [h]
  · rename_i text h
    simp [h]

/-- An action names one target, and an operation by an id. -/
theorem runAction_free_iff (node : FlowNode) : (runAction repr uuidError node).Free ↔
    (given node.config "operation_id" = true ∨ given node.config "system_tool_name" = true) ∧
      ¬ (given node.config "operation_id" = true ∧ given node.config "system_tool_name" = true) ∧
      (given node.config "operation_id" = true →
        uuidError (node.raw "operation_id") = none) := by
  have hrest : (if given node.config "system_tool_name" then systemToolCheck repr node
      else Check.andThen (.ofEnvironment fun env => require env.connectorRegistry
        "action node requires a ConnectorRegistry; host app must inject one when constructing NodeExecutor")
        (.ofDefinition (checkUuid uuidError (node.raw "operation_id")))).Grounded := by
    split
    case isTrue => exact Check.grounded_ofEnvironment rfl
    case isFalse =>
      exact (Check.grounded_ofEnvironment rfl).andThen (Check.grounded_ofDefinition _)
  have hground : (runAction repr uuidError node).Grounded :=
    (Check.grounded_ofDefinition _).andThen ((Check.grounded_ofDefinition _).andThen hrest)
  rw [hground.free_iff, runAction, Check.andThen_ok_iff, Check.andThen_ok_iff,
    Check.ofDefinition_ok_iff, Check.ofDefinition_ok_iff, require_ok_iff, require_ok_iff]
  cases htool : given node.config "system_tool_name" with
  | true =>
    have hgood : systemToolCheck repr node good = .ok () := Check.ofEnvironment_good rfl
    cases given node.config "operation_id" <;> simp [hgood]
  | false =>
    have hregistry : Check.ofEnvironment (fun env => require env.connectorRegistry
        "action node requires a ConnectorRegistry; host app must inject one when constructing NodeExecutor")
          good = .ok () := Check.ofEnvironment_good rfl
    have huuid := @checkUuid_ok_iff uuidError (node.raw "operation_id")
    cases given node.config "operation_id" <;>
      simp [Check.andThen_ok_iff, Check.ofDefinition_ok_iff, hregistry, huuid]

theorem nodeById_eq_none {d : FlowDefinition} {id : String} :
    d.nodeById id = none ↔ id ∉ d.ids := by
  simp [FlowDefinition.nodeById, FlowDefinition.ids]

/-- An inherited node is another agent that is declared before. -/
structure Inheritable (d : FlowDefinition) (own nid : String) : Prop where
  other : nid ≠ own
  known : nid ∈ d.ids
  agent : ∀ ref, d.nodeById nid = some ref → ref.type = .aiAgent
  before : d.notBefore own nid = false

theorem checkInheritable_ok_iff (d : FlowDefinition) (own nid : String) :
    checkInheritable repr d own nid = .ok () ↔ Inheritable d own nid := by
  rw [checkInheritable]
  split
  case isTrue h => exact ⟨nofun, fun hin => absurd h hin.other⟩
  case isFalse hother =>
    split
    · rename_i hnone
      exact ⟨nofun, fun hin => absurd hin.known (nodeById_eq_none.mp hnone)⟩
    · rename_i ref href
      have hknown : nid ∈ d.ids := by
        by_contra hmem
        rw [nodeById_eq_none.mpr hmem] at href
        cases href
      split
      case isTrue htype => exact ⟨nofun, fun hin => absurd (hin.agent ref href) htype⟩
      case isFalse htype =>
        rw [require_ok_iff, Bool.not_eq_true']
        constructor
        · intro hbefore
          refine ⟨hother, hknown, fun ref' href' => ?_, hbefore⟩
          obtain rfl := Option.some.inj (href.symm.trans href')
          exact not_not.mp htype
        · exact fun hin => hin.before

theorem validateInheritable_ok_iff (d : FlowDefinition) (own : String) (refs : List String) :
    validateInheritable repr d own refs = .ok () ↔ ∀ nid ∈ refs, Inheritable d own nid := by
  induction refs with
  | nil => simp [validateInheritable]
  | cons nid rest ih =>
    have hone := @checkInheritable_ok_iff repr d own nid
    rw [List.forall_mem_cons, validateInheritable]
    split
    · rename_i hok
      rw [ih]
      exact ⟨fun h => ⟨hone.mp hok, h⟩, fun h => h.2⟩
    · rename_i text herror
      exact ⟨nofun, fun h => absurd (hone.mpr h.1) (by rw [herror]; exact nofun)⟩

/-- An agent inherits from such nodes, in a list of their ids. -/
theorem checkInherit_ok_iff (d : FlowDefinition) (node : FlowNode) :
    checkInherit repr d node = .ok () ↔ (given node.config "inherit_history_from" = true →
      ∃ refs, inheritRefs node = some refs ∧ ∀ nid ∈ refs, Inheritable d node.id nid) := by
  rw [checkInherit]
  split
  case isFalse h => simp [h]
  case isTrue h =>
    split
    · rename_i refs hrefs
      rw [validateInheritable_ok_iff]
      simp [h, hrefs]
    · rename_i hnone
      simp [h, hnone]

/-- A stash has a record schema of carry fields and a dedup of a named checker with an object of
    fields, where it has them. -/
structure StashSound (repr : Json → String) (nodeId : String) (stash : Dict) : Prop where
  schema : given stash "record_schema" = true →
    ∃ fields, validateCarrySchema repr nodeId ((stash.get "record_schema").getD .null) = .ok fields
  dedup : given stash "dedup" = true →
    ∃ cfg name fields, dedupCfg nodeId ((stash.get "dedup").getD .null) = .ok (cfg, name) ∧
      getOr cfg "fields" (.obj []) = .obj fields

/-- The stash of a node, where it has one. -/
def NodeStashSound (repr : Json → String) (node : FlowNode) : Prop :=
  ∀ stash, node.config.get "stash" = some (.obj stash) → StashSound repr node.id stash

theorem checkRecordSchema_ok_iff (nodeId : String) (stash : Dict) :
    checkRecordSchema repr nodeId stash = .ok () ↔ (given stash "record_schema" = true →
      ∃ fields, validateCarrySchema repr nodeId ((stash.get "record_schema").getD .null) =
        .ok fields) := by
  rw [checkRecordSchema]
  split
  case isFalse h => simp [h]
  case isTrue h =>
    split
    · rename_i fields hok
      simp [hok]
    · rename_i text herror
      simp [h, herror]

theorem dedupFields_spec (nodeId name : String) (fields : Json) :
    (dedupFields nodeId name fields).Grounded ∧
      (dedupFields nodeId name fields good = .ok () ↔ ∃ entries, fields = .obj entries) := by
  cases fields with
  | obj entries =>
    simp only [dedupFields]
    exact ⟨Check.grounded_ofEnvironment rfl,
      fun _ => ⟨entries, rfl⟩, fun _ => Check.ofEnvironment_good rfl⟩
  | _ =>
    simp only [dedupFields]
    exact ⟨Check.grounded_ofDefinition _, by simp [Check.ofDefinition]⟩

theorem checkDedup_spec (nodeId : String) (stash : Dict) :
    (checkDedup repr nodeId stash).Grounded ∧
      (checkDedup repr nodeId stash good = .ok () ↔ (given stash "dedup" = true →
        ∃ cfg name fields, dedupCfg nodeId ((stash.get "dedup").getD .null) = .ok (cfg, name) ∧
          getOr cfg "fields" (.obj []) = .obj fields)) := by
  rw [checkDedup]
  split
  case isFalse h => exact ⟨Check.grounded_ofDefinition _, by simp [h, Check.ofDefinition]⟩
  case isTrue h =>
    cases hcfg : dedupCfg nodeId ((stash.get "dedup").getD .null) with
    | error text => exact ⟨Check.grounded_ofDefinition _, by simp [h, Check.ofDefinition]⟩
    | ok pair =>
      obtain ⟨cfg, name⟩ := pair
      have hname : Check.ofEnvironment (fun env => require (env.checker name).isSome
          ("ai_agent node " ++ nodeId ++ ": stash.dedup.checker " ++ repr (.str name) ++
            " is not a registered dedup checker")) good = .ok () := Check.ofEnvironment_good rfl
      obtain ⟨hground, hiff⟩ := dedupFields_spec nodeId name (getOr cfg "fields" (.obj []))
      refine ⟨(Check.grounded_ofEnvironment rfl).andThen hground, ?_⟩
      rw [Check.andThen_ok_iff, hiff]
      constructor
      · rintro ⟨_, fields, hfields⟩ _
        exact ⟨cfg, name, fields, rfl, hfields⟩
      · intro hall
        obtain ⟨cfg', name', fields, hsame, hfields⟩ := hall h
        obtain ⟨rfl, rfl⟩ := Prod.mk.inj (Except.ok.inj hsame)
        exact ⟨hname, fields, hfields⟩

theorem checkStash_spec (node : FlowNode) : (checkStash repr node).Grounded ∧
    (checkStash repr node good = .ok () ↔ NodeStashSound repr node) := by
  have hother (h : ∀ stash, node.config.get "stash" ≠ some (.obj stash)) :
      (Check.ofDefinition (.ok ())).Grounded ∧
        (Check.ofDefinition (.ok ()) good = .ok () ↔ NodeStashSound repr node) :=
    ⟨Check.grounded_ofDefinition _, fun _ stash hstash => absurd hstash (h stash), fun _ => rfl⟩
  rw [checkStash]
  cases hstash : node.config.get "stash" with
  | none => exact hother (by simp [hstash])
  | some value =>
    cases value with
    | obj stash =>
      obtain ⟨hground, hdedup⟩ := @checkDedup_spec repr node.id stash
      refine ⟨(Check.grounded_ofDefinition _).andThen hground, ?_⟩
      rw [Check.andThen_ok_iff, Check.ofDefinition_ok_iff, checkRecordSchema_ok_iff, hdedup]
      constructor
      · rintro ⟨hschema, hfields⟩ stash' hstash'
        obtain rfl : stash = stash' := Json.obj.inj (Option.some.inj (hstash.symm.trans hstash'))
        exact ⟨hschema, hfields⟩
      · intro hsound
        exact ⟨(hsound stash hstash).schema, (hsound stash hstash).dedup⟩
    | _ => exact hother (by simp [hstash])

/-- What a loop wants: a carry schema or a collection by its source, and a sound stash unless its
    iterations fail by themselves. -/
structure LoopSound (repr : Json → String) (ceiling : ℕ) (node : FlowNode) (cfg : Dict) : Prop where
  carry : resolveIterationSource (cfg.get "source") = .agentYield →
    ∃ fields, validateCarrySchema repr node.id (getOr cfg "carry_schema" (.arr [])) = .ok fields
  collection : resolveIterationSource (cfg.get "source") = .scratchpad →
    ∃ name, resolveScratchpadCollection node.id (cfg.get "source_config") = .ok name
  stash : NodeStashSound repr node ∨ (resolveIterationSource (cfg.get "source") = .scratchpad ∧
    ∃ n, resolveIterationExecution ceiling cfg = .parallel .goOn n)

/-- What an agent's turns want. -/
def TurnsSound (repr : Json → String) (ceiling : ℕ) (node : FlowNode) : Prop :=
  match iterationCfg node with
  | none => NodeStashSound repr node
  | some cfg => LoopSound repr ceiling node cfg

theorem siblingsFault_spec {f : Check} (nodeId : String) (h : f.Grounded) :
    (siblingsFault nodeId f).Grounded ∧
      (siblingsFault nodeId f good = .ok () ↔ f good = .ok ()) := by
  have hok (env : Environment) : siblingsFault nodeId f env = .ok () ↔ f env = .ok () := by
    rw [siblingsFault]
    split <;> simp_all
  refine ⟨⟨fun text herror => ?_, fun env text herror hgood => ?_⟩, hok good⟩
  · rw [siblingsFault] at herror
    split at herror
    · cases herror
    · simp at herror
    · rename_i text' henv
      exact h.sound text' henv
  · rw [siblingsFault] at herror
    split at herror
    · cases herror
    · rename_i text' hdef
      exact h.persists env text' hdef ((hok good).mp hgood)
    · simp at herror

theorem runRecords_spec (node : FlowNode) (cfg : Dict) :
    (runRecords repr ceiling node cfg).Grounded ∧ (runRecords repr ceiling node cfg good = .ok () ↔
      NodeStashSound repr node ∨ ∃ n, resolveIterationExecution ceiling cfg = .parallel .goOn n) := by
  obtain ⟨hground, hstash⟩ := @checkStash_spec repr node
  have hsome {f : Check} (hf : f.Grounded) :
      Check.Grounded fun env => if env.records = 0 then .ok () else f env := by
    refine ⟨hf.sound, fun env text herror => hf.persists env text ?_⟩
    split at herror
    · cases herror
    · exact herror
  have hone : good.records ≠ 0 := Nat.one_ne_zero
  unfold runRecords
  cases hexecution : resolveIterationExecution ceiling cfg with
  | sequential => exact ⟨hsome hground, by simpa [hone] using hstash⟩
  | parallel onError n =>
    cases onError with
    | goOn =>
      have hfree : Check.Grounded fun _ => .ok () := ⟨nofun, nofun⟩
      exact ⟨hsome hfree, by simp⟩
    | cancelSiblings =>
      obtain ⟨hwrapped, hiff⟩ := siblingsFault_spec node.id hground
      exact ⟨hsome hwrapped, by simpa [hone] using hiff.trans hstash⟩

theorem runTurns_spec (node : FlowNode) : (runTurns repr ceiling node).Grounded ∧
    (runTurns repr ceiling node good = .ok () ↔ TurnsSound repr ceiling node) := by
  obtain ⟨hground, hstash⟩ := @checkStash_spec repr node
  rw [runTurns, TurnsSound]
  cases iterationCfg node with
  | none => exact ⟨hground, hstash⟩
  | some cfg =>
    dsimp only
    cases hsource : resolveIterationSource (cfg.get "source") with
    | agentYield =>
      refine ⟨(Check.grounded_ofDefinition _).andThen hground, ?_⟩
      rw [Check.andThen_ok_iff, Check.ofDefinition_ok_iff, map_ok_iff, hstash]
      constructor
      · rintro ⟨hcarry, hsound⟩
        exact ⟨fun _ => hcarry, (fun hother => nomatch hsource.symm.trans hother), .inl hsound⟩
      · intro h
        refine ⟨h.carry hsource, h.stash.resolve_right fun hother => ?_⟩
        rw [hsource] at hother
        cases hother.1
    | scratchpad =>
      obtain ⟨hall, hrecords⟩ := @runRecords_spec repr ceiling node cfg
      refine ⟨(Check.grounded_ofDefinition _).andThen hall, ?_⟩
      rw [Check.andThen_ok_iff, Check.ofDefinition_ok_iff, map_ok_iff, hrecords]
      constructor
      · rintro ⟨hcollection, hsound⟩
        exact ⟨(fun hother => nomatch hsource.symm.trans hother), fun _ => hcollection,
          hsound.imp_right fun hgo => ⟨hsource, hgo⟩⟩
      · intro h
        exact ⟨h.collection hsource, h.stash.imp_right And.right⟩

/-- An agent node names an agent by an id, inherits as it may, and its turns are sound. -/
theorem runAiAgent_free_iff (d : FlowDefinition) (node : FlowNode) :
    (runAiAgent repr uuidError ceiling d node).Free ↔
      given node.config "agent_id" = true ∧ uuidError (node.raw "agent_id") = none ∧
        checkInherit repr d node = .ok () ∧ TurnsSound repr ceiling node := by
  obtain ⟨hground, hturns⟩ := @runTurns_spec repr ceiling node
  have hall : (runAiAgent repr uuidError ceiling d node).Grounded :=
    (Check.grounded_ofDefinition _).andThen <| (Check.grounded_ofEnvironment rfl).andThen <|
    (Check.grounded_ofDefinition _).andThen <| (Check.grounded_ofEnvironment rfl).andThen <|
    (Check.grounded_ofDefinition _).andThen <| (Check.grounded_ofEnvironment rfl).andThen hground
  rw [hall.free_iff, runAiAgent]
  simp only [Check.andThen_ok_iff, Check.ofDefinition_ok_iff, require_ok_iff, checkUuid_ok_iff,
    hturns]
  rw [Check.ofEnvironment_good rfl, Check.ofEnvironment_good rfl, Check.ofEnvironment_good rfl]
  simp only [true_and]

/-- What a dict takes for a key. -/
def hashable : Json → Bool
  | .arr _ | .obj _ => false
  | _ => true

theorem forM_checkKey_ok_iff (keys : List Json) :
    keys.forM checkKey = .ok () ↔ ∀ key ∈ keys, hashable key = true := by
  induction keys with
  | nil => simp [pure, Except.pure]
  | cons key keys ih =>
    have hstep : (key :: keys).forM checkKey = checkKey key >>= fun _ => keys.forM checkKey := rfl
    rw [hstep, List.forall_mem_cons, ← ih]
    cases key <;> simp [checkKey, hashable, bind, Except.bind]

/-- An output node selects by keys. -/
theorem runOutput_ok_iff (node : FlowNode) : runOutput node = .ok () ↔
    ∀ keys, node.config.get "select" = some (.arr keys) → ∀ key ∈ keys, hashable key = true := by
  rw [runOutput]
  split
  · rename_i keys hselect
    rw [forM_checkKey_ok_iff, hselect]
    constructor
    · rintro h keys' hsame
      obtain rfl := Json.arr.inj (Option.some.inj hsame)
      exact h
    · intro h
      exact h keys rfl
  · rename_i hother
    exact ⟨fun _ keys hselect => absurd hselect (hother keys), fun _ => rfl⟩

end

/-! ### The rules of the two readings -/

/-- A node both readings refuse: an action without a target, an agent node that names no agent, or
    one that inherits from itself, from an unknown node or from what is no list of ids. -/
def NodeRefused (d : FlowDefinition) (node : FlowNode) : Prop :=
  match node.type with
  | .action =>
    given node.config "operation_id" = false ∧ given node.config "system_tool_name" = false
  | .aiAgent => given node.config "agent_id" = false ∨
      (given node.config "inherit_history_from" = true ∧
        ¬ ∃ refs, inheritRefs node = some refs ∧ ∀ nid ∈ refs, nid ≠ node.id ∧ nid ∈ d.ids)
  | _ => False

/-- A node the engine runs and the validator refuses. -/
def NodeValidatorOnly (node : FlowNode) : Prop :=
  match node.type with
  | .action =>
    given node.config "operation_id" = false ∧ given node.config "system_tool_name" = true
  | .aiAgent => given node.config "inherit_history_from" = false ∧
      ∃ value, node.config.get "inherit_history_from" = some value ∧ value ≠ .null ∧
        ∀ items, value ≠ .arr items
  | _ => False

section
variable (repr : Json → String) (uuidError : Json → Option String) (ceiling : ℕ)

/-- A node the validator accepts and the engine fails for. -/
def NodeEngineOnly (d : FlowDefinition) (node : FlowNode) : Prop :=
  match node.type with
  | .action => given node.config "operation_id" = true ∧
      (given node.config "system_tool_name" = true ∨ uuidError (node.raw "operation_id") ≠ none)
  | .aiAgent => uuidError (node.raw "agent_id") ≠ none ∨
      (∃ refs, inheritRefs node = some refs ∧ ∃ nid ∈ refs,
        (∃ ref, d.nodeById nid = some ref ∧ ref.type ≠ .aiAgent) ∨
          d.notBefore node.id nid = true) ∨
      ¬ TurnsSound repr ceiling node
  | .output => ∃ keys, node.config.get "select" = some (.arr keys) ∧
      ∃ key ∈ keys, hashable key = false
  | _ => False

/-- What both readings refuse. -/
inductive Refused (d : FlowDefinition) : Prop where
  | repeated (h : ¬ d.ids.Nodup)
  | entry (h : d.entryPoint ∉ d.ids)
  | source (e : FlowEdge) (he : e ∈ d.edges) (h : e.source ∉ d.ids)
  | dest (e : FlowEdge) (he : e ∈ d.edges) (hend : e.dest ≠ endToken) (h : e.dest ∉ d.ids)
  | node (node : FlowNode) (hnode : node ∈ d.nodes) (h : NodeRefused d node)

/-- What only the validator refuses. -/
inductive ValidatorOnly (d : FlowDefinition) : Prop where
  | toEnd (e : FlowEdge) (he : e ∈ d.edges) (hend : e.dest = endToken) (h : endToken ∉ d.ids)
  | node (node : FlowNode) (hnode : node ∈ d.nodes) (h : NodeValidatorOnly node)

/-- What only the engine fails for. -/
inductive EngineOnly (lg : LangGraph) (d : FlowDefinition) : Prop where
  | name (node : FlowNode) (hnode : node ∈ d.nodes) (h : lg.reserved node.id = true)
  | node (node : FlowNode) (hnode : node ∈ d.nodes)
      (h : NodeEngineOnly repr uuidError ceiling d node)

end

section
variable {repr : Json → String} {uuidError : Json → Option String} {ceiling : ℕ}

theorem inheritErrors_nil_iff (d : FlowDefinition) (node : FlowNode) (ref : String) :
    inheritErrors repr d node ref = [] ↔ ref ≠ node.id ∧ ref ∈ d.ids := by
  rw [inheritErrors]
  split
  case isTrue h => simp [h]
  case isFalse h => split <;> simp_all

/-- A list that is falsy has no items. -/
theorem inheritRefs_of_not_given {node : FlowNode} {refs : List String}
    (hgiven : given node.config "inherit_history_from" = false)
    (hrefs : inheritRefs node = some refs) : refs = [] := by
  rw [inheritRefs] at hrefs
  split at hrefs
  · rename_i items hvalue
    have hnil : items = [] := by simpa [given, hvalue, truthy] using hgiven
    subst hnil
    exact (Option.some.inj hrefs).symm
  · cases hrefs

/-- The validator wants a field that is null or a list of ids of other nodes. -/
theorem historyErrors_nil_iff (d : FlowDefinition) (node : FlowNode) :
    historyErrors repr d node = [] ↔
      node.config.get "inherit_history_from" = none ∨
      node.config.get "inherit_history_from" = some .null ∨
      ∃ refs, inheritRefs node = some refs ∧ ∀ nid ∈ refs, nid ≠ node.id ∧ nid ∈ d.ids := by
  have hcheck (refs : List String) : refs.flatMap (inheritErrors repr d node) = [] ↔
      ∀ nid ∈ refs, nid ≠ node.id ∧ nid ∈ d.ids := by
    rw [List.flatMap_eq_nil_iff]
    exact forall₂_congr fun nid _ => inheritErrors_nil_iff d node nid
  rw [historyErrors, inheritRefs]
  cases node.config.get "inherit_history_from" with
  | none => simp
  | some value =>
    cases value with
    | arr items => cases hitems : strings items <;> simp [hitems, hcheck]
    | _ => simp

/-- A field it refuses is truthy, and then the engine refuses it too, or it is falsy and neither null
    nor a list. -/
theorem historyErrors_ne_nil_iff (d : FlowDefinition) (node : FlowNode) :
    historyErrors repr d node ≠ [] ↔
      (given node.config "inherit_history_from" = true ∧
        ¬ ∃ refs, inheritRefs node = some refs ∧ ∀ nid ∈ refs, nid ≠ node.id ∧ nid ∈ d.ids) ∨
      (given node.config "inherit_history_from" = false ∧
        ∃ value, node.config.get "inherit_history_from" = some value ∧ value ≠ .null ∧
          ∀ items, value ≠ .arr items) := by
  rw [ne_eq, historyErrors_nil_iff, not_or, not_or]
  cases hgiven : given node.config "inherit_history_from" with
  | true =>
    have hsome : node.config.get "inherit_history_from" ≠ none := by
      intro hnone
      simp [given, hnone] at hgiven
    have hnull : node.config.get "inherit_history_from" ≠ some .null := by
      intro hnull
      simp [given, hnull, truthy] at hgiven
    simp [hsome, hnull]
  | false =>
    simp only [Bool.false_eq_true, false_and, false_or, true_and]
    constructor
    · rintro ⟨hsome, hnull, hrefs⟩
      obtain ⟨value, hvalue⟩ := Option.ne_none_iff_exists'.mp hsome
      refine ⟨value, hvalue, fun h => hnull (h ▸ hvalue), ?_⟩
      rintro items rfl
      -- a falsy list is empty, and that is one of ids
      have hnil : items = [] := by simpa [given, hvalue, truthy] using hgiven
      exact hrefs ⟨[], by simp [inheritRefs, hvalue, hnil, strings], by simp⟩
    · rintro ⟨value, hvalue, hnull, harr⟩
      refine ⟨by simp [hvalue], by simpa [hvalue] using hnull, ?_⟩
      rintro ⟨refs, hrefs, -⟩
      rw [inheritRefs] at hrefs
      split at hrefs
      · rename_i items hitems
        exact harr items (Option.some.inj (hvalue.symm.trans hitems))
      · cases hrefs

/-- A node has errors when both readings refuse it or the validator alone does. -/
theorem nodeErrors_ne_nil_iff (d : FlowDefinition) (node : FlowNode) :
    nodeErrors repr d node ≠ [] ↔ NodeRefused d node ∨ NodeValidatorOnly node := by
  rw [nodeErrors, NodeRefused, NodeValidatorOnly]
  cases node.type with
  | action =>
    simp only [ne_eq, ite_nil_iff]
    cases given node.config "operation_id" <;> cases given node.config "system_tool_name" <;> simp
  | aiAgent =>
    rw [ne_eq, List.append_eq_nil_iff, ite_nil_iff, not_and_or, Bool.not_eq_true, ← ne_eq,
      historyErrors_ne_nil_iff, or_assoc]
  | _ => simp

/-- The validator rejects what both refuse or it alone does. -/
theorem validateDefinition_ne_nil_iff (d : FlowDefinition) :
    validateDefinition repr d ≠ [] ↔ Refused d ∨ ValidatorOnly d := by
  rw [ne_eq, validateDefinition_nil_iff]
  constructor
  · intro h
    by_contra hnone
    obtain ⟨hrefused, honly⟩ := not_or.mp hnone
    refine h ⟨not_not.mp fun hn => hrefused (.repeated hn),
      not_not.mp fun hn => hrefused (.entry hn), fun e he => ⟨?_, ?_⟩, fun node hnode => ?_⟩
    · exact not_not.mp fun hn => hrefused (.source e he hn)
    · refine not_not.mp fun hn => ?_
      by_cases hend : e.dest = endToken
      · exact honly (.toEnd e he hend (hend ▸ hn))
      · exact hrefused (.dest e he hend hn)
    · by_contra hne
      rcases (nodeErrors_ne_nil_iff d node).mp hne with hboth | hvalidator
      · exact hrefused (.node node hnode hboth)
      · exact honly (.node node hnode hvalidator)
  · rintro hreject ⟨hdistinct, hentry, hedges, hnodes⟩
    rcases hreject with hrefused | honly
    · cases hrefused with
      | repeated hn => exact hn hdistinct
      | entry hn => exact hn hentry
      | source e he hn => exact hn (hedges e he).1
      | dest e he _ hn => exact hn (hedges e he).2
      | node node hnode hn =>
        exact (nodeErrors_ne_nil_iff d node).mpr (.inl hn) (hnodes node hnode)
    · cases honly with
      | toEnd e he hend hn => exact hn (hend ▸ (hedges e he).2)
      | node node hnode hn =>
        exact (nodeErrors_ne_nil_iff d node).mpr (.inr hn) (hnodes node hnode)

/-- Where an agent's list is not refused by both, what is left is the type and the order of its
    nodes. -/
theorem not_checkInherit_iff (d : FlowDefinition) (node : FlowNode) :
    checkInherit repr d node ≠ .ok () ↔
      (given node.config "inherit_history_from" = true ∧
        ¬ ∃ refs, inheritRefs node = some refs ∧ ∀ nid ∈ refs, nid ≠ node.id ∧ nid ∈ d.ids) ∨
      ∃ refs, inheritRefs node = some refs ∧ ∃ nid ∈ refs,
        (∃ ref, d.nodeById nid = some ref ∧ ref.type ≠ .aiAgent) ∨
          d.notBefore node.id nid = true := by
  rw [ne_eq, checkInherit_ok_iff]
  constructor
  · intro h
    by_contra hnone
    obtain ⟨hshape, hrest⟩ := not_or.mp hnone
    refine h fun hgiven => ?_
    obtain ⟨refs, hrefs, hknown⟩ := not_not.mp (not_and.mp hshape hgiven)
    refine ⟨refs, hrefs, fun nid hnid => ⟨(hknown nid hnid).1, (hknown nid hnid).2, ?_, ?_⟩⟩
    · intro ref href
      by_contra htype
      exact hrest ⟨refs, hrefs, nid, hnid, .inl ⟨ref, href, htype⟩⟩
    · rw [← Bool.not_eq_true]
      intro hbefore
      exact hrest ⟨refs, hrefs, nid, hnid, .inr hbefore⟩
  · rintro (⟨hgiven, hnone⟩ | ⟨refs, hrefs, nid, hnid, hbad⟩) hall
    · obtain ⟨refs, hrefs, hin⟩ := hall hgiven
      exact hnone ⟨refs, hrefs, fun nid hnid => ⟨(hin nid hnid).other, (hin nid hnid).known⟩⟩
    · cases hgiven : given node.config "inherit_history_from" with
      | false => simp [inheritRefs_of_not_given hgiven hrefs] at hnid
      | true =>
        obtain ⟨refs', hrefs', hin⟩ := hall hgiven
        obtain rfl := Option.some.inj (hrefs.symm.trans hrefs')
        rcases hbad with ⟨ref, href, htype⟩ | hbefore
        · exact htype ((hin nid hnid).agent ref href)
        · rw [(hin nid hnid).before] at hbefore
          cases hbefore

/-- A handler fails for the definition when both readings refuse the node or the engine alone
    does. -/
theorem not_runNode_free_iff (d : FlowDefinition) (node : FlowNode) :
    ¬ (runNode repr uuidError ceiling d node).Free ↔
      NodeRefused d node ∨ NodeEngineOnly repr uuidError ceiling d node := by
  have hfree : (Check.ofDefinition (.ok ())).Free :=
    (Check.grounded_ofDefinition _).free_iff.mpr rfl
  rw [runNode, NodeRefused, NodeEngineOnly]
  cases node.type with
  | action =>
    simp only [runAction_free_iff]
    cases given node.config "operation_id" <;> cases given node.config "system_tool_name" <;> simp
  | aiAgent =>
    have hagent : given node.config "agent_id" ≠ true ↔ given node.config "agent_id" = false := by
      rw [ne_eq, Bool.not_eq_true]
    have hregroup (a u r s t : Prop) : (a ∨ u ∨ (r ∨ s) ∨ t) ↔ ((a ∨ r) ∨ u ∨ s ∨ t) := by tauto
    rw [runAiAgent_free_iff, not_and_or, not_and_or, not_and_or, ← ne_eq, hagent, ← ne_eq (uuidError _),
      ← ne_eq (checkInherit repr d node), not_checkInherit_iff]
    exact hregroup _ _ _ _ _
  | output =>
    simp only [(Check.grounded_ofDefinition _).free_iff, Check.ofDefinition_ok_iff,
      runOutput_ok_iff]
    push Not
    simp
  | condition => simp [hfree]
  | humanCheckpoint => simp [hfree]
  | trigger => simp [hfree]

/-- The engine fails for what both refuse or it alone does. -/
theorem not_runs_iff (lg : LangGraph) (d : FlowDefinition) :
    ¬ Runs repr uuidError ceiling lg d ↔
      Refused d ∨ EngineOnly repr uuidError ceiling lg d := by
  constructor
  · intro h
    by_contra hnone
    obtain ⟨hrefused, honly⟩ := not_or.mp hnone
    refine h ⟨(builds_iff lg d).mpr ⟨not_not.mp fun hn => hrefused (.repeated hn),
      not_not.mp fun hn => hrefused (.entry hn), fun e he => ⟨?_, ?_⟩, fun node hnode => ?_⟩,
      fun node hnode => ?_⟩
    · exact not_not.mp fun hn => hrefused (.source e he hn)
    · by_cases hend : e.dest = endToken
      · exact .inl hend
      · exact .inr (not_not.mp fun hn => hrefused (.dest e he hend hn))
    · rw [← Bool.not_eq_true]
      exact fun hname => honly (.name node hnode hname)
    · by_contra hfree
      rcases (not_runNode_free_iff d node).mp hfree with hboth | hengine
      · exact hrefused (.node node hnode hboth)
      · exact honly (.node node hnode hengine)
  · rintro hreject ⟨hbuilds, hfree⟩
    obtain ⟨hdistinct, hentry, hedges, hnames⟩ := (builds_iff lg d).mp hbuilds
    rcases hreject with hrefused | honly
    · cases hrefused with
      | repeated hn => exact hn hdistinct
      | entry hn => exact hn hentry
      | source e he hn => exact hn (hedges e he).1
      | dest e he hend hn => exact (hedges e he).2.elim hend hn
      | node node hnode hn =>
        exact (not_runNode_free_iff d node).mpr (.inl hn) (hfree node hnode)
    · cases honly with
      | name node hnode hname =>
        rw [hnames node hnode] at hname
        cases hname
      | node node hnode hn =>
        exact (not_runNode_free_iff d node).mpr (.inr hn) (hfree node hnode)

end

/-- The two readings agree on a definition both refuse, and else when each has something of its own
    against it or neither has. -/
theorem readings_agree_iff (repr : Json → String) (uuidError : Json → Option String) (ceiling : ℕ)
    (lg : LangGraph) (d : FlowDefinition) :
    (validateDefinition repr d = [] ↔ Runs repr uuidError ceiling lg d) ↔
      (Refused d ∨ (ValidatorOnly d ↔ EngineOnly repr uuidError ceiling lg d)) := by
  have hvalidator := @validateDefinition_ne_nil_iff repr d
  have hengine := @not_runs_iff repr uuidError ceiling lg d
  rw [ne_eq] at hvalidator
  rw [← not_iff_not (a := validateDefinition repr d = []), hvalidator, hengine]
  by_cases hrefused : Refused d
  · simp [hrefused]
  · simp only [hrefused, false_or]

/-- One action with both targets: accepted, and failing whenever it runs. -/
def bothTargets : FlowDefinition where
  entryPoint := "send"
  nodes := [⟨"send", .action, "Send",
    [("operation_id", .str "op"), ("system_tool_name", .str "send_mail")]⟩]
  edges := []

/-- A trigger that leads to `__end__`: run, and not accepted. -/
def toEnd : FlowDefinition where
  entryPoint := "start"
  nodes := [⟨"start", .trigger, "Start", []⟩]
  edges := [⟨"start", endToken, none⟩]

/-- Neither reading implies the other. -/
theorem readings_part :
    (¬ ∀ (repr : Json → String) (uuidError : Json → Option String) (ceiling : ℕ) (lg : LangGraph)
      (d : FlowDefinition), validateDefinition repr d = [] → Runs repr uuidError ceiling lg d) ∧
    ¬ ∀ (repr : Json → String) (uuidError : Json → Option String) (ceiling : ℕ) (lg : LangGraph)
      (d : FlowDefinition), Runs repr uuidError ceiling lg d → validateDefinition repr d = [] := by
  let lg : LangGraph := ⟨fun name => name = endToken, rfl⟩
  constructor
  · intro h
    have haccept : validateDefinition (fun _ => "") bothTargets = [] := rfl
    refine (not_runs_iff lg bothTargets).mpr (.inr ?_)
      (h (fun _ => "") (fun _ => none) 4 lg bothTargets haccept)
    exact .node _ List.mem_cons_self ⟨rfl, .inl rfl⟩
  · intro h
    have hruns : Runs (fun _ => "") (fun _ => none) 4 lg toEnd := by
      constructor
      · exact (builds_iff lg toEnd).mpr (by decide)
      · intro node hnode
        obtain rfl := List.mem_singleton.mp hnode
        exact (Check.grounded_ofDefinition (.ok ())).free_iff.mpr rfl
    refine (validateDefinition_ne_nil_iff toEnd).mpr (.inr ?_)
      (h (fun _ => "") (fun _ => none) 4 lg toEnd hruns)
    exact .toEnd _ List.mem_cons_self rfl (by decide)

end LunaCore.Flow
