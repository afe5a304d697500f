import LunaCore.Flow.Definition

/-! What an ai_agent node's config says about its iterations.

    A config is whatever JSON the definition holds; each helper reads one part of it and either
    normalises it or fails with the text its exception has. Python's `repr` of a value, which some
    of these texts quote, is a parameter. -/

namespace LunaCore.Flow
open LunaCore.Values

/-- `bool(value)`. -/
def truthy : Json → Bool
  | .null => false
  | .bool b => b
  | .num q => q ≠ 0
  | .str s => s ≠ ""
  | .arr items => !items.isEmpty
  | .obj fields => !fields.isEmpty

/-- `bool(config.get(key))`. -/
def given (config : Dict) (key : String) : Bool := ((config.get key).map truthy).getD false

/-- `config.get(key) or default`. -/
def getOr (config : Dict) (key : String) (default : Json) : Json :=
  match config.get key with
  | some value => if truthy value then value else default
  | none => default

inductive IterationSource where
  | agentYield
  | scratchpad
  deriving DecidableEq

/-- `resolve_iteration_source`: what is not `scratchpad` is `agent_yield`. -/
def resolveIterationSource : Option Json → IterationSource
  | some (.str "scratchpad") => .scratchpad
  | _ => .agentYield

/-- What one failed iteration means for its siblings. -/
inductive OnIterationError where
  | goOn
  | cancelSiblings
  deriving DecidableEq

/-- `resolve_on_iteration_error`: what is not `cancel_siblings` is `continue`. -/
def resolveOnIterationError : Option Json → OnIterationError
  | some (.str "cancel_siblings") => .cancelSiblings
  | _ => .goOn

/-- `resolve_iteration_concurrency`; `True` is the integer 1. -/
def resolveIterationConcurrency (ceiling : ℕ) : Option Json → ℕ
  | some (.num q) => min (if q.den = 1 ∧ 0 < q.num then q.num.toNat else 4) (max 1 ceiling)
  | some (.bool true) => min 1 (max 1 ceiling)
  | _ => min 4 (max 1 ceiling)

/-- `resolve_max_iterations`; `True` is the integer 1. -/
def resolveMaxIterations : Option Json → ℕ
  | some (.num q) => min (if q.den = 1 ∧ 0 < q.num then q.num.toNat else 50) 200
  | some (.bool true) => min 1 200
  | _ => min 50 200

theorem resolveMaxIterations_bounds (raw : Option Json) :
    0 < resolveMaxIterations raw ∧ resolveMaxIterations raw ≤ 200 := by
  unfold resolveMaxIterations
  split
  · split_ifs with h <;> omega
  · decide
  · decide

/-- What a turn that yields nothing means for the loop. -/
inductive OnNoYield where
  | treatAsDone
  | error
  deriving DecidableEq

/-- `resolve_on_no_yield`: what is not `error` is `treat_as_done`. -/
def resolveOnNoYield : Option Json → OnNoYield
  | some (.str "error") => .error
  | _ => .treatAsDone

/-- How a scratchpad's records are gone through. -/
inductive IterationExecution where
  | sequential
  | parallel (onError : OnIterationError) (concurrency : ℕ)
  deriving DecidableEq

/-- `resolve_iteration_execution`, with what the parallel mode reads of the config. -/
def resolveIterationExecution (ceiling : ℕ) (cfg : Dict) : IterationExecution :=
  match cfg.get "execution" with
  | some (.str "parallel") =>
    .parallel (resolveOnIterationError (cfg.get "on_iteration_error"))
      (resolveIterationConcurrency ceiling (cfg.get "concurrency"))
  | _ => .sequential

/-- `node.config["iteration"]` where it is an object that enables iterations. -/
def iterationCfg (node : FlowNode) : Option Dict :=
  match node.config.get "iteration" with
  | some (.obj cfg) => if given cfg "enabled" then some cfg else none
  | _ => none

/-- `CARRY_PRIMITIVE_TYPES`. -/
def carryPrimitiveTypes : List String :=
  ["string", "integer", "number", "boolean", "object", "array"]

section
variable (repr : Json → String) (nodeId : String)

/-- The checks of `validate_carry_schema` on one entry. A list or a dict is not hashable, which the
    lookup of its type needs. -/
def checkCarryField : Json → Except String Unit
  | .obj field =>
    match Dict.get field "name" with
    | some (.str name) =>
      if name = "" then
        .error ("ai_agent node " ++ nodeId ++ ": carry_schema entry missing 'name'")
      else match (Dict.get field "type").getD (.str "string") with
        | .arr _ => .error "unhashable type: 'list'"
        | .obj _ => .error "unhashable type: 'dict'"
        | ftype =>
          if ftype ∈ carryPrimitiveTypes.map Json.str then .ok ()
          else .error ("ai_agent node " ++ nodeId ++ ": carry_schema field " ++ repr (.str name) ++
            " has unsupported type " ++ repr ftype)
    | _ => .error ("ai_agent node " ++ nodeId ++ ": carry_schema entry missing 'name'")
  | _ => .error ("ai_agent node " ++ nodeId ++ ": carry_schema entries must be objects")

/-- `validate_carry_schema`. -/
def validateCarrySchema : Json → Except String (List Json)
  | .arr fields => (fields.forM (checkCarryField repr nodeId)).map fun _ => fields
  | _ => .error ("ai_agent node " ++ nodeId ++ ": iteration.carry_schema must be a list")

/-- `resolve_scratchpad_collection`. -/
def resolveScratchpadCollection : Option Json → Except String String
  | some (.obj config) =>
    match Dict.get config "collection" with
    | some (.str name) =>
      if name = "" then .error ("ai_agent node " ++ nodeId ++
        ": iteration.source_config.collection must be a non-empty string")
      else .ok name
    | _ => .error ("ai_agent node " ++ nodeId ++
        ": iteration.source_config.collection must be a non-empty string")
  | _ => .error ("ai_agent node " ++ nodeId ++
      ": iteration.source_config must be an object when source is 'scratchpad'")

end

/-- The carry a schema starts a loop with: each name with its default. -/
def carryDefaults (fields : List Json) : Dict :=
  fields.foldl (fun carry field => match field with
    | .obj entries => match Dict.get entries "name" with
      | some (.str name) => carry.set name ((Dict.get entries "default").getD .null)
      | _ => carry
    | _ => carry) []

/-- The overrides an `initial_carry` gives, where it is an object. -/
def initialOverrides (cfg : Dict) : Dict :=
  match getOr cfg "initial_carry" (.obj []) with
  | .obj overrides => overrides
  | _ => []

end LunaCore.Flow
