import LunaCore.Connectors.InputSchema
import LunaCore.Mcp.Builder

/-! PATCH and DELETE of an operation, by the connector and the operation of the path.

    PATCH    get ─ set ─ commit ─ register ─ attach ─▶ whose connector? ─▶ read back
              │           │                                  │                 │
             404         409                                404               500
    DELETE   get ─▶ whose connector? ─▶ delete ─ commit ─ unregister ─ detach
              │            │
             404          404

    The one that asks first leaves nothing behind when it is refused. The other has written its three
    stores by then, so it leaves them as they were only where there was nothing to write. -/

namespace LunaCore.Connectors.Patching
open LunaCore.Schemes LunaCore.Values
open LunaCore.Mcp (Server operationTool)

/-- An `Operation` row under its id. The columns that may hold a JSON null are options. -/
structure OperationRow where
  connectorId : ℕ
  name : String
  description : String
  method : HttpMethod
  path : String
  parameters : List ParameterDef
  fixedHeaders : Option (List (String × String))
  fixedBody : Option Dict
  retryPolicy : Option Dict
  inputSchema : Option Dict
  outputSchema : Option Dict
  isActive : Bool

/-- A field of a patch: not sent, null, or a value. -/
abbrev Sent (α : Type) := Option (Option α)

/-- `OperationUpdate`: neither the name nor the connector is among its fields. -/
structure OperationUpdate where
  description : Sent String
  method : Sent HttpMethod
  path : Sent String
  parameters : Sent (List ParameterDef)
  fixedHeaders : Sent (List (String × String))
  fixedBody : Sent Dict
  retryPolicy : Sent Dict
  inputSchema : Sent Dict
  outputSchema : Sent Dict
  isActive : Sent Bool

/-- A null in a column that takes none; the commit raises IntegrityError. -/
def OperationUpdate.refused (payload : OperationUpdate) : Bool :=
  payload.description = some none || payload.method = some none || payload.path = some none ||
    payload.isActive = some none

/-- The members of `parameters_to_input_schema`. -/
def derivedSchema (parameters : List ParameterDef) : Dict :=
  match parametersToInputSchema parameters with
  | .obj keywords => keywords
  | _ => []

/-- A column without null keeps what it has where nothing is sent. -/
def Sent.orKeep {α : Type} (sent : Sent α) (old : α) : α := sent.join.getD old

/-- The row with what was sent; parameters bring their schema along. -/
def OperationRow.patch (row : OperationRow) (payload : OperationUpdate) : OperationRow :=
  { row with
    description := payload.description.orKeep row.description
    method := payload.method.orKeep row.method
    path := payload.path.orKeep row.path
    parameters := (payload.parameters.map (·.getD [])).getD row.parameters
    fixedHeaders := payload.fixedHeaders.getD row.fixedHeaders
    fixedBody := payload.fixedBody.getD row.fixedBody
    retryPolicy := payload.retryPolicy.getD row.retryPolicy
    inputSchema := match payload.parameters with
      | some parameters => some (derivedSchema (parameters.getD []))
      | none => payload.inputSchema.getD row.inputSchema
    outputSchema := payload.outputSchema.getD row.outputSchema
    isActive := payload.isActive.orKeep row.isActive }

/-- `OperationRead.model_validate` takes the row: it wants these three to be objects. -/
def OperationRow.readable (row : OperationRow) : Bool :=
  row.fixedHeaders.isSome && row.inputSchema.isSome && row.outputSchema.isSome

/-- What the MCP server makes of the row. -/
def OperationRow.operation (row : OperationRow) (id : ℕ) : Mcp.Operation :=
  ⟨id, row.connectorId, row.name, row.description, row.inputSchema.getD []⟩

/-! ### The registry -/

section
variable {Connector : Type*}

structure RegisteredConnector (Connector : Type*) where
  connector : Connector
  operations : ℕ → Option OperationRow

/-- The maps of a `ConnectorRegistry`, with all that their rows say. -/
structure Registry (Connector : Type*) where
  connectors : ℕ → Option (RegisteredConnector Connector)
  operations : ℕ → Option ℕ

/-- `register(connector, [operation])`. -/
def Registry.register (r : Registry Connector) (connectorId : ℕ) (connector : Connector) (id : ℕ)
    (row : OperationRow) : Registry Connector :=
  let bucket := (r.connectors connectorId).getD ⟨connector, fun _ => none⟩
  { connectors := Function.update r.connectors connectorId
      (some ⟨connector, Function.update bucket.operations id (some row)⟩)
    operations := Function.update r.operations id (some connectorId) }

/-- `unregister_operation`. -/
def Registry.unregisterOperation (r : Registry Connector) (id : ℕ) : Registry Connector :=
  match r.operations id with
  | none => r
  | some connectorId =>
    { connectors := match r.connectors connectorId with
        | none => r.connectors
        | some bucket => Function.update r.connectors connectorId
            (some { bucket with operations := Function.update bucket.operations id none })
      operations := Function.update r.operations id none }

/-- The registry has the row under its connector as it is now. -/
def Registry.Has (r : Registry Connector) (connectorId : ℕ) (connector : Connector) (id : ℕ)
    (row : OperationRow) : Prop :=
  r.operations id = some connectorId ∧ ∃ operations,
    r.connectors connectorId = some ⟨connector, operations⟩ ∧ operations id = some row

/-- Registering changes nothing just where the registry has the row already. -/
theorem Registry.register_eq_iff (r : Registry Connector) (connectorId : ℕ) (connector : Connector)
    (id : ℕ) (row : OperationRow) :
    r.register connectorId connector id row = r ↔ r.Has connectorId connector id row := by
  obtain ⟨connectors, operations⟩ := r
  simp only [register, Has, mk.injEq, Function.update_eq_self_iff]
  rw [and_comm, eq_comm (b := operations id), eq_comm (b := connectors connectorId)]
  refine and_congr_right fun _ => ?_
  cases hbucket : connectors connectorId with
  | none => simp
  | some bucket =>
    obtain ⟨old, rows⟩ := bucket
    simp only [Option.getD_some, Option.some.injEq, RegisteredConnector.mk.injEq]
    constructor
    · rintro ⟨rfl, hrows⟩
      exact ⟨rows, ⟨rfl, rfl⟩, (congrFun hrows id).trans (Function.update_self ..)⟩
    · rintro ⟨_, ⟨rfl, rfl⟩, hrow⟩
      exact ⟨rfl, (Function.update_eq_self_iff.mpr hrow.symm).symm⟩

/-! ### The stores and the service -/

/-- The database and what a host has wired beside it. -/
structure Stores (Connector : Type*) where
  connectors : ℕ → Option Connector
  operations : ℕ → Option OperationRow
  linked : ∀ id row, operations id = some row → (connectors row.connectorId).isSome = true
  registry : Option (Registry Connector)
  server : Option Server

/-- `OperationSnapshot`. -/
structure OperationSnapshot where
  id : ℕ
  connectorId : ℕ
  name : String
  deriving DecidableEq

def OperationRow.snapshot (row : OperationRow) (id : ℕ) : OperationSnapshot :=
  ⟨id, row.connectorId, row.name⟩

inductive ServiceError where
  | operationNotFound
  | duplicateOperation (name : String)
  deriving DecidableEq

/-- The row is committed under the id it had. -/
def Stores.commit (s : Stores Connector) {id : ℕ} {row : OperationRow}
    (hrow : s.operations id = some row) (payload : OperationUpdate) : Stores Connector :=
  { s with
    operations := Function.update s.operations id (some (row.patch payload))
    linked := by
      intro i row' h
      by_cases hid : i = id
      · rw [hid, Function.update_self, Option.some.injEq] at h
        exact h ▸ s.linked id row hrow
      · rw [Function.update_of_ne hid] at h
        exact s.linked i row' h }

def Stores.delete (s : Stores Connector) (id : ℕ) : Stores Connector :=
  { s with
    operations := Function.update s.operations id none
    linked := by
      intro i row h
      by_cases hid : i = id
      · rw [hid, Function.update_self] at h
        cases h
      · rw [Function.update_of_ne hid] at h
        exact s.linked i row h }

/-- `update_operation`; the hook gets the state before and the row after. -/
def updateOperation (s : Stores Connector) (id : ℕ) (payload : OperationUpdate)
    (onUpdated : Stores Connector → OperationSnapshot → OperationRow → Stores Connector) :
    Except ServiceError (Stores Connector × OperationRow) :=
  match hrow : s.operations id with
  | none => .error .operationNotFound
  | some row =>
    if payload.refused then .error (.duplicateOperation row.name)
    else
      .ok (onUpdated (s.commit hrow payload) (row.snapshot id) (row.patch payload),
        row.patch payload)

/-- `delete_operation`. -/
def deleteOperation (s : Stores Connector) (id : ℕ)
    (onDeleted : Stores Connector → OperationSnapshot → Stores Connector) :
    Except ServiceError (Stores Connector) :=
  match s.operations id with
  | none => .error .operationNotFound
  | some row => .ok (onDeleted (s.delete id) (row.snapshot id))

/-! ### The router -/

/-- `_on_updated`. -/
def onUpdated (s : Stores Connector) (previous : OperationSnapshot) (current : OperationRow) :
    Stores Connector :=
  { s with
    registry := s.registry.map fun r => match s.connectors current.connectorId with
      | some connector => r.register current.connectorId connector previous.id current
      | none => r
    server := s.server.map fun server =>
      let detached := if previous.name ≠ current.name then (Mcp.detach server previous.name).1
        else server
      Mcp.attachOperation detached (current.operation previous.id) }

/-- `_on_deleted`. -/
def onDeleted (s : Stores Connector) (snapshot : OperationSnapshot) : Stores Connector :=
  { s with
    registry := s.registry.map (·.unregisterOperation snapshot.id)
    server := s.server.map fun server => (Mcp.detach server snapshot.name).1 }

inductive Answer where
  | ok
  | noContent
  | notFound (detail : String)
  | conflict (detail : String)
  /-- The row cannot be read back; nothing catches that. -/
  | serverError
  deriving DecidableEq

def Answer.isError : Answer → Bool
  | .ok | .noContent => false
  | .notFound _ | .conflict _ | .serverError => true

/-- What `update_op` answers with the row in hand. -/
def answerFor (connectorId : ℕ) (operation : OperationRow) : Answer :=
  if operation.connectorId ≠ connectorId then .notFound "operation not found for this connector"
  else if operation.readable then .ok
  else .serverError

/-- `update_op`. -/
def updateOp (s : Stores Connector) (connectorId operationId : ℕ) (payload : OperationUpdate) :
    Stores Connector × Answer :=
  match updateOperation s operationId payload onUpdated with
  | .error .operationNotFound => (s, .notFound "operation not found")
  | .error (.duplicateOperation name) =>
    (s, .conflict ("operation '" ++ name ++ "' already exists for this connector"))
  | .ok (t, operation) => (t, answerFor connectorId operation)

/-- `destroy_op`. -/
def destroyOp (s : Stores Connector) (connectorId operationId : ℕ) : Stores Connector × Answer :=
  match s.operations operationId with
  | none => (s, .notFound "operation not found")
  | some operation =>
    if operation.connectorId ≠ connectorId then
      (s, .notFound "operation not found for this connector")
    else
      match deleteOperation s operationId onDeleted with
      | .error _ => (s, .notFound "operation not found")
      | .ok t => (t, .noContent)

/-- The two requests. -/
inductive Request where
  | patch (payload : OperationUpdate)
  | delete

def handle (s : Stores Connector) (connectorId operationId : ℕ) : Request → Stores Connector × Answer
  | .patch payload => updateOp s connectorId operationId payload
  | .delete => destroyOp s connectorId operationId

/-! ### What a refused request leaves -/

/-- What the server lists under a name. -/
def Stores.tool (s : Stores Connector) (name : String) : Option Mcp.Tool :=
  s.server.bind (·.lookup name)

/-- The rows, the registry and the tools of the one are those of the other. -/
structure Same (s t : Stores Connector) : Prop where
  operations : t.operations = s.operations
  registry : t.registry = s.registry
  tools : ∀ name, t.tool name = s.tool name

/-- The registry has the row and the server its tool. -/
def Stores.Settled (s : Stores Connector) (id : ℕ) (row : OperationRow) : Prop :=
  (∀ r connector, s.registry = some r → s.connectors row.connectorId = some connector →
    r.Has row.connectorId connector id row) ∧
  ∀ server, s.server = some server → server.lookup row.name = some (operationTool (row.operation id))

/-- A request that cannot be refused after it has written something: no such operation, a patch the
    commit refuses, one of the connector's own that can be read back, or nothing new in it. -/
def Harmless (s : Stores Connector) (connectorId operationId : ℕ) : Request → Prop
  | .patch payload => ∀ row, s.operations operationId = some row →
      payload.refused = true ∨
      (row.connectorId = connectorId ∧ (row.patch payload).readable = true) ∨
      (row.patch payload = row ∧ s.Settled operationId row)
  | .delete => True

theorem Same.refl (s : Stores Connector) : Same s s := ⟨rfl, rfl, fun _ => rfl⟩

/-- A patched row is answered with an error unless the operation is the connector's own and can be
    read back. -/
theorem answerFor_isError_iff (connectorId : ℕ) (row : OperationRow) (payload : OperationUpdate) :
    (answerFor connectorId (row.patch payload)).isError = true ↔
      ¬ (row.connectorId = connectorId ∧ (row.patch payload).readable = true) := by
  rw [answerFor]
  by_cases hown : row.connectorId = connectorId
  · have howned : ¬ (row.patch payload).connectorId ≠ connectorId := not_not.mpr hown
    rw [if_neg howned]
    by_cases hreadable : (row.patch payload).readable = true
    · rw [if_pos hreadable]
      exact iff_of_false (fun h => by cases h) (not_not.mpr ⟨hown, hreadable⟩)
    · rw [if_neg hreadable]
      exact iff_of_true rfl fun h => hreadable h.2
  · have hforeign : (row.patch payload).connectorId ≠ connectorId := hown
    rw [if_pos hforeign]
    exact iff_of_true rfl fun h => hown h.1

/-- Attaching changes nothing just where the name has this tool already. -/
theorem attach_same_iff (server : Server) (op : Mcp.Operation) :
    (∀ name, (Mcp.attachOperation server op).lookup name = server.lookup name) ↔
      server.lookup op.name = some (operationTool op) := by
  simp only [Mcp.attachOperation, lookup_insert_ite]
  constructor
  · intro h
    rw [← h op.name, if_pos rfl]
  · intro h name
    split
    case isTrue hname => rw [hname, h]
    case isFalse => rfl

/-- What a patch has written is what was there just where it says nothing new. -/
theorem updated_same_iff (s : Stores Connector) {id : ℕ} {row : OperationRow}
    (hrow : s.operations id = some row) (payload : OperationUpdate) :
    Same s (onUpdated (s.commit hrow payload) (row.snapshot id) (row.patch payload)) ↔
      row.patch payload = row ∧ s.Settled id row := by
  have hrows : Function.update s.operations id (some (row.patch payload)) = s.operations ↔
      row.patch payload = row := by
    rw [Function.update_eq_self_iff, hrow, Option.some.injEq]
  obtain ⟨connector, hconnector⟩ := Option.isSome_iff_exists.mp (s.linked id row hrow)
  have hregistry : row.patch payload = row →
      ((onUpdated (s.commit hrow payload) (row.snapshot id) (row.patch payload)).registry =
        s.registry ↔ ∀ r connector, s.registry = some r →
          s.connectors row.connectorId = some connector →
            r.Has row.connectorId connector id row) := by
    intro hsame
    rw [hsame]
    simp only [onUpdated, Stores.commit, OperationRow.snapshot, hconnector, Option.some.injEq]
    cases hr : s.registry with
    | none => simp
    | some r => simp [r.register_eq_iff]
  have htools : row.patch payload = row →
      ((∀ name, (onUpdated (s.commit hrow payload) (row.snapshot id)
          (row.patch payload)).tool name = s.tool name) ↔
        ∀ server, s.server = some server →
          server.lookup row.name = some (operationTool (row.operation id))) := by
    intro hsame
    rw [hsame]
    simp only [Stores.tool, onUpdated, Stores.commit, OperationRow.snapshot, ne_eq, not_true,
      if_false]
    cases hserver : s.server with
    | none => simp
    | some server =>
      simp only [Option.map_some, Option.bind_some, Option.some.injEq, forall_eq']
      exact attach_same_iff server (row.operation id)
  constructor
  · rintro ⟨hoperations, hkept, hlisted⟩
    have hsame := hrows.mp hoperations
    exact ⟨hsame, (hregistry hsame).mp hkept, (htools hsame).mp hlisted⟩
  · rintro ⟨hsame, hkept, hlisted⟩
    exact ⟨hrows.mpr hsame, (hregistry hsame).mpr hkept, (htools hsame).mpr hlisted⟩

/-- DELETE: what it refuses it has not touched. -/
theorem destroyOp_error (s : Stores Connector) (connectorId operationId : ℕ)
    (h : (destroyOp s connectorId operationId).2.isError = true) :
    (destroyOp s connectorId operationId).1 = s := by
  unfold destroyOp at h ⊢
  cases hrow : s.operations operationId with
  | none => rfl
  | some row =>
    simp only [hrow] at h ⊢
    split
    · rfl
    case isFalse hown =>
      rw [if_neg hown] at h
      simp only [deleteOperation, hrow] at h
      cases h

theorem updateOperation_known (s : Stores Connector) {id : ℕ} {row : OperationRow}
    (hrow : s.operations id = some row) (payload : OperationUpdate)
    (hook : Stores Connector → OperationSnapshot → OperationRow → Stores Connector) :
    updateOperation s id payload hook =
      if payload.refused then .error (.duplicateOperation row.name)
      else .ok (hook (s.commit hrow payload) (row.snapshot id) (row.patch payload),
        row.patch payload) := by
  unfold updateOperation
  split
  case h_1 hnone =>
    rw [hrow] at hnone
    cases hnone
  case h_2 row' hrow' =>
    obtain rfl : row' = row := Option.some.inj (hrow'.symm.trans hrow)
    rfl

theorem updateOperation_unknown (s : Stores Connector) {id : ℕ} (hrow : s.operations id = none)
    (payload : OperationUpdate)
    (hook : Stores Connector → OperationSnapshot → OperationRow → Stores Connector) :
    updateOperation s id payload hook = .error .operationNotFound := by
  unfold updateOperation
  split
  · rfl
  case h_2 row' hrow' =>
    rw [hrow] at hrow'
    cases hrow'

/-- PATCH: an error leaves everything as it was iff the request is harmless. -/
theorem updateOp_error_iff (s : Stores Connector) (connectorId operationId : ℕ)
    (payload : OperationUpdate) :
    ((updateOp s connectorId operationId payload).2.isError = true →
      Same s (updateOp s connectorId operationId payload).1) ↔
    Harmless s connectorId operationId (.patch payload) := by
  unfold updateOp Harmless
  cases hrow : s.operations operationId with
  | none =>
    rw [updateOperation_unknown s hrow]
    exact iff_of_true (fun _ => .refl s) fun row h => by cases h
  | some row =>
    rw [updateOperation_known s hrow]
    simp only [Option.some.injEq, forall_eq']
    by_cases hrefused : payload.refused = true
    · rw [if_pos hrefused]
      exact iff_of_true (fun _ => .refl s) (.inl hrefused)
    · rw [if_neg hrefused]
      rw [← updated_same_iff s hrow, or_iff_right hrefused]
      change ((answerFor connectorId (row.patch payload)).isError = true → _) ↔ _
      rw [answerFor_isError_iff]
      exact or_iff_not_imp_left.symm

/-- EXACT CONDITION: a request that answers with an error leaves the rows, the registry and the
    tools as they were iff it is harmless. -/
theorem error_same_iff (s : Stores Connector) (connectorId operationId : ℕ) (request : Request) :
    ((handle s connectorId operationId request).2.isError = true →
      Same s (handle s connectorId operationId request).1) ↔
    Harmless s connectorId operationId request := by
  cases request with
  | patch payload => exact updateOp_error_iff s connectorId operationId payload
  | delete =>
    refine iff_of_true (fun h => ?_) trivial
    have hsame : (handle s connectorId operationId .delete).1 = s :=
      destroyOp_error s connectorId operationId h
    rw [hsame]
    exact .refl s

end

/-- Connectors 1 and 2, with one operation of connector 1; a registry and a server without it. -/
def searching : Stores Unit where
  connectors := fun id => if id = 1 ∨ id = 2 then some () else none
  operations := fun id =>
    if id = 10 then some ⟨1, "search", "", .get, "/search", [], some [], none, none, some [], some [],
      true⟩
    else none
  linked := by
    intro id row h
    split at h
    · cases h
      rfl
    · cases h
  registry := some ⟨fun _ => none, fun _ => none⟩
  server := some ∅

/-- By way of connector 2 the path of connector 1's operation is changed, and the answer is 404. -/
theorem foreign_patch_written :
    ¬ ∀ (s : Stores Unit) (connectorId operationId : ℕ) (request : Request),
      (handle s connectorId operationId request).2.isError = true →
        Same s (handle s connectorId operationId request).1 := by
  intro h
  have hsame := h searching 2 10 (.patch ⟨none, none, some (some "/find"), none, none, none, none,
    none, none, none⟩) rfl
  have hpath := congrArg (fun operations => (operations 10).map OperationRow.path) hsame.operations
  exact absurd hpath (by decide)

end LunaCore.Connectors.Patching
