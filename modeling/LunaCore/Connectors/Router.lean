import LunaCore.Connectors.Registry
import LunaCore.Schemes.Machine

/-! The connectors router: the rows of the database, the registry that executes them and the MCP
    server that lists them.

                         database   registry                     server
    create connector     insert     ·                            ·
    update connector     update     register all its operations  ·
    delete connector     cascade    unregister                   detach their names
    create operation     insert     ·                            attach
    update operation     update     register                     attach
    delete operation     delete     unregister                   detach its name
    test operation       ·          register                     ·
    load_from_db         ·          clear ─ connectors ─ operations
    refresh_from_db      ·          ·                            the active operations

    No request looks at `is_active` before it registers or attaches. A request runs to its end
    without the others; `load_from_db` waits for the database twice. -/

namespace LunaCore.Connectors.Router
open LunaCore.Values LunaCore.Schemes
open LunaCore.Mcp (Operation InternalTool Server Handler handlerAt lastNamed handlerAt_detach
  handlerAt_detachAll handlerAt_attachOperation handlerAt_refreshFromDb)

/-! ### The database -/

/-- An `Operation` row under its id, less what only its HTTP request needs. -/
structure OperationRow where
  connectorId : ℕ
  name : String
  description : String
  inputSchema : Dict
  isActive : Bool
  deriving DecidableEq

def OperationRow.operation (row : OperationRow) (id : ℕ) : Operation :=
  ⟨id, row.connectorId, row.name, row.description, row.inputSchema⟩

/-- An `OperationUpdate`: the name and the connector are not among its fields. -/
structure OperationUpdate where
  description : Option String
  inputSchema : Option Dict
  isActive : Option Bool
  deriving DecidableEq

def OperationRow.patch (row : OperationRow) (payload : OperationUpdate) : OperationRow :=
  { row with
    description := payload.description.getD row.description
    inputSchema := payload.inputSchema.getD row.inputSchema
    isActive := payload.isActive.getD row.isActive }

/-- The connectors by id, with their `is_active`, and their operations by id. -/
structure Database where
  connectors : Table ℕ Bool
  operations : Table ℕ OperationRow
  linked : ∀ i row, operations.lookup i = some row → row.connectorId ∈ connectors

namespace Database

def empty : Database := ⟨∅, ∅, fun _ _ h => by cases h⟩

/-- The id has an operation, it is active and its connector is. -/
def LiveRow (db : Database) (i : ℕ) (row : OperationRow) : Prop :=
  db.operations.lookup i = some row ∧ row.isActive = true ∧
    db.connectors.lookup row.connectorId = some true

/-- An active operation of an active connector. -/
def Live (db : Database) (i : ℕ) : Prop := ∃ row, db.LiveRow i row

/-- A live operation of that name. -/
def LiveAs (db : Database) (i : ℕ) (name : String) : Prop :=
  ∃ row, db.LiveRow i row ∧ row.name = name

/-- The operations a SELECT reads. -/
def select (db : Database) (p : OperationRow → Bool) : List Operation :=
  (db.operations.entries.filter fun e => p e.2).map fun e => e.2.operation e.1

/-- `list_operations`. -/
def listOperations (db : Database) (connectorId : ℕ) : List Operation :=
  db.select fun row => row.connectorId = connectorId

/-- The ids of the active operations of active connectors. -/
def liveIds (db : Database) : List ℕ :=
  (db.select fun row => row.isActive ∧ db.connectors.lookup row.connectorId = some true).map (·.id)

def activeConnectors (db : Database) : List ℕ :=
  (db.connectors.entries.filter fun e => e.2).map fun e => e.1

theorem mem_select {db : Database} {p : OperationRow → Bool} {op : Operation} :
    op ∈ db.select p ↔
      ∃ row, db.operations.lookup op.id = some row ∧ p row = true ∧ op = row.operation op.id := by
  simp only [select, List.mem_map, List.mem_filter]
  constructor
  · rintro ⟨⟨i, row⟩, ⟨hentry, hp⟩, rfl⟩
    exact ⟨row, AList.mem_lookup_iff.mpr hentry, hp, rfl⟩
  · rintro ⟨row, hrow, hp, hop⟩
    exact ⟨⟨op.id, row⟩, ⟨AList.mem_lookup_iff.mp hrow, hp⟩, hop.symm⟩

theorem exists_select_id {db : Database} {p : OperationRow → Bool} {i : ℕ} :
    (∃ op ∈ db.select p, op.id = i) ↔
      ∃ row, db.operations.lookup i = some row ∧ p row = true := by
  constructor
  · rintro ⟨op, hop, rfl⟩
    obtain ⟨row, hrow, hp, _⟩ := mem_select.mp hop
    exact ⟨row, hrow, hp⟩
  · rintro ⟨row, hrow, hp⟩
    exact ⟨row.operation i, mem_select.mpr ⟨row, hrow, hp, rfl⟩, rfl⟩

/-! The statements that change it. -/

/-- A connector with its `is_active`, new or there already. -/
def putConnector (db : Database) (id : ℕ) (isActive : Bool) : Database where
  connectors := db.connectors.insert id isActive
  operations := db.operations
  linked i row h := (AList.mem_insert _).mpr (.inr (db.linked i row h))

/-- A new operation; the foreign key refuses one of no connector. -/
def addOperation (db : Database) (id : ℕ) (row : OperationRow) : Database where
  connectors := db.connectors
  operations := if row.connectorId ∈ db.connectors then db.operations.insert id row
    else db.operations
  linked i row' h := by
    split at h
    case isTrue hconnector =>
      rw [lookup_insert_ite] at h
      split at h
      · exact Option.some.inj h ▸ hconnector
      · exact db.linked i row' h
    case isFalse => exact db.linked i row' h

def patchOperation (db : Database) (id : ℕ) (payload : OperationUpdate) : Database where
  connectors := db.connectors
  operations := match db.operations.lookup id with
    | none => db.operations
    | some row => db.operations.insert id (row.patch payload)
  linked i row h := by
    split at h
    · exact db.linked i row h
    case h_2 old hold =>
      rw [lookup_insert_ite] at h
      split at h
      · exact Option.some.inj h ▸ db.linked id old hold
      · exact db.linked i row h

def dropOperation (db : Database) (id : ℕ) : Database where
  connectors := db.connectors
  operations := db.operations.erase id
  linked i row h := by
    rw [lookup_erase_ite] at h
    split at h
    · cases h
    · exact db.linked i row h

/-- The operations a DELETE of the connector leaves. -/
def uncascaded (db : Database) (id : ℕ) : Table ℕ OperationRow :=
  ((db.listOperations id).map (·.id)).foldl (fun t i => t.erase i) db.operations

theorem lookup_uncascaded {db : Database} {id i : ℕ} {row : OperationRow} :
    (db.uncascaded id).lookup i = some row ↔
      db.operations.lookup i = some row ∧ row.connectorId ≠ id := by
  have hmem : i ∈ (db.listOperations id).map (·.id) ↔
      ∃ row, db.operations.lookup i = some row ∧ row.connectorId = id := by
    rw [List.mem_map, listOperations, exists_select_id]
    simp only [decide_eq_true_eq]
  rw [uncascaded, lookup_eraseAll]
  constructor
  · intro h
    split at h
    · cases h
    case isFalse hkept => exact ⟨h, fun hc => hkept (hmem.mpr ⟨row, h, hc⟩)⟩
  · rintro ⟨hrow, hne⟩
    rw [if_neg ?_, hrow]
    rw [hmem]
    rintro ⟨row', hrow', hc⟩
    obtain rfl := Option.some.inj (hrow.symm.trans hrow')
    exact hne hc

def dropConnector (db : Database) (id : ℕ) : Database where
  connectors := db.connectors.erase id
  operations := db.uncascaded id
  linked i row h := by
    obtain ⟨hrow, hne⟩ := lookup_uncascaded.mp h
    exact AList.mem_erase.mpr ⟨hne, db.linked i row hrow⟩

/-! What they do to the live operations. -/

theorem live_iff {db : Database} {i : ℕ} : db.Live i ↔ ∃ name, db.LiveAs i name :=
  ⟨fun ⟨row, h⟩ => ⟨row.name, row, h, rfl⟩, fun ⟨_, row, h, _⟩ => ⟨row, h⟩⟩

theorem liveRow_putConnector {db : Database} {id i : ℕ} {isActive : Bool} {row : OperationRow}
    (h : row.connectorId = id → (isActive = true ↔ db.connectors.lookup id = some true)) :
    (db.putConnector id isActive).LiveRow i row ↔ db.LiveRow i row := by
  unfold LiveRow putConnector
  simp only [lookup_insert_ite]
  split
  case isTrue hid => rw [hid, ← h hid, Option.some.injEq]
  case isFalse => rfl

theorem lookup_patchOperation {db : Database} {id : ℕ} {row : OperationRow}
    (h : db.operations.lookup id = some row) (payload : OperationUpdate) (i : ℕ) :
    (db.patchOperation id payload).operations.lookup i =
      if i = id then some (row.patch payload) else db.operations.lookup i := by
  unfold patchOperation
  simp only [h]
  exact lookup_insert_ite _ _ _ _

theorem lookup_addOperation {db : Database} {row : OperationRow}
    (h : row.connectorId ∈ db.connectors) (id i : ℕ) :
    (db.addOperation id row).operations.lookup i =
      if i = id then some row else db.operations.lookup i := by
  unfold addOperation
  simp only [if_pos h]
  exact lookup_insert_ite _ _ _ _

/-- What is said of one operation leaves the others. -/
theorem liveRow_patchOperation_other {db : Database} {id i : ℕ} {row : OperationRow}
    (h : db.operations.lookup id = some row) (payload : OperationUpdate) (hne : i ≠ id)
    (row' : OperationRow) : (db.patchOperation id payload).LiveRow i row' ↔ db.LiveRow i row' := by
  unfold LiveRow
  rw [lookup_patchOperation h, if_neg hne]
  rfl

theorem liveRow_addOperation_other {db : Database} {id i : ℕ} {row : OperationRow}
    (h : row.connectorId ∈ db.connectors) (hne : i ≠ id) (row' : OperationRow) :
    (db.addOperation id row).LiveRow i row' ↔ db.LiveRow i row' := by
  unfold LiveRow
  rw [lookup_addOperation h, if_neg hne]
  rfl

theorem liveRow_dropOperation {db : Database} {id i : ℕ} {row : OperationRow} :
    (db.dropOperation id).LiveRow i row ↔ db.LiveRow i row ∧ i ≠ id := by
  unfold LiveRow dropOperation
  simp only [lookup_erase_ite]
  by_cases hid : i = id <;> simp [hid]

theorem liveRow_dropConnector {db : Database} {id i : ℕ} {row : OperationRow} :
    (db.dropConnector id).LiveRow i row ↔ db.LiveRow i row ∧ row.connectorId ≠ id := by
  unfold LiveRow dropConnector
  simp only [lookup_uncascaded, lookup_erase_ite]
  by_cases hid : row.connectorId = id <;> simp [hid]

end Database

/-! ### The requests -/

/-- A `load_from_db` that waits for its first or second SELECT. -/
structure Loading where
  connectorsRead : Bool
  /-- For proofs only: the operations live when it began, and those of them that could not be
      executed at some time since. -/
  before : List ℕ
  missed : List ℕ
  deriving DecidableEq

structure State where
  db : Database
  registry : ConnectorRegistry
  internalTools : List InternalTool
  server : Server
  loading : Option Loading

inductive Action where
  | createConnector (id : ℕ) (isActive : Bool)
  | updateConnector (id : ℕ) (isActive : Option Bool)
  | oauth2Callback (id : ℕ)
  | deleteConnector (id : ℕ)
  | addOperation (id : ℕ) (row : OperationRow)
  | updateOperation (id : ℕ) (payload : OperationUpdate)
  | deleteOperation (id : ℕ)
  | testOperation (id : ℕ)
  | beginLoad
  | loadConnectors
  | loadOperations
  | refreshFromDb (loaded : List Operation)

def State.executable (s : State) (i : ℕ) : Bool := (s.registry.getOperation i).isSome

/-- The connector's `is_active` is written, and all its operations are registered. -/
def State.resync (s : State) (id : ℕ) (isActive : Bool) : State :=
  { s with
    db := s.db.putConnector id isActive
    registry := s.registry.register id (s.db.listOperations id) }

/-- `_load_operations` of the builder, and the second SELECT of `load_from_db`. -/
def Database.activeOperations (db : Database) : List Operation := db.select (·.isActive)

/-- What a request does; nothing where it is refused. -/
def serve (s : State) : Action → Option State
  | .createConnector id isActive =>
    if id ∈ s.db.connectors then none else some { s with db := s.db.putConnector id isActive }
  | .updateConnector id isActive => (s.db.connectors.lookup id).map fun old =>
      s.resync id (isActive.getD old)
  | .oauth2Callback id => (s.db.connectors.lookup id).map fun old => s.resync id old
  | .deleteConnector id => (s.db.connectors.lookup id).map fun _ =>
      { s with
        db := s.db.dropConnector id
        registry := s.registry.unregisterConnector id
        server := ((s.db.listOperations id).map (·.name)).foldl
          (fun server name => (Mcp.detach server name).1) s.server }
  | .addOperation id row =>
    if row.connectorId ∈ s.db.connectors ∧ id ∉ s.db.operations ∧
        row.name ∉ (s.db.listOperations row.connectorId).map (·.name) then
      some { s with
        db := s.db.addOperation id row
        server := Mcp.attachOperation s.server (row.operation id) }
    else none
  -- a connector in the path that is not the operation's own makes it a 404 afterwards
  | .updateOperation id payload => (s.db.operations.lookup id).map fun row =>
      { s with
        db := s.db.patchOperation id payload
        registry := s.registry.register row.connectorId [(row.patch payload).operation id]
        server := Mcp.attachOperation s.server ((row.patch payload).operation id) }
  | .deleteOperation id => (s.db.operations.lookup id).map fun row =>
      { s with
        db := s.db.dropOperation id
        registry := s.registry.unregisterOperation id
        server := (Mcp.detach s.server row.name).1 }
  -- `ensure_registered` finds what the second map knows, or `get_operation` raises
  | .testOperation id =>
    if id ∈ s.registry.operations then some s
    else (s.db.operations.lookup id).map fun row =>
      { s with registry := s.registry.register row.connectorId [row.operation id] }
  | .beginLoad =>
    if s.loading = none then
      some { s with registry := .empty, loading := some ⟨false, s.db.liveIds, []⟩ }
    else none
  | .loadConnectors => s.loading.bind fun l =>
      if l.connectorsRead then none
      else some { s with
        registry := s.registry.fillConnectors s.db.activeConnectors
        loading := some { l with connectorsRead := true } }
  | .loadOperations => s.loading.bind fun l =>
      if l.connectorsRead then
        some { s with
          registry := s.registry.fillOperations s.db.activeOperations
          loading := none }
      else none
  -- the SELECT has no ORDER BY
  | .refreshFromDb loaded =>
    if loaded.Perm s.db.activeOperations then
      some { s with server := Mcp.refreshFromDb s.internalTools s.server loaded }
    else none

/-- What cannot be executed while a load is in progress. -/
def State.watched (s : State) : State :=
  { s with loading := s.loading.map fun l =>
      { l with missed := l.missed ++ l.before.filter fun i => !s.executable i } }

def step (s : State) (a : Action) : Option State := (serve s a).map State.watched

/-- A host that has come up: the registry is loaded, the server is built. -/
def State.boot (internalTools : List InternalTool) (db : Database) : State where
  db := db
  registry := (ConnectorRegistry.empty.fillConnectors db.activeConnectors).fillOperations
    db.activeOperations
  internalTools := internalTools
  server := Mcp.build internalTools db.activeOperations
  loading := none

/-! ### The claim and its condition -/

/-- The operations that can be executed are the live ones. -/
def State.ExecutesLive (s : State) : Prop := ∀ i, s.executable i = true ↔ s.db.Live i

/-- The connector tools of the server are those of the live operations, under their names. -/
def State.ListsLive (s : State) : Prop :=
  ∀ name i, handlerAt s.server name = some (.operation i) ↔ s.db.LiveAs i name

/-- Outside a load the registry agrees with the database, the server does always, and a load that
    ends never lost an operation that was live before and is after. -/
structure Agreed (s : State) (a : Action) (t : State) : Prop where
  executes : t.loading = none → t.ExecutesLive
  lists : t.ListsLive
  keeps : a = .loadOperations → ∀ l, s.loading = some l →
    ∀ i ∈ l.before, t.db.Live i → i ∉ l.missed

/-- No operation that is not live is registered, and no live one is left out. -/
def RegistersLive (s : State) : Action → Prop
  | .updateConnector id isActive => s.loading = none → ∀ old,
      s.db.connectors.lookup id = some old → ∀ op ∈ s.db.listOperations id,
        (s.db.putConnector id (isActive.getD old)).Live op.id
  | .oauth2Callback id => s.loading = none → ∀ op ∈ s.db.listOperations id, s.db.Live op.id
  | .addOperation id row => s.loading = none → ¬ (s.db.addOperation id row).Live id
  | .updateOperation id payload => s.loading = none → (s.db.patchOperation id payload).Live id
  | .testOperation id => s.loading = none → id ∉ s.registry.operations → s.db.Live id
  | .loadOperations =>
      (∀ i, s.executable i = true → s.db.Live i) ∧
      ∀ i row, s.db.operations.lookup i = some row → row.isActive = true →
        s.executable i = false →
          (row.connectorId ∈ s.registry.connectors ↔
            s.db.connectors.lookup row.connectorId = some true)
  | _ => True

/-- Nothing live has the name, but for the operation itself. -/
def Database.NoNamesake (db : Database) (id : ℕ) (name : String) : Prop :=
  ∀ i, db.LiveAs i name → i = id

/-- No operation that is not live is attached, no live one is detached or replaced. -/
def AttachesLive (s : State) : Action → Prop
  | .updateConnector id isActive => ∀ old, s.db.connectors.lookup id = some old →
      ∀ op ∈ s.db.listOperations id,
        ((s.db.putConnector id (isActive.getD old)).Live op.id ↔ s.db.Live op.id)
  | .deleteConnector id => ∀ op ∈ s.db.listOperations id, ∀ i row, s.db.LiveRow i row →
      row.name = op.name → row.connectorId = id
  | .addOperation id row => (s.db.addOperation id row).Live id ∧ s.db.NoNamesake id row.name
  | .updateOperation id payload => ∀ row, s.db.operations.lookup id = some row →
      (s.db.patchOperation id payload).Live id ∧ s.db.NoNamesake id row.name
  | .deleteOperation id => ∀ row, s.db.operations.lookup id = some row →
      s.db.NoNamesake id row.name
  | .refreshFromDb loaded => ∀ op ∈ loaded,
      (s.db.Live op.id ↔ lastNamed loaded op.name = some op)
  | _ => True

/-- The condition of a step; a load may not end with an operation that was live when it began. -/
structure Harmless (s : State) (a : Action) : Prop where
  registers : RegistersLive s a
  attaches : AttachesLive s a
  keeps : a = .loadOperations → ∀ l, s.loading = some l → ∀ i ∈ l.before, ¬ s.db.Live i

/-! ### What a request can do -/

/-- The requests that are served, each with what allows it and what it leads to. -/
inductive Serves (s : State) : Action → State → Prop
  | created {id : ℕ} {isActive : Bool} (hnew : id ∉ s.db.connectors) :
      Serves s (.createConnector id isActive) { s with db := s.db.putConnector id isActive }
  | updated {id : ℕ} {isActive : Option Bool} {old : Bool}
      (hold : s.db.connectors.lookup id = some old) :
      Serves s (.updateConnector id isActive) (s.resync id (isActive.getD old))
  | authorized {id : ℕ} {old : Bool} (hold : s.db.connectors.lookup id = some old) :
      Serves s (.oauth2Callback id) (s.resync id old)
  | deleted {id : ℕ} (hthere : id ∈ s.db.connectors) : Serves s (.deleteConnector id)
      { s with
        db := s.db.dropConnector id
        registry := s.registry.unregisterConnector id
        server := ((s.db.listOperations id).map (·.name)).foldl
          (fun server name => (Mcp.detach server name).1) s.server }
  | added {id : ℕ} {row : OperationRow} (hconnector : row.connectorId ∈ s.db.connectors)
      (hnew : id ∉ s.db.operations)
      (hname : row.name ∉ (s.db.listOperations row.connectorId).map (·.name)) :
      Serves s (.addOperation id row)
        { s with
          db := s.db.addOperation id row
          server := Mcp.attachOperation s.server (row.operation id) }
  | patched {id : ℕ} {row : OperationRow} (payload : OperationUpdate)
      (hrow : s.db.operations.lookup id = some row) : Serves s (.updateOperation id payload)
        { s with
          db := s.db.patchOperation id payload
          registry := s.registry.register row.connectorId [(row.patch payload).operation id]
          server := Mcp.attachOperation s.server ((row.patch payload).operation id) }
  | dropped {id : ℕ} {row : OperationRow} (hrow : s.db.operations.lookup id = some row) :
      Serves s (.deleteOperation id)
        { s with
          db := s.db.dropOperation id
          registry := s.registry.unregisterOperation id
          server := (Mcp.detach s.server row.name).1 }
  | known {id : ℕ} (hknown : id ∈ s.registry.operations) : Serves s (.testOperation id) s
  | tested {id : ℕ} {row : OperationRow} (hunknown : id ∉ s.registry.operations)
      (hrow : s.db.operations.lookup id = some row) : Serves s (.testOperation id)
        { s with registry := s.registry.register row.connectorId [row.operation id] }
  | begun (hloading : s.loading = none) : Serves s .beginLoad
      { s with registry := .empty, loading := some ⟨false, s.db.liveIds, []⟩ }
  | connectorsLoaded {l : Loading} (hloading : s.loading = some l)
      (hread : l.connectorsRead = false) : Serves s .loadConnectors
        { s with
          registry := s.registry.fillConnectors s.db.activeConnectors
          loading := some { l with connectorsRead := true } }
  | operationsLoaded {l : Loading} (hloading : s.loading = some l)
      (hread : l.connectorsRead = true) : Serves s .loadOperations
        { s with registry := s.registry.fillOperations s.db.activeOperations, loading := none }
  | refreshed {loaded : List Operation} (hperm : loaded.Perm s.db.activeOperations) :
      Serves s (.refreshFromDb loaded)
        { s with server := Mcp.refreshFromDb s.internalTools s.server loaded }

theorem serves_of_serve {s u : State} {a : Action} (h : serve s a = some u) : Serves s a u := by
  cases a with
  | createConnector id isActive =>
    simp only [serve, Option.ite_none_left_eq_some] at h
    obtain ⟨hnew, h⟩ := h
    obtain rfl := Option.some.inj h
    exact .created hnew
  | updateConnector id isActive =>
    obtain ⟨old, hold, rfl⟩ := Option.map_eq_some_iff.mp h
    exact .updated hold
  | oauth2Callback id =>
    obtain ⟨old, hold, rfl⟩ := Option.map_eq_some_iff.mp h
    exact .authorized hold
  | deleteConnector id =>
    obtain ⟨_, hold, rfl⟩ := Option.map_eq_some_iff.mp h
    exact .deleted (AList.lookup_isSome.mp (Option.isSome_of_mem hold))
  | addOperation id row =>
    simp only [serve, Option.ite_none_right_eq_some] at h
    obtain ⟨⟨hconnector, hnew, hname⟩, h⟩ := h
    obtain rfl := Option.some.inj h
    exact .added hconnector hnew hname
  | updateOperation id payload =>
    obtain ⟨row, hrow, rfl⟩ := Option.map_eq_some_iff.mp h
    exact .patched payload hrow
  | deleteOperation id =>
    obtain ⟨row, hrow, rfl⟩ := Option.map_eq_some_iff.mp h
    exact .dropped hrow
  | testOperation id =>
    simp only [serve] at h
    split at h
    case isTrue hknown =>
      obtain rfl := Option.some.inj h
      exact .known hknown
    case isFalse hunknown =>
      obtain ⟨row, hrow, rfl⟩ := Option.map_eq_some_iff.mp h
      exact .tested hunknown hrow
  | beginLoad =>
    simp only [serve, Option.ite_none_right_eq_some] at h
    obtain ⟨hloading, h⟩ := h
    obtain rfl := Option.some.inj h
    exact .begun hloading
  | loadConnectors =>
    obtain ⟨l, hloading, h⟩ := Option.bind_eq_some_iff.mp h
    simp only [Option.ite_none_left_eq_some] at h
    obtain ⟨hread, h⟩ := h
    obtain rfl := Option.some.inj h
    exact .connectorsLoaded hloading (Bool.eq_false_iff.mpr hread)
  | loadOperations =>
    obtain ⟨l, hloading, h⟩ := Option.bind_eq_some_iff.mp h
    simp only [Option.ite_none_right_eq_some] at h
    obtain ⟨hread, h⟩ := h
    obtain rfl := Option.some.inj h
    exact .operationsLoaded hloading hread
  | refreshFromDb loaded =>
    simp only [serve, Option.ite_none_right_eq_some] at h
    obtain ⟨hperm, h⟩ := h
    obtain rfl := Option.some.inj h
    exact .refreshed hperm

/-! ### One change of the registry, one change of the server -/

section Changes

variable {E E' L L' N : ℕ → Prop}

/-- Where some operations are registered, the others being as they were. -/
theorem registered_iff (hsync : ∀ i, E i ↔ L i) (hE : ∀ i, E' i ↔ E i ∨ N i)
    (hL : ∀ i, ¬ N i → (L' i ↔ L i)) : (∀ i, E' i ↔ L' i) ↔ ∀ i, N i → L' i := by
  constructor
  · exact fun h i hi => (h i).mp ((hE i).mpr (.inr hi))
  · intro h i
    by_cases hi : N i
    · exact iff_of_true ((hE i).mpr (.inr hi)) (h i hi)
    · rw [hE, hL i hi, hsync]
      exact or_iff_left hi

/-- Where some operations are gone from both. -/
theorem unregistered (hsync : ∀ i, E i ↔ L i) (hE : ∀ i, E' i ↔ E i ∧ ¬ N i)
    (hL : ∀ i, L' i ↔ L i ∧ ¬ N i) (i : ℕ) : E' i ↔ L' i := by
  rw [hE, hL, hsync]

variable {H H' : String → Option Handler} {A A' : ℕ → String → Prop}

/-- Where a tool is put under a name. -/
theorem attached_iff {id : ℕ} {tool : String}
    (hsync : ∀ name i, H name = some (.operation i) ↔ A i name)
    (hH : ∀ name, H' name = if name = tool then some (.operation id) else H name)
    (hother : ∀ i name, i ≠ id → (A' i name ↔ A i name))
    (hown : ∀ name, A id name ∨ A' id name → name = tool) :
    (∀ name i, H' name = some (.operation i) ↔ A' i name) ↔
      A' id tool ∧ ∀ i, A i tool → i = id := by
  constructor
  · intro h
    have htool : H' tool = some (.operation id) := (hH tool).trans (if_pos rfl)
    refine ⟨(h tool id).mp htool, fun i hi => ?_⟩
    by_contra hne
    have hthere := (h tool i).mpr ((hother i tool hne).mpr hi)
    rw [htool] at hthere
    exact hne (Handler.operation.inj (Option.some.inj hthere)).symm
  · rintro ⟨hlive, halone⟩ name i
    rw [hH]
    split
    case isTrue hname =>
      subst hname
      constructor
      · intro hid
        obtain rfl := Handler.operation.inj (Option.some.inj hid)
        exact hlive
      · intro hi
        by_contra hne
        have hid : i ≠ id := fun hid => hne (by rw [hid])
        exact hid (halone i ((hother i name hid).mp hi))
    case isFalse hname =>
      by_cases hid : i = id
      · subst hid
        refine iff_of_false (fun h => hname ?_) (fun h => hname (hown name (.inr h)))
        exact hown name (.inl ((hsync name i).mp h))
      · rw [hother i name hid, hsync]

/-- Where the tools of some names are removed, and some operations are gone. -/
theorem detached_iff {names : List String} {D : ℕ → String → Prop}
    (hsync : ∀ name i, H name = some (.operation i) ↔ A i name)
    (hH : ∀ name, H' name = if name ∈ names then none else H name)
    (hA : ∀ i name, A' i name ↔ A i name ∧ ¬ D i name)
    (hD : ∀ i name, A i name → D i name → name ∈ names) :
    (∀ name i, H' name = some (.operation i) ↔ A' i name) ↔
      ∀ i name, A i name → name ∈ names → D i name := by
  constructor
  · intro h i name hi hname
    by_contra hkept
    have hthere := (h name i).mpr ((hA i name).mpr ⟨hi, hkept⟩)
    rw [hH, if_pos hname] at hthere
    cases hthere
  · intro h name i
    rw [hH, hA]
    split
    case isTrue hname =>
      refine iff_of_false (fun hnone => by cases hnone) ?_
      exact fun ⟨hi, hkept⟩ => hkept (h i name hi hname)
    case isFalse hname =>
      rw [hsync]
      exact ⟨fun hi => ⟨hi, fun hgone => hname (hD i name hi hgone)⟩, And.left⟩

end Changes

/-! ### The registry -/

/-- The connector of an operation. -/
def Database.owner (db : Database) (i : ℕ) : Option ℕ :=
  (db.operations.lookup i).map (·.connectorId)

theorem owner_of_lookup {db : Database} {i : ℕ} {row : OperationRow}
    (h : db.operations.lookup i = some row) : db.owner i = some row.connectorId := by
  rw [Database.owner, h, Option.map_some]

theorem owner_of_mem_select {db : Database} {p : OperationRow → Bool} {op : Operation}
    (h : op ∈ db.select p) : db.owner op.id = some op.connectorId := by
  obtain ⟨row, hrow, _, hop⟩ := Database.mem_select.mp h
  rw [owner_of_lookup hrow, hop]
  rfl

theorem owner_of_mem_listOperations {db : Database} {id : ℕ} {op : Operation}
    (h : op ∈ db.listOperations id) : db.owner op.id = some id := by
  obtain ⟨row, hrow, hid, _⟩ := Database.mem_select.mp h
  rw [owner_of_lookup hrow, of_decide_eq_true hid]

theorem owner_dropConnector {db : Database} {id i c : ℕ} (h : db.owner i = some c)
    (hne : c ≠ id) : (db.dropConnector id).owner i = db.owner i := by
  obtain ⟨row, hrow, rfl⟩ := Option.map_eq_some_iff.mp h
  rw [owner_of_lookup hrow]
  exact owner_of_lookup (Database.lookup_uncascaded.mpr ⟨hrow, hne⟩)

theorem owner_addOperation {db : Database} {id i c : ℕ} {row : OperationRow}
    (hconnector : row.connectorId ∈ db.connectors) (hnew : id ∉ db.operations)
    (h : db.owner i = some c) : (db.addOperation id row).owner i = db.owner i := by
  obtain ⟨old, hold, _⟩ := Option.map_eq_some_iff.mp h
  have hne : i ≠ id := by
    rintro rfl
    exact hnew (AList.lookup_isSome.mp (Option.isSome_of_mem hold))
  rw [Database.owner, Database.lookup_addOperation hconnector, if_neg hne]
  rfl

theorem owner_patchOperation {db : Database} {id : ℕ} {row : OperationRow}
    (h : db.operations.lookup id = some row) (payload : OperationUpdate) :
    (db.patchOperation id payload).owner = db.owner := by
  funext i
  rw [Database.owner, Database.lookup_patchOperation h]
  split
  case isTrue hid => rw [hid, owner_of_lookup h]; rfl
  case isFalse => rfl

theorem owner_dropOperation {db : Database} {id i : ℕ} (hne : i ≠ id) :
    (db.dropOperation id).owner i = db.owner i := by
  show ((db.operations.erase id).lookup i).map _ = _
  rw [lookup_erase_ite, if_neg hne]
  rfl

/-- A request keeps the maps sound, whatever it registers. -/
theorem sound_serve {s u : State} {a : Action} (hs : s.registry.Sound s.db.owner)
    (h : serve s a = some u) : u.registry.Sound u.db.owner := by
  cases serves_of_serve h with
  | created hnew => exact hs
  | updated hold => exact hs.register fun op hop => owner_of_mem_listOperations hop
  | authorized hold => exact hs.register fun op hop => owner_of_mem_listOperations hop
  | @deleted id hthere =>
    refine (hs.unregisterConnector id).of_owner fun c i hhas => ?_
    obtain ⟨hold, hne⟩ := (ConnectorRegistry.has_unregisterConnector id).mp hhas
    exact owner_dropConnector (hs c i hold).1 hne
  | added hconnector hnew hname =>
    exact hs.of_owner fun c i hhas => owner_addOperation hconnector hnew (hs c i hhas).1
  | @patched id row payload hrow =>
    rw [owner_patchOperation hrow]
    refine hs.register fun op hop => ?_
    obtain rfl := List.mem_singleton.mp hop
    exact owner_of_lookup hrow
  | @dropped id row hrow =>
    refine (hs.unregisterOperation id).of_owner fun c i hhas => ?_
    exact owner_dropOperation ((ConnectorRegistry.has_unregisterOperation hs id).mp hhas).2
  | known hknown => exact hs
  | tested hunknown hrow =>
    refine hs.register fun op hop => ?_
    obtain rfl := List.mem_singleton.mp hop
    exact owner_of_lookup hrow
  | begun hloading => exact ConnectorRegistry.sound_empty
  | connectorsLoaded hloading hread => exact hs.fillConnectors _
  | operationsLoaded hloading hread => exact hs.fillOperations fun op hop => owner_of_mem_select hop
  | refreshed hperm => exact hs

/-- What holds as long as no step did harm. -/
structure Inv (s : State) : Prop where
  sound : s.registry.Sound s.db.owner
  executes : s.loading = none → s.ExecutesLive
  lists : s.ListsLive
  missed : ∀ l, s.loading = some l → ∀ i ∈ l.before, i ∈ l.missed

/-- Another `is_active` of a connector touches its own operations only. -/
theorem live_putConnector_other {db : Database} {id i : ℕ} {isActive : Bool}
    (h : ¬ ∃ op ∈ db.listOperations id, op.id = i) :
    (db.putConnector id isActive).Live i ↔ db.Live i := by
  refine exists_congr fun row => ?_
  by_cases hrow : db.operations.lookup i = some row
  · refine Database.liveRow_putConnector fun hid => absurd ?_ h
    exact Database.exists_select_id.mpr ⟨row, hrow, decide_eq_true hid⟩
  · exact iff_of_false (fun hlive => hrow hlive.1) (fun hlive => hrow hlive.1)

/-- The flag a connector has already changes nothing. -/
theorem liveRow_putConnector_same {db : Database} {id : ℕ} {old : Bool}
    (h : db.connectors.lookup id = some old) (i : ℕ) (row : OperationRow) :
    (db.putConnector id old).LiveRow i row ↔ db.LiveRow i row :=
  Database.liveRow_putConnector fun _ => by rw [h, Option.some.injEq]

/-- Nothing refers to a connector that is not there. -/
theorem liveRow_putConnector_new {db : Database} {id : ℕ} {isActive : Bool}
    (h : id ∉ db.connectors) (i : ℕ) (row : OperationRow) :
    (db.putConnector id isActive).LiveRow i row ↔ db.LiveRow i row := by
  by_cases hrow : db.operations.lookup i = some row
  · refine Database.liveRow_putConnector fun hid => absurd (db.linked i row hrow) ?_
    rw [hid]
    exact h
  · exact iff_of_false (fun hlive => hrow hlive.1) (fun hlive => hrow hlive.1)

theorem live_of_lookup {db : Database} {i : ℕ} {row : OperationRow}
    (h : db.operations.lookup i = some row) :
    db.Live i ↔ row.isActive = true ∧ db.connectors.lookup row.connectorId = some true := by
  constructor
  · rintro ⟨row', hrow, hlive⟩
    obtain rfl := Option.some.inj (h.symm.trans hrow)
    exact hlive
  · exact fun hlive => ⟨row, h, hlive⟩

theorem not_live_of_notMem {db : Database} {i : ℕ} (h : i ∉ db.operations) : ¬ db.Live i := by
  rintro ⟨row, hrow, _⟩
  exact h (AList.lookup_isSome.mp (Option.isSome_of_mem hrow))

theorem liveAs_dropOperation {db : Database} {id i : ℕ} {name : String} :
    (db.dropOperation id).LiveAs i name ↔ db.LiveAs i name ∧ ¬ i = id := by
  unfold Database.LiveAs
  simp only [Database.liveRow_dropOperation]
  constructor
  · rintro ⟨row, ⟨hlive, hne⟩, hname⟩
    exact ⟨⟨row, hlive, hname⟩, hne⟩
  · rintro ⟨⟨row, hlive, hname⟩, hne⟩
    exact ⟨row, ⟨hlive, hne⟩, hname⟩

theorem liveAs_dropConnector {db : Database} {id i : ℕ} {name : String} :
    (db.dropConnector id).LiveAs i name ↔ db.LiveAs i name ∧ ¬ db.owner i = some id := by
  unfold Database.LiveAs
  simp only [Database.liveRow_dropConnector]
  constructor
  · rintro ⟨row, ⟨hlive, hne⟩, hname⟩
    refine ⟨⟨row, hlive, hname⟩, fun hown => hne ?_⟩
    exact Option.some.inj ((owner_of_lookup hlive.1).symm.trans hown)
  · rintro ⟨⟨row, hlive, hname⟩, hne⟩
    exact ⟨row, ⟨hlive, fun hid => hne (hid ▸ owner_of_lookup hlive.1)⟩, hname⟩

theorem live_dropConnector {db : Database} {id i : ℕ} :
    (db.dropConnector id).Live i ↔ db.Live i ∧ ¬ db.owner i = some id := by
  rw [Database.live_iff, Database.live_iff, ← exists_and_right]
  exact exists_congr fun name => liveAs_dropConnector

theorem live_dropOperation {db : Database} {id i : ℕ} :
    (db.dropOperation id).Live i ↔ db.Live i ∧ ¬ i = id := by
  rw [Database.live_iff, Database.live_iff, ← exists_and_right]
  exact exists_congr fun name => liveAs_dropOperation

/-- Registering all operations of a connector. -/
theorem resync_iff {s : State} {id : ℕ} {isActive : Bool} (hs : Inv s)
    (hloading : s.loading = none) :
    (s.resync id isActive).ExecutesLive ↔
      ∀ op ∈ s.db.listOperations id, (s.db.putConnector id isActive).Live op.id := by
  have hsound : (s.resync id isActive).registry.Sound s.db.owner :=
    hs.sound.register fun op hop => owner_of_mem_listOperations hop
  have hother : ∀ i, ¬ (∃ op ∈ s.db.listOperations id, op.id = i) →
      ((s.db.putConnector id isActive).Live i ↔ s.db.Live i) :=
    fun i hi => live_putConnector_other hi
  have hregistered := registered_iff (hs.executes hloading)
    (fun i => ConnectorRegistry.getOperation_register (i := i) hs.sound hsound) hother
  refine hregistered.trans ⟨fun h op hop => h op.id ⟨op, hop, rfl⟩, ?_⟩
  rintro h i ⟨op, hop, rfl⟩
  exact h op hop

/-- Registering one operation, as it is then. -/
theorem register_one_iff {s u : State} {id cid : ℕ} {op : Operation} (hs : Inv s)
    (hloading : s.loading = none) (hid : op.id = id) (hsound : u.registry.Sound u.db.owner)
    (hregistry : u.registry = s.registry.register cid [op])
    (hother : ∀ i, i ≠ id → (u.db.Live i ↔ s.db.Live i)) : u.ExecutesLive ↔ u.db.Live id := by
  have hexec : ∀ i, u.executable i = true ↔ s.executable i = true ∨ i = id := by
    intro i
    unfold State.executable
    rw [hregistry] at hsound ⊢
    rw [ConnectorRegistry.getOperation_register hs.sound hsound]
    refine or_congr_right ⟨?_, fun hi => ⟨op, List.mem_singleton_self op, hid.trans hi.symm⟩⟩
    rintro ⟨op', hop, rfl⟩
    rw [List.mem_singleton.mp hop, hid]
  exact (registered_iff (hs.executes hloading) hexec hother).trans forall_eq

/-- What is found when the operations are loaded. -/
theorem executable_loaded {s u : State} (hs : s.registry.Sound s.db.owner)
    (hu : u.registry.Sound u.db.owner)
    (hregistry : u.registry = s.registry.fillOperations s.db.activeOperations) (i : ℕ) :
    u.executable i = true ↔ s.executable i = true ∨ ∃ row, s.db.operations.lookup i = some row ∧
      row.isActive = true ∧ row.connectorId ∈ s.registry.connectors := by
  unfold State.executable
  rw [hregistry] at hu ⊢
  rw [ConnectorRegistry.getOperation_fillOperations hs hu]
  refine or_congr_right ⟨?_, ?_⟩
  · rintro ⟨op, hop, rfl, hc⟩
    obtain ⟨row, hrow, hactive, hopeq⟩ := Database.mem_select.mp hop
    rw [hopeq] at hc
    exact ⟨row, hrow, hactive, hc⟩
  · rintro ⟨row, hrow, hactive, hc⟩
    exact ⟨row.operation i, Database.mem_select.mpr ⟨row, hrow, hactive, rfl⟩, rfl, hc⟩

theorem loaded_iff {s u : State} (hs : s.registry.Sound s.db.owner)
    (hu : u.registry.Sound u.db.owner)
    (hregistry : u.registry = s.registry.fillOperations s.db.activeOperations)
    (hdb : u.db = s.db) : u.ExecutesLive ↔ RegistersLive s .loadOperations := by
  have hexec := executable_loaded hs hu hregistry
  unfold State.ExecutesLive RegistersLive
  rw [hdb]
  constructor
  · intro h
    refine ⟨fun i hi => (h i).mp ((hexec i).mpr (.inl hi)), fun i row hrow hactive hnot => ?_⟩
    constructor
    · intro hc
      have hlive := (h i).mp ((hexec i).mpr (.inr ⟨row, hrow, hactive, hc⟩))
      exact ((live_of_lookup hrow).mp hlive).2
    · intro hconnector
      have hfound := (h i).mpr ((live_of_lookup hrow).mpr ⟨hactive, hconnector⟩)
      rcases (hexec i).mp hfound with hold | ⟨row', hrow', _, hc⟩
      · rw [hnot] at hold
        cases hold
      · obtain rfl := Option.some.inj (hrow.symm.trans hrow')
        exact hc
  · rintro ⟨hlive, hrows⟩ i
    rw [hexec]
    by_cases hi : s.executable i = true
    · exact iff_of_true (.inl hi) (hlive i hi)
    · have hnot := Bool.eq_false_iff.mpr hi
      constructor
      · rintro (hfound | ⟨row, hrow, hactive, hc⟩)
        · exact absurd hfound hi
        · exact ⟨row, hrow, hactive, (hrows i row hrow hactive hnot).mp hc⟩
      · rintro ⟨row, hrow, hactive, hconnector⟩
        exact .inr ⟨row, hrow, hactive, (hrows i row hrow hactive hnot).mpr hconnector⟩

/-- A new operation is not registered. -/
theorem added_iff {s u : State} {id : ℕ} {row : OperationRow} (hsync : s.ExecutesLive)
    (hconnector : row.connectorId ∈ s.db.connectors) (hnew : id ∉ s.db.operations)
    (hregistry : u.registry = s.registry) (hdb : u.db = s.db.addOperation id row) :
    u.ExecutesLive ↔ ¬ (s.db.addOperation id row).Live id := by
  have hexec : ∀ i, u.executable i = s.executable i := fun i => by
    rw [State.executable, hregistry, State.executable]
  have hnone : ¬ s.executable id = true := fun hfound =>
    not_live_of_notMem hnew ((hsync id).mp hfound)
  unfold State.ExecutesLive
  simp only [hexec, hdb]
  constructor
  · exact fun hall hlive => hnone ((hall id).mpr hlive)
  · intro hdead i
    by_cases hid : i = id
    · subst hid
      exact iff_of_false hnone hdead
    · refine (hsync i).trans (exists_congr fun row' => ?_)
      exact (Database.liveRow_addOperation_other hconnector hid row').symm

theorem registers_iff {s u : State} {a : Action} (hs : Inv s) (h : serve s a = some u) :
    (u.loading = none → u.ExecutesLive) ↔ RegistersLive s a := by
  have hsound := sound_serve hs.sound h
  cases serves_of_serve h with
  | created hnew =>
    refine iff_of_true (fun hloading i => ?_) trivial
    exact (hs.executes hloading i).trans
      (exists_congr fun row => (liveRow_putConnector_new hnew i row).symm)
  | updated hold =>
    refine forall_congr' fun hloading => (resync_iff hs hloading).trans ?_
    constructor
    · intro hlive old' hold'
      obtain rfl := Option.some.inj (hold.symm.trans hold')
      exact hlive
    · exact fun hlive => hlive _ hold
  | authorized hold =>
    refine forall_congr' fun hloading => (resync_iff hs hloading).trans ?_
    refine forall₂_congr fun op _ => exists_congr fun row => ?_
    exact liveRow_putConnector_same hold op.id row
  | deleted hthere =>
    refine iff_of_true (fun hloading => ?_) trivial
    exact unregistered (hs.executes hloading)
      (fun i => ConnectorRegistry.getOperation_unregisterConnector hs.sound)
      fun i => live_dropConnector
  | added hconnector hnew hname =>
    exact forall_congr' fun hloading =>
      added_iff (hs.executes hloading) hconnector hnew rfl rfl
  | patched payload hrow =>
    refine forall_congr' fun hloading => ?_
    refine register_one_iff hs hloading rfl hsound rfl fun i hne => exists_congr fun row' => ?_
    exact Database.liveRow_patchOperation_other hrow payload hne row'
  | dropped hrow =>
    refine iff_of_true (fun hloading => ?_) trivial
    exact unregistered (hs.executes hloading)
      (fun i => ConnectorRegistry.getOperation_unregisterOperation hs.sound)
      fun i => live_dropOperation
  | known hknown => exact iff_of_true hs.executes fun _ hunknown => absurd hknown hunknown
  | tested hunknown hrow =>
    refine forall_congr' fun hloading => ?_
    rw [register_one_iff hs hloading rfl hsound rfl fun i _ => Iff.rfl]
    exact ⟨fun hlive _ => hlive, fun hlive => hlive hunknown⟩
  | begun hloading => exact iff_of_true (fun hended => by cases hended) trivial
  | connectorsLoaded hloading hread =>
    exact iff_of_true (fun hended => by cases hended) trivial
  | operationsLoaded hloading hread =>
    refine Iff.trans ?_ (loaded_iff hs.sound hsound rfl rfl)
    exact ⟨fun hall => hall rfl, fun hall _ => hall⟩
  | refreshed hperm => exact iff_of_true hs.executes trivial

/-! ### The server -/

theorem liveAs_of_lookup {db : Database} {i : ℕ} {row : OperationRow}
    (h : db.operations.lookup i = some row) (name : String) :
    db.LiveAs i name ↔ db.Live i ∧ row.name = name := by
  constructor
  · rintro ⟨row', hlive, rfl⟩
    obtain rfl := Option.some.inj (h.symm.trans hlive.1)
    exact ⟨⟨row, hlive⟩, rfl⟩
  · rintro ⟨⟨row', hlive⟩, rfl⟩
    obtain rfl := Option.some.inj (h.symm.trans hlive.1)
    exact ⟨row, hlive, rfl⟩

/-- A connector's `is_active` takes nothing from the names. -/
theorem liveAs_putConnector {db : Database} {id i : ℕ} {isActive : Bool}
    (hlive : (db.putConnector id isActive).Live i ↔ db.Live i) (name : String) :
    (db.putConnector id isActive).LiveAs i name ↔ db.LiveAs i name := by
  cases hrow : db.operations.lookup i with
  | none =>
    have hnone : ∀ row, ¬ db.operations.lookup i = some row := fun row h => by
      rw [hrow] at h
      cases h
    exact iff_of_false (fun ⟨row, h, _⟩ => hnone row h.1) fun ⟨row, h, _⟩ => hnone row h.1
  | some row =>
    have hsame : (db.putConnector id isActive).operations.lookup i = some row := hrow
    rw [liveAs_of_lookup hrow, liveAs_of_lookup hsame, hlive]

/-- A server that does not change goes on listing what stays live. -/
theorem lists_still {s u : State} (hs : s.ListsLive) (hserver : u.server = s.server)
    (hlive : ∀ i row, u.db.LiveRow i row ↔ s.db.LiveRow i row) : u.ListsLive := by
  intro name i
  rw [hserver, hs name i]
  exact exists_congr fun row => and_congr_left fun _ => (hlive i row).symm

/-- The operations read are known by their ids. -/
theorem eq_of_mem_select {db : Database} {p : OperationRow → Bool} {op op' : Operation}
    (h : op ∈ db.select p) (h' : op' ∈ db.select p) (hid : op.id = op'.id) : op = op' := by
  obtain ⟨row, hlookup, _, hop⟩ := Database.mem_select.mp h
  obtain ⟨row', hlookup', _, hop'⟩ := Database.mem_select.mp h'
  rw [hid] at hlookup hop
  obtain rfl := Option.some.inj (hlookup.symm.trans hlookup')
  exact hop.trans hop'.symm

theorem live_iff_liveAs_of_mem_select {db : Database} {p : OperationRow → Bool} {op : Operation}
    (h : op ∈ db.select p) : db.Live op.id ↔ db.LiveAs op.id op.name := by
  obtain ⟨row, hlookup, _, hop⟩ := Database.mem_select.mp h
  have hname : op.name = row.name := by rw [hop]; rfl
  rw [liveAs_of_lookup hlookup, hname]
  exact (and_iff_left rfl).symm

/-- Tools of the active operations: of each name that is shown the last one's, and no other. -/
theorem listed_iff {db : Database} {loaded : List Operation} {H : String → Option Handler}
    {V : String → Prop} (hloaded : ∀ op, op ∈ loaded ↔ op ∈ db.activeOperations)
    (hshown : ∀ name last, lastNamed loaded name = some last → V name →
      H name = some (.operation last.id))
    (hnone : ∀ name i, lastNamed loaded name = none ∨ ¬ V name →
      H name ≠ some (.operation i)) :
    (∀ name i, H name = some (.operation i) ↔ db.LiveAs i name) ↔
      ∀ op ∈ loaded, (db.Live op.id ↔ V op.name ∧ lastNamed loaded op.name = some op) := by
  have hlisted : ∀ op ∈ loaded, (db.Live op.id ↔ db.LiveAs op.id op.name) :=
    fun op hop => live_iff_liveAs_of_mem_select ((hloaded op).mp hop)
  constructor
  · intro h op hop
    rw [hlisted op hop, ← h]
    constructor
    · intro hruns
      obtain ⟨last, hlast⟩ := Mcp.lastNamed_isSome hop
      by_cases hV : V op.name
      · rw [hshown _ _ hlast hV] at hruns
        have hid := Handler.operation.inj (Option.some.inj hruns)
        have hmem := (hloaded last).mp (Mcp.lastNamed_mem hlast).1
        rw [eq_of_mem_select hmem ((hloaded op).mp hop) hid] at hlast
        exact ⟨hV, hlast⟩
      · exact absurd hruns (hnone _ _ (.inr hV))
    · exact fun ⟨hV, hlast⟩ => hshown _ _ hlast hV
  · intro h name i
    constructor
    · intro hruns
      cases hlast : lastNamed loaded name with
      | none => exact absurd hruns (hnone _ _ (.inl hlast))
      | some last =>
        by_cases hV : V name
        · obtain ⟨hmem, rfl⟩ := Mcp.lastNamed_mem hlast
          rw [hshown _ _ hlast hV] at hruns
          obtain rfl := Handler.operation.inj (Option.some.inj hruns)
          exact (hlisted last hmem).mp ((h last hmem).mpr ⟨hV, hlast⟩)
        · exact absurd hruns (hnone _ _ (.inr hV))
    · rintro ⟨row, hlive, rfl⟩
      have hmem : row.operation i ∈ loaded :=
        (hloaded _).mpr (Database.mem_select.mpr ⟨row, hlive.1, hlive.2.1, rfl⟩)
      obtain ⟨hV, hlast⟩ := (h _ hmem).mp ⟨row, hlive⟩
      exact hshown _ _ hlast hV

/-- The names a connector's DELETE detaches. -/
theorem mem_names_listOperations {db : Database} {id i : ℕ} {name : String}
    (hlive : db.LiveAs i name) (hown : db.owner i = some id) :
    name ∈ (db.listOperations id).map (·.name) := by
  obtain ⟨row, hrow, rfl⟩ := hlive
  have hid := Option.some.inj ((owner_of_lookup hrow.1).symm.trans hown)
  refine List.mem_map.mpr ⟨row.operation i, Database.mem_select.mpr ⟨row, hrow.1, ?_, rfl⟩, rfl⟩
  exact decide_eq_true hid

/-- The flag of a connector is written, its tools stay. -/
theorem lists_putConnector_iff {s u : State} {id : ℕ} {isActive : Bool} (hs : s.ListsLive)
    (hserver : u.server = s.server) (hdb : u.db = s.db.putConnector id isActive) :
    u.ListsLive ↔ ∀ op ∈ s.db.listOperations id,
      ((s.db.putConnector id isActive).Live op.id ↔ s.db.Live op.id) := by
  unfold State.ListsLive
  rw [hserver, hdb]
  constructor
  · intro hlists op _
    rw [Database.live_iff, Database.live_iff]
    exact exists_congr fun name => (hlists name op.id).symm.trans (hs name op.id)
  · intro hflags name i
    have hlive : (s.db.putConnector id isActive).Live i ↔ s.db.Live i := by
      by_cases hi : ∃ op ∈ s.db.listOperations id, op.id = i
      · obtain ⟨op, hop, rfl⟩ := hi
        exact hflags op hop
      · exact live_putConnector_other hi
    exact (hs name i).trans (liveAs_putConnector hlive name).symm

theorem lists_dropConnector_iff {s u : State} {id : ℕ} (hs : s.ListsLive)
    (hserver : u.server = ((s.db.listOperations id).map (·.name)).foldl
      (fun server name => (Mcp.detach server name).1) s.server)
    (hdb : u.db = s.db.dropConnector id) :
    u.ListsLive ↔ ∀ op ∈ s.db.listOperations id, ∀ i row, s.db.LiveRow i row →
      row.name = op.name → row.connectorId = id := by
  have hdetached := detached_iff (D := fun i _ => s.db.owner i = some id) hs
    (handlerAt_detachAll _ s.server) (fun i name => liveAs_dropConnector)
    fun i name hlive hown => mem_names_listOperations hlive hown
  unfold State.ListsLive
  rw [hserver, hdb]
  refine hdetached.trans ⟨?_, ?_⟩
  · intro hkept op hop i row hlive hname
    have hown := hkept i row.name ⟨row, hlive, rfl⟩ (List.mem_map.mpr ⟨op, hop, hname.symm⟩)
    exact Option.some.inj ((owner_of_lookup hlive.1).symm.trans hown)
  · rintro hkept i name ⟨row, hlive, rfl⟩ hmem
    obtain ⟨op, hop, hname⟩ := List.mem_map.mp hmem
    rw [← hkept op hop i row hlive hname.symm]
    exact owner_of_lookup hlive.1

theorem lists_addOperation_iff {s u : State} {id : ℕ} {row : OperationRow} (hs : s.ListsLive)
    (hconnector : row.connectorId ∈ s.db.connectors) (hnew : id ∉ s.db.operations)
    (hserver : u.server = Mcp.attachOperation s.server (row.operation id))
    (hdb : u.db = s.db.addOperation id row) :
    u.ListsLive ↔ (s.db.addOperation id row).Live id ∧ s.db.NoNamesake id row.name := by
  have hrow := Database.lookup_addOperation hconnector id id
  rw [if_pos rfl] at hrow
  have hown : ∀ name, s.db.LiveAs id name ∨ (s.db.addOperation id row).LiveAs id name →
      name = row.name := by
    rintro name (hold | hlive)
    · exact absurd (Database.live_iff.mpr ⟨name, hold⟩) (not_live_of_notMem hnew)
    · exact ((liveAs_of_lookup hrow name).mp hlive).2.symm
  have hattached := attached_iff hs (handlerAt_attachOperation s.server (row.operation id))
    (fun i name hne => exists_congr fun row' => and_congr_left fun _ =>
      Database.liveRow_addOperation_other hconnector hne row') hown
  unfold State.ListsLive
  rw [hserver, hdb]
  exact hattached.trans (and_congr_left fun _ =>
    (liveAs_of_lookup hrow row.name).trans (and_iff_left rfl))

theorem lists_patchOperation_iff {s u : State} {id : ℕ} {row : OperationRow}
    {payload : OperationUpdate} (hs : s.ListsLive) (hold : s.db.operations.lookup id = some row)
    (hserver : u.server = Mcp.attachOperation s.server ((row.patch payload).operation id))
    (hdb : u.db = s.db.patchOperation id payload) :
    u.ListsLive ↔ (s.db.patchOperation id payload).Live id ∧ s.db.NoNamesake id row.name := by
  have hrow := Database.lookup_patchOperation hold payload id
  rw [if_pos rfl] at hrow
  have hown : ∀ name, s.db.LiveAs id name ∨ (s.db.patchOperation id payload).LiveAs id name →
      name = row.name := by
    rintro name (hlive | hlive)
    · exact ((liveAs_of_lookup hold name).mp hlive).2.symm
    · exact ((liveAs_of_lookup hrow name).mp hlive).2.symm
  have hattached := attached_iff hs
    (handlerAt_attachOperation s.server ((row.patch payload).operation id))
    (fun i name hne => exists_congr fun row' => and_congr_left fun _ =>
      Database.liveRow_patchOperation_other hold payload hne row') hown
  unfold State.ListsLive
  rw [hserver, hdb]
  exact hattached.trans (and_congr_left fun _ =>
    (liveAs_of_lookup hrow row.name).trans (and_iff_left rfl))

theorem lists_dropOperation_iff {s u : State} {id : ℕ} {row : OperationRow} (hs : s.ListsLive)
    (hold : s.db.operations.lookup id = some row)
    (hserver : u.server = (Mcp.detach s.server row.name).1)
    (hdb : u.db = s.db.dropOperation id) : u.ListsLive ↔ s.db.NoNamesake id row.name := by
  have hruns : ∀ name, handlerAt (Mcp.detach s.server row.name).1 name =
      if name ∈ [row.name] then none else handlerAt s.server name := fun name => by
    simp only [List.mem_singleton]
    exact handlerAt_detach s.server row.name name
  have hgone : ∀ i name, s.db.LiveAs i name → i = id → name ∈ [row.name] := by
    rintro i name hlive rfl
    exact List.mem_singleton.mpr ((liveAs_of_lookup hold name).mp hlive).2.symm
  have hdetached := detached_iff (D := fun i _ => i = id) hs hruns
    (fun i name => liveAs_dropOperation) hgone
  simp only [List.mem_singleton] at hdetached
  unfold State.ListsLive
  rw [hserver, hdb]
  refine hdetached.trans ⟨fun hkept i hlive => hkept i row.name hlive rfl, ?_⟩
  rintro hkept i name hlive rfl
  exact hkept i hlive

theorem lists_refresh_iff {s u : State} {loaded : List Operation} (hs : s.ListsLive)
    (hperm : loaded.Perm s.db.activeOperations)
    (hserver : u.server = Mcp.refreshFromDb s.internalTools s.server loaded) (hdb : u.db = s.db) :
    u.ListsLive ↔
      ∀ op ∈ loaded, (s.db.Live op.id ↔ lastNamed loaded op.name = some op) := by
  have hruns := handlerAt_refreshFromDb s.internalTools s.server loaded
  -- a name that was not read is not put back, and no live operation had it
  have hnone : ∀ name i, lastNamed loaded name = none ∨ ¬ True →
      handlerAt (Mcp.refreshFromDb s.internalTools s.server loaded) name ≠
        some (.operation i) := by
    intro name i hnone
    have hnone := hnone.resolve_right (not_not.mpr trivial)
    rw [hruns, hnone, Option.map_none, Option.none_or]
    split
    · intro hthere
      obtain ⟨row, hlive, rfl⟩ := (hs name i).mp hthere
      have hmem : row.operation i ∈ loaded := hperm.mem_iff.mpr
        (Database.mem_select.mpr ⟨row, hlive.1, hlive.2.1, rfl⟩)
      obtain ⟨last, hlast⟩ := Mcp.lastNamed_isSome hmem
      cases hnone.symm.trans hlast
    · exact fun hthere => by cases hthere
  have hlisted := listed_iff (V := fun _ => True) (fun op => hperm.mem_iff)
    (fun name last hlast _ => by rw [hruns, hlast]; rfl) hnone
  unfold State.ListsLive
  rw [hserver, hdb]
  refine hlisted.trans (forall₂_congr fun op _ => ?_)
  rw [true_and]

theorem attaches_iff {s u : State} {a : Action} (hs : Inv s) (h : serve s a = some u) :
    u.ListsLive ↔ AttachesLive s a := by
  cases serves_of_serve h with
  | created hnew =>
    exact iff_of_true (lists_still hs.lists rfl (liveRow_putConnector_new hnew)) trivial
  | @updated id isActive old hold =>
    have hlists := lists_putConnector_iff (u := s.resync id (isActive.getD old)) hs.lists rfl rfl
    refine hlists.trans ⟨?_, fun hflags => hflags _ hold⟩
    intro hflags old' hold'
    obtain rfl := Option.some.inj (hold.symm.trans hold')
    exact hflags
  | authorized hold =>
    exact iff_of_true (lists_still hs.lists rfl (liveRow_putConnector_same hold)) trivial
  | deleted hthere => exact lists_dropConnector_iff hs.lists rfl rfl
  | added hconnector hnew hname => exact lists_addOperation_iff hs.lists hconnector hnew rfl rfl
  | patched payload hrow =>
    refine (lists_patchOperation_iff hs.lists hrow rfl rfl).trans ⟨?_, fun h => h _ hrow⟩
    intro hharmless row' hrow'
    obtain rfl := Option.some.inj (hrow.symm.trans hrow')
    exact hharmless
  | dropped hrow =>
    refine (lists_dropOperation_iff hs.lists hrow rfl rfl).trans ⟨?_, fun h => h _ hrow⟩
    intro hkept row' hrow'
    obtain rfl := Option.some.inj (hrow.symm.trans hrow')
    exact hkept
  | known hknown
  | tested hunknown hrow
  | begun hloading
  | connectorsLoaded hloading hread
  | operationsLoaded hloading hread =>
    exact iff_of_true (lists_still hs.lists rfl fun i row => Iff.rfl) trivial
  | refreshed hperm => exact lists_refresh_iff hs.lists hperm rfl rfl

/-! ### Runs -/

/-- A load that ends keeps what was live when none of that is. -/
theorem keeps_iff {s u : State} {a : Action} (hs : Inv s) (h : serve s a = some u) :
    (a = .loadOperations → ∀ l, s.loading = some l → ∀ i ∈ l.before, u.db.Live i →
      i ∉ l.missed) ↔
      (a = .loadOperations → ∀ l, s.loading = some l → ∀ i ∈ l.before, ¬ s.db.Live i) := by
  refine forall_congr' fun ha => forall₂_congr fun l hl => forall₂_congr fun i hi => ?_
  subst ha
  cases serves_of_serve h
  exact forall_congr' fun _ => iff_of_false (not_not.mpr (hs.missed l hl i hi)) id

/-- A load goes on with what it began with. -/
theorem loading_serve {s u : State} {a : Action} {l : Loading} (ha : a ≠ .beginLoad)
    (h : serve s a = some u) (hl : u.loading = some l) :
    ∃ old, s.loading = some old ∧ l.before = old.before ∧ l.missed = old.missed := by
  cases serves_of_serve h with
  | created hnew
  | updated hold
  | authorized hold
  | deleted hthere
  | added hconnector hnew hname
  | patched payload hrow
  | dropped hrow
  | known hknown
  | tested hunknown hrow
  | refreshed hperm => exact ⟨l, hl, rfl, rfl⟩
  | begun hloading => exact absurd rfl ha
  | @connectorsLoaded old hloading hread =>
    obtain rfl := Option.some.inj hl
    exact ⟨old, hloading, rfl, rfl⟩
  | operationsLoaded hloading hread => cases hl

/-- Whoever was live when the registry was cleared has been missed. -/
theorem missed_serve {s u : State} {a : Action} (hs : Inv s) (h : serve s a = some u) :
    ∀ l, u.watched.loading = some l → ∀ i ∈ l.before, i ∈ l.missed := by
  intro l hl i hi
  obtain ⟨l', hl', rfl⟩ := Option.map_eq_some_iff.mp hl
  rw [List.mem_append, List.mem_filter]
  by_cases hcleared : a = .beginLoad
  · subst hcleared
    cases serves_of_serve h
    exact .inr ⟨hi, rfl⟩
  · obtain ⟨old, hold, hbefore, hmissed⟩ := loading_serve hcleared h hl'
    rw [hmissed]
    exact .inl (hs.missed old hold i (hbefore ▸ hi))

theorem agreed_iff {s t : State} {a : Action} (hs : Inv s) (h : step s a = some t) :
    Agreed s a t ↔ Harmless s a := by
  obtain ⟨u, hu, rfl⟩ := Option.map_eq_some_iff.mp h
  have hloading : u.watched.loading = none ↔ u.loading = none := Option.map_eq_none_iff
  have hregisters : (u.watched.loading = none → u.watched.ExecutesLive) ↔ RegistersLive s a := by
    rw [hloading]
    exact registers_iff hs hu
  have hattaches : u.ListsLive ↔ AttachesLive s a := attaches_iff hs hu
  constructor
  · rintro ⟨hexecutes, hlists, hkeeps⟩
    exact ⟨hregisters.mp hexecutes, hattaches.mp hlists, (keeps_iff hs hu).mp hkeeps⟩
  · rintro ⟨hregistered, hattached, hkept⟩
    exact ⟨hregisters.mpr hregistered, hattaches.mpr hattached, (keeps_iff hs hu).mpr hkept⟩

theorem inv_step {s t : State} {a : Action} (hs : Inv s) (hok : Harmless s a)
    (h : step s a = some t) : Inv t := by
  have hagreed := (agreed_iff hs h).mpr hok
  obtain ⟨u, hu, rfl⟩ := Option.map_eq_some_iff.mp h
  have hsound : u.registry.Sound u.db.owner := sound_serve hs.sound hu
  exact ⟨hsound, hagreed.executes, hagreed.lists, missed_serve hs hu⟩

/-- A host comes up in agreement when of each name the last operation read is live and the others
    are not, and no internal tool has it. -/
def BuildsLive (internalTools : List InternalTool) (db : Database) : Prop :=
  ∀ op ∈ db.activeOperations, (db.Live op.id ↔
    op.name ∉ internalTools.map InternalTool.name ∧ lastNamed db.activeOperations op.name = some op)

theorem lists_boot_iff (internalTools : List InternalTool) (db : Database) :
    (State.boot internalTools db).ListsLive ↔ BuildsLive internalTools db := by
  have hruns : ∀ name, handlerAt (State.boot internalTools db).server name =
      if name ∈ internalTools.map InternalTool.name then some .internal
      else (lastNamed db.activeOperations name).map fun op => .operation op.id := by
    intro name
    show handlerAt (Mcp.build internalTools db.activeOperations) name = _
    rw [Mcp.build, Mcp.handlerAt_attachInternals, Mcp.handlerAt_attachAll]
    split
    · rfl
    · exact Option.or_none
  refine listed_iff (V := fun name => name ∉ internalTools.map InternalTool.name)
    (fun op => Iff.rfl) (fun name last hlast hV => ?_) fun name i hnone => ?_
  · rw [hruns, if_neg hV, hlast]
    rfl
  · rw [hruns]
    split
    case isTrue => exact fun h => by cases h
    case isFalse hV =>
      rw [hnone.resolve_right (not_not.mpr hV)]
      exact fun h => by cases h

theorem mem_activeConnectors {db : Database} {id : ℕ} :
    id ∈ db.activeConnectors ↔ db.connectors.lookup id = some true := by
  simp only [Database.activeConnectors, List.mem_map, List.mem_filter]
  constructor
  · rintro ⟨⟨c, isActive⟩, ⟨hentry, hactive⟩, rfl⟩
    obtain rfl : isActive = true := hactive
    exact AList.mem_lookup_iff.mpr hentry
  · intro h
    exact ⟨⟨id, true⟩, ⟨AList.mem_lookup_iff.mp h, rfl⟩, rfl⟩

/-- A loaded registry, with nothing registered meanwhile, finds the live operations. -/
theorem executes_boot (internalTools : List InternalTool) (db : Database) :
    (State.boot internalTools db).registry.Sound db.owner ∧
      (State.boot internalTools db).ExecutesLive := by
  let cleared : State := { State.boot internalTools db with
    registry := ConnectorRegistry.empty.fillConnectors db.activeConnectors }
  have hcleared : cleared.registry.Sound cleared.db.owner :=
    ConnectorRegistry.sound_empty.fillConnectors _
  have hsound : (State.boot internalTools db).registry.Sound db.owner :=
    hcleared.fillOperations fun op hop => owner_of_mem_select hop
  refine ⟨hsound, (loaded_iff hcleared hsound rfl rfl).mpr ⟨fun i hi => ?_, fun i row _ _ _ => ?_⟩⟩
  · obtain ⟨c, hhas⟩ := (ConnectorRegistry.getOperation_isSome_iff hcleared).mp hi
    have hempty := ((ConnectorRegistry.has_fillConnectors _).mp hhas).1
    exact absurd hempty ConnectorRegistry.not_has_empty
  · have hfilled : (cleared.registry.connectors.lookup row.connectorId).isSome = true ↔
        row.connectorId ∈ db.activeConnectors := by
      show (AList.lookup _ (List.foldl _ _ _)).isSome = true ↔ _
      rw [ConnectorRegistry.lookup_fillConnectors]
      split
      case isTrue h => exact iff_of_true rfl h
      case isFalse h => exact iff_of_false (fun hnone => by cases hnone) h
    rw [← AList.lookup_isSome, hfilled]
    exact mem_activeConnectors

/-- EXACT CONDITION: a host comes up in agreement and stays so just when what it reads at first is
    live, no request registers or attaches an operation that is not or leaves out one that is, and
    no load ends with an operation that was live when it began. -/
theorem agreed_run_iff (internalTools : List InternalTool) (db : Database) (run : List Action) :
    ((State.boot internalTools db).ExecutesLive ∧ (State.boot internalTools db).ListsLive) ∧
        EveryStep step Agreed (State.boot internalTools db) run ↔
      BuildsLive internalTools db ∧ Guarded step Harmless (State.boot internalTools db) run := by
  obtain ⟨hsound, hexecutes⟩ := executes_boot internalTools db
  rw [and_iff_right hexecutes, lists_boot_iff]
  refine and_congr_right fun hbuilds => ?_
  have hinv : Inv (State.boot internalTools db) :=
    ⟨hsound, fun _ => hexecutes, (lists_boot_iff _ _).mpr hbuilds, fun l hl => by cases hl⟩
  exact everyStep_iff_guarded (P := Agreed) (fun _ _ _ hs hok h => inv_step hs hok h)
    (fun _ _ _ hs h => agreed_iff hs h) hinv

/-- One connector with one operation, both active. -/
def searching : Database :=
  (Database.empty.putConnector 1 true).addOperation 10 ⟨1, "search", "", [], true⟩

/-- A deactivated connector goes on executing. -/
theorem deactivated_executes :
    ¬ ∀ (internalTools : List InternalTool) (db : Database) (run : List Action),
      ((State.boot internalTools db).ExecutesLive ∧ (State.boot internalTools db).ListsLive) ∧
        EveryStep step Agreed (State.boot internalTools db) run := by
  intro h
  have hstep := EveryStep.at (h [] searching [.updateConnector 1 (some false)]).2
    (rfl : runFrom step _ [] = some _) (rfl : step _ (.updateConnector 1 (some false)) = some _)
  obtain ⟨row, hrow, _, hactive⟩ := (hstep.executes rfl 10).mp rfl
  obtain rfl : (⟨1, "search", "", [], true⟩ : OperationRow) = row := Option.some.inj hrow
  cases hactive

end LunaCore.Connectors.Router
