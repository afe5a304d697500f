import LunaCore.Schemes.Keyed
import LunaCore.Values.Json

/-! MCPServerBuilder: the operations of the connectors and the host's own tools on one MCP server.

    An operation is a row; its name is unique within its connector only. The server's tools are a
    table by name in which a tool that is added replaces the one of its name. What a tool does is
    its handler: `ConnectorRegistry.execute` with the operation's id, or the host's own code. -/

namespace LunaCore.Mcp
open LunaCore.Values LunaCore.Schemes

/-- An `Operation`, less what only its HTTP request needs. Whether it is active is said where the
    active ones are loaded. -/
structure Operation where
  id : ℕ
  connectorId : ℕ
  name : String
  description : String
  inputSchema : Dict
  deriving DecidableEq

/-- The operations of all connectors: no two of one id, and no two of one name in a connector. -/
structure Catalogue where
  rows : List Operation
  ids : ∀ x ∈ rows, ∀ y ∈ rows, x.id = y.id → x = y
  names : ∀ x ∈ rows, ∀ y ∈ rows, x.connectorId = y.connectorId → x.name = y.name → x = y

abbrev Catalogue.Row (c : Catalogue) := {op : Operation // op ∈ c.rows}

/-- An `InternalTool`, less its handler. -/
structure InternalTool where
  name : String
  description : String
  inputSchema : Dict
  deriving DecidableEq

inductive Handler where
  | operation (id : ℕ)
  | internal
  deriving DecidableEq

structure Tool where
  handler : Handler
  description : String
  parameters : Dict
  deriving DecidableEq

/-- `input_schema or` the schema of an object without properties. -/
def schemaOr (inputSchema : Dict) : Dict :=
  if inputSchema = [] then [("type", .str "object"), ("properties", .obj [])] else inputSchema

def operationTool (operation : Operation) : Tool :=
  ⟨.operation operation.id, operation.description, schemaOr operation.inputSchema⟩

def internalTool (tool : InternalTool) : Tool :=
  ⟨.internal, tool.description, schemaOr tool.inputSchema⟩

/-- A server's tools, by name. -/
abbrev Server := Table String Tool

/-- `register_tool`: a tool of the name is dropped first. -/
def registerTool (tools : List InternalTool) (tool : InternalTool) : List InternalTool :=
  tools.filter (fun t => t.name ≠ tool.name) ++ [tool]

def attachOperation (server : Server) (operation : Operation) : Server :=
  server.insert operation.name (operationTool operation)

def attachInternal (server : Server) (tool : InternalTool) : Server :=
  server.insert tool.name (internalTool tool)

/-- `detach`, with whether a tool was removed. -/
def detach (server : Server) (name : String) : Server × Bool :=
  (server.erase name, (server.lookup name).isSome)

/-- `build`, with the operations it loads. -/
def build (internalTools : List InternalTool) (operations : List Operation) : Server :=
  internalTools.foldl attachInternal (operations.foldl attachOperation ∅)

/-- The names `refresh_from_db` detaches: neither wanted nor internal. -/
def staleNames (internalTools : List InternalTool) (server : Server) (operations : List Operation) :
    List String :=
  server.keys.filter fun name => decide (name ∉ operations.map Operation.name) &&
    decide (name ∉ internalTools.map InternalTool.name)

/-- `refresh_from_db`, with the operations it loads. -/
def refreshFromDb (internalTools : List InternalTool) (server : Server)
    (operations : List Operation) : Server :=
  operations.foldl attachOperation
    ((staleNames internalTools server operations).foldl (fun s name => (detach s name).1) server)

/-! ### Operations in the server's table -/

theorem operationTool_injective (c : Catalogue) :
    Function.Injective fun op : c.Row => operationTool op.1 := by
  intro x y h
  have hid : x.1.id = y.1.id := Handler.operation.inj (Tool.mk.inj h).1
  exact Subtype.ext (c.ids x.1 x.2 y.1 y.2 hid)

/-- An operation's tool stands under the operation's name. -/
def Catalogue.keyed (c : Catalogue) : Keyed c.Row String Tool where
  key op := op.1.name
  entry op := operationTool op.1
  entry_injective := operationTool_injective c

/-- Within a connector a name tells operations apart: nothing else has an operation's name when
    nothing of another connector has. -/
theorem alone_iff {c : Catalogue} (S : Set c.Row) (op : c.Row) :
    c.keyed.Alone S op ↔
      ∀ other ∈ S, other.1.name = op.1.name → other.1.connectorId = op.1.connectorId := by
  refine forall₂_congr fun other _ => ?_
  constructor
  · rintro halone hname
    rw [halone hname]
  · intro hconnector hname
    exact Subtype.ext (c.names other.1 other.2 op.1 op.2 (hconnector hname) hname)

theorem injOn_iff {c : Catalogue} (loaded : List c.Row) :
    Set.InjOn c.keyed.key {op | op ∈ loaded} ↔ ∀ op ∈ loaded, ∀ other ∈ loaded,
      other.1.name = op.1.name → other.1.connectorId = op.1.connectorId := by
  constructor
  · intro hinj op hop
    exact (alone_iff {op | op ∈ loaded} op).mp fun other hother hname => hinj hother hop hname
  · intro hconnectors op hop other hother hname
    exact (alone_iff {op | op ∈ loaded} other).mpr (hconnectors other hother) op hop hname

theorem internalTool_ne {c : Catalogue} (tool : InternalTool) (op : c.Row) :
    c.keyed.entry op ≠ internalTool tool := by
  intro h
  cases (Tool.mk.inj h).1

theorem foldl_attachOperation {c : Catalogue} (ops : List c.Row) (server : Server) :
    (ops.map Subtype.val).foldl attachOperation server = ops.foldl c.keyed.put server := by
  induction ops generalizing server with
  | nil => rfl
  | cons op ops ih => exact ih (attachOperation server op.1)

/-- What a refresh leaves: the loaded operations, and of the others those whose name only an
    internal tool wants. -/
theorem holds_refreshFromDb_iff {c : Catalogue} (internalTools : List InternalTool)
    (server : Server) {loaded : List c.Row} (hnames : Set.InjOn c.keyed.key {op | op ∈ loaded})
    (op : c.Row) :
    c.keyed.Holds (refreshFromDb internalTools server (loaded.map Subtype.val)) op ↔
      op ∈ loaded ∨ (op.1.name ∉ loaded.map c.keyed.key ∧
        op.1.name ∈ internalTools.map InternalTool.name ∧ c.keyed.Holds server op) := by
  have hwanted : (loaded.map Subtype.val).map Operation.name = loaded.map c.keyed.key := by
    rw [List.map_map]
    rfl
  rw [refreshFromDb, foldl_attachOperation, Keyed.holds_putAll_iff loaded _ hnames]
  refine or_congr_right (and_congr_right fun hnot => ?_)
  have hdetach := Keyed.holds_eraseAll_iff (K := c.keyed) (b := op)
    (staleNames internalTools server (loaded.map Subtype.val)) server
  rw [show (fun s name => (detach s name).1) = fun (s : Server) name => s.erase name from rfl,
    hdetach]
  constructor
  · rintro ⟨hkept, hholds⟩
    refine ⟨?_, hholds⟩
    by_contra hinternal
    refine hkept (List.mem_filter.mpr ⟨?_, ?_⟩)
    · exact AList.mem_keys.mp (AList.lookup_isSome.mp (Option.isSome_of_mem hholds))
    · rw [hwanted]
      exact Bool.and_eq_true_iff.mpr ⟨decide_eq_true hnot, decide_eq_true hinternal⟩
  · rintro ⟨hinternal, hholds⟩
    refine ⟨fun hstale => ?_, hholds⟩
    have hneither := (List.mem_filter.mp hstale).2
    simp only [Bool.and_eq_true, decide_eq_true_eq] at hneither
    exact hneither.2 hinternal

/-- After a refresh every loaded operation has its tool just when their names differ. -/
theorem refreshFromDb_holds_iff {c : Catalogue} (internalTools : List InternalTool)
    (server : Server) (loaded : List c.Row) :
    (∀ op ∈ loaded, c.keyed.Holds (refreshFromDb internalTools server (loaded.map Subtype.val)) op) ↔
      Set.InjOn c.keyed.key {op | op ∈ loaded} := by
  rw [refreshFromDb, foldl_attachOperation]
  exact Keyed.putAll_holds_iff loaded _

/-! ### What a name runs -/

/-- The handler of the tool of that name. -/
def handlerAt (server : Server) (name : String) : Option Handler :=
  (server.lookup name).map Tool.handler

/-- The last of the operations that has the name. -/
def lastNamed (operations : List Operation) (name : String) : Option Operation :=
  operations.reverse.find? (·.name = name)

theorem handlerAt_attachOperation (server : Server) (op : Operation) (name : String) :
    handlerAt (attachOperation server op) name =
      if name = op.name then some (.operation op.id) else handlerAt server name := by
  unfold handlerAt attachOperation
  rw [lookup_insert_ite]
  split <;> rfl

theorem handlerAt_detach (server : Server) (tool name : String) :
    handlerAt (detach server tool).1 name = if name = tool then none else handlerAt server name := by
  unfold handlerAt detach
  simp only [lookup_erase_ite]
  split <;> rfl

theorem handlerAt_detachAll (names : List String) (server : Server) (name : String) :
    handlerAt (names.foldl (fun s name => (detach s name).1) server) name =
      if name ∈ names then none else handlerAt server name := by
  unfold handlerAt detach
  simp only [lookup_eraseAll]
  split <;> rfl

theorem lastNamed_concat (operations : List Operation) (op : Operation) (name : String) :
    lastNamed (operations ++ [op]) name =
      if name = op.name then some op else lastNamed operations name := by
  rw [lastNamed, List.reverse_append, List.reverse_singleton, List.singleton_append,
    List.find?_cons]
  by_cases hname : op.name = name
  · simp [hname]
  · simp [hname, Ne.symm hname, lastNamed]

/-- Of operations attached one after the other, the last one has the name. -/
theorem handlerAt_attachAll (operations : List Operation) (server : Server) (name : String) :
    handlerAt (operations.foldl attachOperation server) name =
      ((lastNamed operations name).map fun op => .operation op.id).or (handlerAt server name) := by
  induction operations using List.reverseRecOn with
  | nil => rfl
  | append_singleton operations op ih =>
    rw [List.foldl_append, List.foldl_cons, List.foldl_nil, handlerAt_attachOperation, ih,
      lastNamed_concat]
    split <;> rfl

theorem lastNamed_mem {operations : List Operation} {name : String} {op : Operation}
    (h : lastNamed operations name = some op) : op ∈ operations ∧ op.name = name := by
  have hname := List.find?_some h
  exact ⟨List.mem_reverse.mp (List.mem_of_find?_eq_some h), of_decide_eq_true hname⟩

theorem lastNamed_isSome {operations : List Operation} {op : Operation} (h : op ∈ operations) :
    ∃ last, lastNamed operations op.name = some last := by
  refine Option.isSome_iff_exists.mp (List.find?_isSome.mpr ⟨op, List.mem_reverse.mpr h, ?_⟩)
  exact decide_eq_true rfl

theorem handlerAt_attachInternals (tools : List InternalTool) (server : Server) (name : String) :
    handlerAt (tools.foldl attachInternal server) name =
      if name ∈ tools.map InternalTool.name then some .internal else handlerAt server name := by
  induction tools generalizing server with
  | nil => rfl
  | cons tool tools ih =>
    rw [List.foldl_cons, ih, List.map_cons]
    unfold handlerAt attachInternal
    rw [lookup_insert_ite]
    by_cases hname : name = tool.name <;>
      by_cases hnames : name ∈ tools.map InternalTool.name <;> simp [hname, hnames, internalTool]

/-- After a refresh a name runs the last loaded operation that has it, or what it ran if only an
    internal tool wants it. -/
theorem handlerAt_refreshFromDb (internalTools : List InternalTool) (server : Server)
    (operations : List Operation) (name : String) :
    handlerAt (refreshFromDb internalTools server operations) name =
      ((lastNamed operations name).map fun op => .operation op.id).or
        (if name ∈ internalTools.map InternalTool.name then handlerAt server name else none) := by
  rw [refreshFromDb, handlerAt_attachAll, handlerAt_detachAll]
  cases hlast : lastNamed operations name with
  | some op => rfl
  | none =>
    have hunwanted : name ∉ operations.map Operation.name := by
      intro hmem
      obtain ⟨op, hop, rfl⟩ := List.mem_map.mp hmem
      obtain ⟨last, hsome⟩ := lastNamed_isSome hop
      rw [hlast] at hsome
      cases hsome
    have hstale : name ∈ staleNames internalTools server operations ↔
        name ∈ server.keys ∧ name ∉ internalTools.map InternalTool.name := by
      simp [staleNames, List.mem_filter, -List.mem_map, hunwanted]
    rw [Option.map_none, Option.none_or, Option.none_or]
    by_cases hinternal : name ∈ internalTools.map InternalTool.name
    · rw [if_neg fun h => (hstale.mp h).2 hinternal, if_pos hinternal]
    · rw [if_neg hinternal]
      split
      · rfl
      case isFalse hkept =>
        have hnone : server.lookup name = none := by
          rw [AList.lookup_eq_none, AList.mem_keys]
          exact fun hmem => hkept (hstale.mpr ⟨hmem, hinternal⟩)
        rw [handlerAt, hnone, Option.map_none]

end LunaCore.Mcp
