import LunaCore.Schemes.Machine
import LunaCore.Engine.Tools

/-! Does saving an agent's tools keep the approval gates on them?

        granted    lookup (gated)   search                 requested   lookup, search
             wipe ↓                                        insert ↓
        granted    lookup           search                 every row with its column defaults

    The flags of a grant stand in its row. Operations and system tools have a table each, with one
    row for an agent and a tool; both are replaced in the same way, but only the names of system
    tools are rid of their repeats first. -/

namespace LunaCore.Services
open LunaCore.Schemes LunaCore.Engine

variable {κ φ : Type}

/-- A row of a grant table, less its id. -/
structure Grant (κ φ : Type) where
  agent : ℕ
  tool : κ
  flags : φ
  deriving DecidableEq

/-- What the unique constraint is on. -/
def Grant.pair (row : Grant κ φ) : ℕ × κ := (row.agent, row.tool)

/-- A grant table under its unique constraint. -/
structure Grants (κ φ : Type) where
  rows : List (Grant κ φ)
  unique : (rows.map Grant.pair).Nodup

/-- The tools of an agent, each with its flags. -/
def Grants.ofAgent (grants : Grants κ φ) (agent : ℕ) : List (κ × φ) :=
  (grants.rows.filter fun row => row.agent = agent).map fun row => (row.tool, row.flags)

/-- Wipe and reinsert: each new row has the column defaults. `none` where the constraint refuses. -/
def Grants.replace [DecidableEq κ] (grants : Grants κ φ) (agent : ℕ) (tools : List κ)
    (defaults : φ) : Option (Grants κ φ) :=
  let rows := (grants.rows.filter fun row => row.agent ≠ agent) ++
    tools.map fun tool => ⟨agent, tool, defaults⟩
  if h : (rows.map Grant.pair).Nodup then some ⟨rows, h⟩ else none

/-- The flags of one row, set by somebody else. -/
def Grants.setFlags [DecidableEq κ] (grants : Grants κ φ) (agent : ℕ) (tool : κ) (flags : φ) :
    Grants κ φ where
  rows := grants.rows.map fun row =>
    if row.agent = agent ∧ row.tool = tool then { row with flags := flags } else row
  unique := by
    have hpair : (Grant.pair ∘ fun row : Grant κ φ =>
        if row.agent = agent ∧ row.tool = tool then { row with flags := flags } else row) =
        Grant.pair := by
      funext row
      rw [Function.comp_apply]
      split <;> rfl
    rw [List.map_map, hpair]
    exact grants.unique

/-- The flags of a system tool's grant. -/
structure ToolFlags where
  requiresApproval : Bool
  deferred : Bool
  deriving DecidableEq

structure Database where
  -- the names of the agents and of the operations, by their ids
  agents : List (ℕ × String)
  operations : List (String × String)
  agentOperations : Grants String Bool
  systemToolGrants : Grants String ToolFlags

inductive AssignError where
  | agentNotFound
  | valueError (text : String)
  | integrityError (constraint : String)

section
variable (repr : List String → String) (box : Toolbox)

/-- `get_agent`. -/
def Database.hasAgent (db : Database) (agent : ℕ) : Bool := (db.agents.lookup agent).isSome

/-- `assign_operations`. -/
def assignOperations (db : Database) (agent : ℕ) (operationIds : List String) :
    Except AssignError Database :=
  if db.hasAgent agent then
    let missing := (operationIds.filter fun id => (db.operations.lookup id).isNone).eraseDups
    if missing ≠ [] then
      .error (.valueError ("operations not found: " ++ repr (missing.mergeSort (· ≤ ·))))
    else match db.agentOperations.replace agent operationIds false with
      | some grants => .ok { db with agentOperations := grants }
      | none => .error (.integrityError "uq_agent_operations_pair")
  else .error .agentNotFound

/-- The loop that keeps the first of each name. -/
def deduped (seen : List String) : List String → List String
  | [] => []
  | name :: names =>
    if name ∈ seen then deduped seen names else name :: deduped (name :: seen) names

/-- `assign_system_tools`. -/
def assignSystemTools (db : Database) (agent : ℕ) (toolNames : List String) :
    Except AssignError Database :=
  if db.hasAgent agent then
    let known := box.listCatalog.map SystemTool.name
    let missing := toolNames.filter fun name => name ∉ known
    if missing ≠ [] then
      .error (.valueError ("system tools not in catalog: " ++
        repr (missing.eraseDups.mergeSort (· ≤ ·))))
    else match db.systemToolGrants.replace agent (deduped [] toolNames) ⟨false, false⟩ with
      | some grants => .ok { db with systemToolGrants := grants }
      | none => .error (.integrityError "uq_agent_system_tool_grants_pair")
  else .error .agentNotFound

end

/-- The agent as the runner joins it from its rows. -/
def Database.agent (db : Database) (agent : ℕ) : Agent where
  name := (db.agents.lookup agent).getD ""
  operations := (db.agentOperations.ofAgent agent).filterMap fun row =>
    (db.operations.lookup row.1).map fun name => ⟨name, row.2⟩
  grants := (db.systemToolGrants.ofAgent agent).map fun row =>
    ⟨row.1, row.2.deferred, row.2.requiresApproval⟩

inductive AssignAction where
  | assignOperations (agent : ℕ) (operationIds : List String)
  | assignSystemTools (agent : ℕ) (toolNames : List String)
  -- the host gates an operation, or gates or defers a tool
  | flagOperation (agent : ℕ) (operation : String) (requiresApproval : Bool)
  | flagTool (agent : ℕ) (name : String) (flags : ToolFlags)

/-- A request that fails is rolled back. -/
def Database.after (db : Database) (saved : Except AssignError Database) : Database :=
  match saved with
  | .ok db' => db'
  | .error _ => db

def assignStep (repr : List String → String) (box : Toolbox) (db : Database) :
    AssignAction → Option Database
  | .assignOperations agent ids => some (db.after (assignOperations repr db agent ids))
  | .assignSystemTools agent names => some (db.after (assignSystemTools repr box db agent names))
  | .flagOperation agent operation flag =>
    some { db with agentOperations := db.agentOperations.setFlags agent operation flag }
  | .flagTool agent name flags =>
    some { db with systemToolGrants := db.systemToolGrants.setFlags agent name flags }

/-- The agent and all that is requested for it exist. -/
def Admitted (box : Toolbox) (db : Database) : AssignAction → Prop
  | .assignOperations agent ids =>
    db.hasAgent agent = true ∧ ∀ id ∈ ids, (db.operations.lookup id).isSome
  | .assignSystemTools agent names =>
    db.hasAgent agent = true ∧ ∀ name ∈ names, name ∈ box.listCatalog.map SystemTool.name
  | _ => False

/-- Exactly the requested tools, each once, and those that were granted with the flags they had. -/
structure Saved (before after : List (κ × φ)) (requested : List κ) : Prop where
  exact : ∀ tool, tool ∈ after.map Prod.fst ↔ tool ∈ requested
  once : (after.map Prod.fst).Nodup
  kept : ∀ row ∈ before, row.1 ∈ requested → row ∈ after

/-- What is requested is what is granted. -/
def Resaved (before : List (κ × φ)) (requested : List κ) : Prop :=
  ∀ tool, tool ∈ requested ↔ tool ∈ before.map Prod.fst

/-- The same tools with the same flags, and the same names behind an approval gate. -/
def Unchanged (db db' : Database) (agent : ℕ) : Prop :=
  (db'.agentOperations.ofAgent agent).Perm (db.agentOperations.ofAgent agent) ∧
    (db'.systemToolGrants.ofAgent agent).Perm (db.systemToolGrants.ofAgent agent) ∧
      ∀ name, name ∈ (db'.agent agent).approvalRequiredNames ↔
        name ∈ (db.agent agent).approvalRequiredNames

/-- An admitted request succeeds, repeats or not, and saves what it asks for; saving what is granted
    changes nothing. -/
def KeepsFlags (repr : List String → String) (box : Toolbox) (db : Database) (a : AssignAction)
    (db' : Database) : Prop :=
  Admitted box db a → match a with
  | .assignOperations agent ids =>
    assignOperations repr db agent ids = .ok db' ∧
      Saved (db.agentOperations.ofAgent agent) (db'.agentOperations.ofAgent agent) ids ∧
      (Resaved (db.agentOperations.ofAgent agent) ids → Unchanged db db' agent)
  | .assignSystemTools agent names =>
    assignSystemTools repr box db agent names = .ok db' ∧
      Saved (db.systemToolGrants.ofAgent agent) (db'.systemToolGrants.ofAgent agent) names ∧
      (Resaved (db.systemToolGrants.ofAgent agent) names → Unchanged db db' agent)
  | _ => True

/-- No operation is requested twice, and nothing that is requested again has a flag set. -/
def Flagless (box : Toolbox) (db : Database) (a : AssignAction) : Prop :=
  Admitted box db a → match a with
  | .assignOperations agent ids =>
    ids.Nodup ∧ ∀ row ∈ db.agentOperations.ofAgent agent, row.1 ∈ ids → row.2 = false
  | .assignSystemTools agent names =>
    ∀ row ∈ db.systemToolGrants.ofAgent agent, row.1 ∈ names → row.2 = ⟨false, false⟩
  | _ => True

/-! ### The tables -/

theorem ofAgent_nodup (grants : Grants κ φ) (agent : ℕ) :
    ((grants.ofAgent agent).map Prod.fst).Nodup := by
  have hsub : ((grants.rows.filter fun row => row.agent = agent).map Grant.pair).Nodup :=
    grants.unique.sublist (List.filter_sublist.map _)
  rw [Grants.ofAgent, List.map_map]
  refine List.Nodup.map_on (fun row hrow other hother htool => ?_) (List.Nodup.of_map _ hsub)
  have hagent : row.agent = other.agent := by
    rw [of_decide_eq_true (List.mem_filter.mp hrow).2,
      of_decide_eq_true (List.mem_filter.mp hother).2]
  exact List.inj_on_of_nodup_map hsub hrow hother (Prod.ext hagent htool)

/-- The rows of the other agents, and the new ones. -/
theorem replaced_pairs (grants : Grants κ φ) (agent : ℕ) (tools : List κ) (defaults : φ) :
    (((grants.rows.filter fun row => row.agent ≠ agent) ++
      tools.map fun tool => (⟨agent, tool, defaults⟩ : Grant κ φ)).map Grant.pair).Nodup ↔
      tools.Nodup := by
  have hothers : ((grants.rows.filter fun row => row.agent ≠ agent).map Grant.pair).Nodup :=
    grants.unique.sublist (List.filter_sublist.map _)
  have hdisjoint : ∀ pair ∈ (grants.rows.filter fun row => row.agent ≠ agent).map Grant.pair,
      ∀ other ∈ tools.map fun tool => (agent, tool), pair ≠ other := by
    intro pair hpair other hother heq
    obtain ⟨row, hrow, rfl⟩ := List.mem_map.mp hpair
    obtain ⟨tool, -, rfl⟩ := List.mem_map.mp hother
    exact of_decide_eq_true (List.mem_filter.mp hrow).2 (congrArg Prod.fst heq)
  have hnew : (tools.map fun tool => (⟨agent, tool, defaults⟩ : Grant κ φ)).map Grant.pair =
      tools.map fun tool => (agent, tool) := by
    rw [List.map_map]
    rfl
  rw [List.map_append, hnew, List.nodup_append, and_iff_right hothers, and_iff_left hdisjoint]
  exact List.nodup_map_iff (Prod.mk_right_injective agent)

theorem replace_some [DecidableEq κ] {grants grants' : Grants κ φ} {agent : ℕ} {tools : List κ}
    {defaults : φ} (h : grants.replace agent tools defaults = some grants') :
    tools.Nodup ∧ grants'.ofAgent agent = tools.map fun tool => (tool, defaults) := by
  rw [Grants.replace] at h
  split at h
  · next hnodup =>
    obtain rfl := Option.some.inj h
    refine ⟨(replaced_pairs grants agent tools defaults).mp hnodup, ?_⟩
    have hothers : ((grants.rows.filter fun row => row.agent ≠ agent).filter
        fun row => row.agent = agent) = [] := by
      rw [List.filter_filter, List.filter_eq_nil_iff]
      intro row _
      simp
    have hnew : ((tools.map fun tool => (⟨agent, tool, defaults⟩ : Grant κ φ)).filter
        fun row => row.agent = agent) = tools.map fun tool => ⟨agent, tool, defaults⟩ := by
      rw [List.filter_eq_self]
      intro row hrow
      obtain ⟨tool, -, rfl⟩ := List.mem_map.mp hrow
      exact decide_eq_true rfl
    rw [Grants.ofAgent, List.filter_append, hothers, hnew, List.nil_append, List.map_map]
    rfl
  · simp at h

theorem replace_of_nodup [DecidableEq κ] (grants : Grants κ φ) (agent : ℕ) {tools : List κ}
    (defaults : φ) (h : tools.Nodup) :
    ∃ grants', grants.replace agent tools defaults = some grants' :=
  ⟨_, dif_pos ((replaced_pairs grants agent tools defaults).mpr h)⟩

/-- EXACT CONDITION for a table: rows with the defaults keep the flags that were the defaults. -/
theorem saved_iff {before : List (κ × φ)} {tools requested : List κ} {defaults : φ}
    (hnodup : tools.Nodup) (hsame : ∀ tool, tool ∈ tools ↔ tool ∈ requested) :
    Saved before (tools.map fun tool => (tool, defaults)) requested ↔
      ∀ row ∈ before, row.1 ∈ requested → row.2 = defaults := by
  have hfst : (tools.map fun tool => (tool, defaults)).map Prod.fst = tools := by
    rw [List.map_map]
    exact List.map_id tools
  constructor
  · intro h row hrow hreq
    obtain ⟨tool, -, rfl⟩ := List.mem_map.mp (h.kept row hrow hreq)
    rfl
  · intro h
    refine ⟨by rwa [hfst], by rwa [hfst], fun row hrow hreq => ?_⟩
    exact List.mem_map.mpr ⟨row.1, (hsame row.1).mpr hreq, Prod.ext rfl (h row hrow hreq).symm⟩

theorem saved_replace_iff [DecidableEq κ] {grants grants' : Grants κ φ} {agent : ℕ}
    {tools requested : List κ} {defaults : φ} (h : grants.replace agent tools defaults = some grants')
    (hsame : ∀ tool, tool ∈ tools ↔ tool ∈ requested) :
    Saved (grants.ofAgent agent) (grants'.ofAgent agent) requested ↔
      ∀ row ∈ grants.ofAgent agent, row.1 ∈ requested → row.2 = defaults := by
  obtain ⟨hnodup, hafter⟩ := replace_some h
  rw [hafter]
  exact saved_iff hnodup hsame

/-- Saving what is granted gives back the same rows. -/
theorem Saved.perm {before after : List (κ × φ)} {requested : List κ}
    (h : Saved before after requested) (hbefore : (before.map Prod.fst).Nodup)
    (hsame : Resaved before requested) : after.Perm before := by
  refine (List.perm_ext_iff_of_nodup (List.Nodup.of_map _ h.once)
    (List.Nodup.of_map _ hbefore)).mpr fun row => ⟨fun hrow => ?_, fun hrow => ?_⟩
  · -- the tool was granted, with a row that is kept, and there is one row a tool
    have htool := (hsame row.1).mp ((h.exact row.1).mp (List.mem_map_of_mem hrow))
    obtain ⟨old, hold, heq⟩ := List.mem_map.mp htool
    have hkept := h.kept old hold ((hsame old.1).mpr (List.mem_map_of_mem hold))
    exact List.inj_on_of_nodup_map h.once hkept hrow heq ▸ hold
  · exact h.kept row hrow ((hsame row.1).mpr (List.mem_map_of_mem hrow))

theorem mem_deduped {seen names : List String} {name : String} :
    name ∈ deduped seen names ↔ name ∈ names ∧ name ∉ seen := by
  induction names generalizing seen with
  | nil => simp [deduped]
  | cons first names ih =>
    rw [deduped]
    by_cases hfirst : first ∈ seen
    · rw [if_pos hfirst, ih, List.mem_cons]
      constructor
      · rintro ⟨hname, hseen⟩
        exact ⟨.inr hname, hseen⟩
      · rintro ⟨rfl | hname, hseen⟩
        · exact absurd hfirst hseen
        · exact ⟨hname, hseen⟩
    · rw [if_neg hfirst, List.mem_cons, ih, List.mem_cons, List.mem_cons, not_or]
      constructor
      · rintro (rfl | ⟨hname, -, hseen⟩)
        · exact ⟨.inl rfl, hfirst⟩
        · exact ⟨.inr hname, hseen⟩
      · rintro ⟨rfl | hname, hseen⟩
        · exact .inl rfl
        · by_cases heq : name = first
          · exact .inl heq
          · exact .inr ⟨hname, heq, hseen⟩

theorem deduped_nodup (seen names : List String) : (deduped seen names).Nodup := by
  induction names generalizing seen with
  | nil => exact List.nodup_nil
  | cons first names ih =>
    rw [deduped]
    split
    · exact ih seen
    · exact List.nodup_cons.mpr ⟨fun hmem => (mem_deduped.mp hmem).2 List.mem_cons_self,
        ih (first :: seen)⟩

/-! ### One request, and a run -/

/-- The names behind a gate are those of the rows. -/
theorem unchanged_of_perm {db db' : Database} {agent : ℕ}
    (hops : db'.operations = db.operations)
    (h : (db'.agentOperations.ofAgent agent).Perm (db.agentOperations.ofAgent agent))
    (h' : (db'.systemToolGrants.ofAgent agent).Perm (db.systemToolGrants.ofAgent agent)) :
    Unchanged db db' agent := by
  refine ⟨h, h', fun name => ?_⟩
  have hoperations : (db'.agent agent).operations.Perm (db.agent agent).operations := by
    rw [Database.agent, Database.agent, hops]
    exact h.filterMap _
  have hgrants : (db'.agent agent).grants.Perm (db.agent agent).grants := h'.map _
  exact (((hoperations.filter _).map _).append ((hgrants.filter _).map _)).mem_iff

theorem assignOperations_ok {repr : List String → String} {box : Toolbox} {db db' : Database}
    {agent : ℕ} {ids : List String} (hadmitted : Admitted box db (.assignOperations agent ids)) :
    assignOperations repr db agent ids = .ok db' ↔ ∃ grants,
      db.agentOperations.replace agent ids false = some grants ∧
        { db with agentOperations := grants } = db' := by
  obtain ⟨hagent, hids⟩ := hadmitted
  have hmissing : (ids.filter fun id => (db.operations.lookup id).isNone) = [] := by
    rw [List.filter_eq_nil_iff]
    intro id hid hnone
    have hsome := hids id hid
    rw [Option.isNone_iff_eq_none.mp hnone] at hsome
    cases hsome
  rw [assignOperations, if_pos hagent]
  simp only [hmissing, List.eraseDups_nil, ne_eq, not_true_eq_false, if_false]
  cases db.agentOperations.replace agent ids false with
  | none => simp
  | some grants => simp

theorem assignSystemTools_ok {repr : List String → String} {box : Toolbox} {db db' : Database}
    {agent : ℕ} {names : List String}
    (hadmitted : Admitted box db (.assignSystemTools agent names)) :
    assignSystemTools repr box db agent names = .ok db' ↔ ∃ grants,
      db.systemToolGrants.replace agent (deduped [] names) ⟨false, false⟩ = some grants ∧
        { db with systemToolGrants := grants } = db' := by
  obtain ⟨hagent, hnames⟩ := hadmitted
  have hmissing : (names.filter fun name => name ∉ box.listCatalog.map SystemTool.name) = [] := by
    rw [List.filter_eq_nil_iff]
    intro name hname
    simp [hnames name hname]
  rw [assignSystemTools, if_pos hagent]
  simp only [hmissing, ne_eq, not_true_eq_false, if_false]
  cases db.systemToolGrants.replace agent (deduped [] names) ⟨false, false⟩ with
  | none => simp
  | some grants => simp

theorem keepsFlags_iff {repr : List String → String} {box : Toolbox} (db : Database)
    (a : AssignAction) (db' : Database) (h : assignStep repr box db a = some db') :
    KeepsFlags repr box db a db' ↔ Flagless box db a := by
  refine imp_congr_right fun hadmitted => ?_
  cases a with
  | flagOperation agent operation flag => exact Iff.rfl
  | flagTool agent name flags => exact Iff.rfl
  | assignOperations agent ids =>
    constructor
    · rintro ⟨hok, hsaved, -⟩
      obtain ⟨grants, hreplace, rfl⟩ := (assignOperations_ok hadmitted).mp hok
      exact ⟨(replace_some hreplace).1, (saved_replace_iff hreplace fun _ => Iff.rfl).mp hsaved⟩
    · rintro ⟨hnodup, hflags⟩
      obtain ⟨grants, hreplace⟩ := replace_of_nodup db.agentOperations agent false hnodup
      have hok : assignOperations repr db agent ids = .ok { db with agentOperations := grants } :=
        (assignOperations_ok hadmitted).mpr ⟨grants, hreplace, rfl⟩
      obtain rfl : { db with agentOperations := grants } = db' := by
        rw [assignStep, hok] at h
        exact Option.some.inj h
      have hsaved := (saved_replace_iff hreplace fun _ => Iff.rfl).mpr hflags
      exact ⟨hok, hsaved, fun hsame => unchanged_of_perm rfl
        (hsaved.perm (ofAgent_nodup _ _) hsame) (List.Perm.refl _)⟩
  | assignSystemTools agent names =>
    have hsame : ∀ name, name ∈ deduped [] names ↔ name ∈ names := by simp [mem_deduped]
    constructor
    · rintro ⟨hok, hsaved, -⟩
      obtain ⟨grants, hreplace, rfl⟩ := (assignSystemTools_ok hadmitted).mp hok
      exact (saved_replace_iff hreplace hsame).mp hsaved
    · intro hflags
      obtain ⟨grants, hreplace⟩ :=
        replace_of_nodup db.systemToolGrants agent ⟨false, false⟩ (deduped_nodup [] names)
      have hok : assignSystemTools repr box db agent names =
          .ok { db with systemToolGrants := grants } :=
        (assignSystemTools_ok hadmitted).mpr ⟨grants, hreplace, rfl⟩
      obtain rfl : { db with systemToolGrants := grants } = db' := by
        rw [assignStep, hok] at h
        exact Option.some.inj h
      have hsaved := (saved_replace_iff hreplace hsame).mpr hflags
      exact ⟨hok, hsaved, fun hresaved => unchanged_of_perm rfl (List.Perm.refl _)
        (hsaved.perm (ofAgent_nodup _ _) hresaved)⟩

/-- EXACT CONDITION: over any sequence of assignments, from any tables, each admitted request
    succeeds, leaves exactly what it asks for and keeps the flags, just when no list of operations
    has a repeat and nothing that is assigned again has a flag set. -/
theorem keepsFlags_run_iff (repr : List String → String) (box : Toolbox) (db : Database)
    (as : List AssignAction) :
    EveryStep (assignStep repr box) (KeepsFlags repr box) db as ↔
      Guarded (assignStep repr box) (Flagless box) db as :=
  everyStep_iff_guarded (fun _ _ _ _ _ _ => trivial) (fun db a db' _ h => keepsFlags_iff db a db' h)
    trivial

/-- An agent with one operation, behind a gate. -/
def gatedAgent : Database where
  agents := [(1, "clerk")]
  operations := [("op", "charge_card")]
  agentOperations := ⟨[⟨1, "op", true⟩], by decide⟩
  systemToolGrants := ⟨[], by decide⟩

/-- Saving that operation again takes the gate away. -/
theorem resaving_drops_gate :
    ¬ EveryStep (assignStep List.toString ⟨[], []⟩) (KeepsFlags List.toString ⟨[], []⟩) gatedAgent
      [.assignOperations 1 ["op"]] := by
  intro h
  have hstep := (h _ rfl).1 ⟨rfl, by decide⟩
  have hkept := hstep.2.1.kept ("op", true) (by decide) (by decide)
  exact absurd hkept (by decide)

end LunaCore.Services
