import LunaCore.Flow.NodeConfig
import LunaCore.Flow.Supersteps

/-! The context an agent loads, and where a run's templates can find it.

    An ai_agent node loads the sources its agent requires and resolves its own templates with them
    merged into the state's context. It returns them beside its output,

        handler  {node.id: output, "context": {source: data, …}}
        execute  {"outputs": {… view.outputs, node.id: output, "context": {…}}, "current_node": …}

    and `execute` puts all of that under `outputs`. So no node writes the context channel, and a
    later node's `${context.<source>…}` reads what the run's input had there. The overrides of
    `initial_carry` are resolved with the state as it was given, before the merge. -/

namespace LunaCore.Flow.AgentContext
open LunaCore.Values LunaCore.Schemes LunaCore.Flow.Supersteps

/-! ### What a node resolves its templates with -/

/-- `state.get("context")` as a dict. -/
def contextOf (state : Dict) : Dict := asDict (state.get "context")

/-- `enriched_state`: the loaded sources merged into the state's context. -/
def enriched (state : Dict) (loaded : LoadedContext) : Dict :=
  state.set "context" (.obj ((contextOf state).update loaded.sources))

/-- The state a node's own templates see: for an agent's turn the enriched one, in an iteration with
    that under `iteration`; for another node the one it was given. -/
def templateState (node : FlowNode) (state : Dict) (loaded : LoadedContext)
    (iteration : Option Json) : Dict :=
  if node.type = .aiAgent then
    match iteration with
    | none => enriched state loaded
    | some value => (enriched state loaded).set "iteration" value
  else state

/-- The config of an agent-driven loop. -/
def agentYieldCfg (node : FlowNode) : Option Dict :=
  (iterationCfg node).filter fun cfg => resolveIterationSource (cfg.get "source") = .agentYield

/-- The fields of a carry schema with their defaults. -/
def carryFields (cfg : Dict) : Dict :=
  match getOr cfg "carry_schema" (.arr []) with
  | .arr fields => carryDefaults fields
  | _ => []

section
variable {Obj : Type} (attr : Value Obj → String → Value Obj)

/-- The carry `_iterate_with_agent_yield` starts with: an override of a field of the schema is
    resolved with the state the node was given. -/
def initialCarry (rounds : ℕ) (state cfg : Dict) : List (String × Option (Value Obj)) :=
  (carryFields cfg).map fun field =>
    (field.1, match (initialOverrides cfg).get field.1 with
      | some raw => resolveValue attr rounds state raw
      | none => some (.json field.2))

/-- Every path into a context source leads to where it leads in the loaded value. -/
def Resolves (state : Dict) (source : String) (value : Json) : Prop :=
  ∀ rounds path rest, tokenizePath rounds path = some ("context" :: source :: rest) →
    resolvePath attr rounds state path = some (walk attr rest (.json value))

end

/-! ### The run -/

/-- A stream and, as a ghost, what the agents that completed loaded, the last value of each
    source. -/
structure State where
  run : Supersteps.State
  latest : Dict

/-- With what a node loaded. -/
def loadedBy (latest : Dict) (c : Completed) : Dict :=
  if c.node.type = .aiAgent then latest.update c.loaded.sources else latest

def step (g : CompiledGraph) (router : Router) (s : State) (a : Supersteps.Action) : Option State :=
  (Supersteps.step g router s.run a).map fun run =>
    ⟨run, match a with
      | .close _ => s.run.done.foldl loadedBy s.latest
      | _ => s.latest⟩

def State.start (g : CompiledGraph) (input : RunInput) : State := ⟨.start g input, []⟩

section
variable {Obj : Type} (attr : Value Obj → String → Value Obj)

/-- What a node that ran had of the context loaded so far: its templates resolve it, its initial
    carry resolves what it loaded itself, and no source stands among the outputs it returned. -/
structure Reaches (s : State) (c : Completed) : Prop where
  templates : ∀ iteration source value, (loadedBy s.latest c).get source = some value →
    Resolves attr (templateState c.node (stateView s.run.channels) c.loaded iteration) source value
  carry : ∀ cfg, c.node.type = .aiAgent → agentYieldCfg c.node = some cfg →
    ∀ rounds name carried, (name, carried) ∈ initialCarry attr rounds (stateView s.run.channels) cfg →
    ∀ path source rest value, (initialOverrides cfg).get name = some (.str (marker path)) →
      tokenizePath rounds path = some ("context" :: source :: rest) →
      c.loaded.sources.get source = some value → carried = some (walk attr rest (.json value))
  outputs : c.node.type = .aiAgent → ∀ source ∈ c.loaded.sources.map Prod.fst,
    source ≠ c.node.id → c.output.get source = none

/-- Every node that completes has. -/
def ReachesEach (s : State) : Supersteps.Action → State → Prop
  | .finish _ _ _, t => ∀ c, t.run.done = s.run.done ++ [c] → Reaches attr s c
  | .close _, _ | .raise _, _ => True

/-- When it has: a source loaded before is loaded again by the node, or was in the run's input with
    the same value; so was what an override of its carry needs of a source it loads; and it loads no
    source called `context`. -/
structure InReach (input : RunInput) (s : State) (node : FlowNode) (loaded : LoadedContext) :
    Prop where
  again : ∀ source value, s.latest.get source = some value →
    (node.type = .aiAgent ∧ source ∈ loaded.sources.map Prod.fst) ∨
      ((asDict (input.fields.get "context")).get source).getD .null = value
  carry : ∀ cfg, node.type = .aiAgent → agentYieldCfg node = some cfg →
    ∀ name ∈ (carryFields cfg).map Prod.fst, ∀ rounds path source rest value,
      (initialOverrides cfg).get name = some (.str (marker path)) →
      tokenizePath rounds path = some ("context" :: source :: rest) →
      loaded.sources.get source = some value →
      walk attr rest (.json (((asDict (input.fields.get "context")).get source).getD .null)) =
        walk attr rest (.json value)
  named : node.type = .aiAgent → "context" ∉ loaded.sources.map Prod.fst

/-- Every node that completes is in reach. -/
def InReachEach (g : CompiledGraph) (input : RunInput) (s : State) :
    Supersteps.Action → Prop
  | .finish id _ loaded => ∀ node, (g.nodes.find? fun node => node.id == id) = some node →
      InReach attr input s node loaded
  | .close _ | .raise _ => True

end

/-! ### Paths into the context -/

theorem identifier_ne_star {name : String} (h : isIdentifier name = true) : name ≠ "[*]" := by
  rintro rfl
  exact absurd h (by decide)

section
variable {Obj : Type} (attr : Value Obj → String → Value Obj)

/-- A path into a source reads the source in the state's context. -/
theorem resolve_context {state : Dict} {source : String} (hsource : isIdentifier source = true)
    (hshape : state.get "context" = none ∨ ∃ fields, state.get "context" = some (.obj fields))
    {rounds : ℕ} {path : String} {rest : List String}
    (hpath : tokenizePath rounds path = some ("context" :: source :: rest)) :
    resolvePath attr rounds state path =
      some (walk attr rest (.json (((contextOf state).get source).getD .null))) := by
  have hne : path ≠ "" := by
    rintro rfl
    cases rounds with
    | zero => cases hpath
    | succ rounds => cases hpath
  rw [resolvePath, if_neg hne, hpath, Option.map_some, walk_obj attr (by decide)]
  rcases hshape with hnone | ⟨fields, hobj⟩
  · rw [contextOf, hnone]
    simp [asDict, Dict.get]
  · rw [contextOf, hobj]
    exact congrArg some (walk_obj attr (identifier_ne_star hsource) rest fields)

/-- Every path into a source resolves to the value just when the state's context has it. -/
theorem resolves_iff {state : Dict} {source : String} (hsource : isIdentifier source = true)
    (hshape : state.get "context" = none ∨ ∃ fields, state.get "context" = some (.obj fields))
    (value : Json) :
    Resolves attr state source value ↔ ((contextOf state).get source).getD .null = value := by
  constructor
  · intro h
    have hpath := tokenizePath_context hsource
    have hresolve := h 2 _ [] hpath
    rw [resolve_context attr hsource hshape hpath] at hresolve
    simpa [walk] using hresolve
  · rintro rfl rounds path rest hpath
    exact resolve_context attr hsource hshape hpath

end

/-! ### What a node sees -/

/-- An agent sees the context it was given with what it loaded, in every turn. -/
theorem context_of_agent {node : FlowNode} (htype : node.type = .aiAgent) (state : Dict)
    (loaded : LoadedContext) (iteration : Option Json) :
    (templateState node state loaded iteration).get "context" =
      some (.obj ((contextOf state).update loaded.sources)) := by
  cases iteration with
  | none =>
    simp only [templateState, if_pos htype]
    exact Dict.get_set_self state "context" _
  | some value =>
    simp only [templateState, if_pos htype]
    rw [Dict.get_set, if_neg (by decide)]
    exact Dict.get_set_self state "context" _

/-- Where the context channel is what the input opened it with, a node is given that context. -/
theorem get_contextOf_view {channels : Channels} {input : RunInput}
    (h : channels "context" = openChannels input.fields "context") (source : String) :
    (contextOf (stateView channels)).get source =
      (asDict (input.fields.get "context")).get source := by
  rw [contextOf, get_stateView (by decide), h]
  exact ((agrees_open input).dict "context" (by decide) source).symm

theorem view_shape {channels : Channels} {input : RunInput}
    (h : channels "context" = openChannels input.fields "context") :
    (stateView channels).get "context" = none ∨
      ∃ fields, (stateView channels).get "context" = some (.obj fields) := by
  rw [get_stateView (by decide), h]
  simp only [openChannels, mergeUpdate]
  split
  · exact .inl rfl
  · exact .inr ⟨_, rfl⟩

/-! ### The invariant -/

/-- The context channel is as the input opened it, and what was loaded has sources' names. -/
structure Inv (input : RunInput) (s : State) : Prop where
  run : Supersteps.Inv s.run
  context : s.run.channels "context" = openChannels input.fields "context"
  identifiers : ∀ source value, s.latest.get source = some value → isIdentifier source = true

theorem inv_start (g : CompiledGraph) (input : RunInput) : Inv input (State.start g input) :=
  ⟨Supersteps.inv_start g input, rfl, nofun⟩

theorem get_loadedBy (latest : Dict) (c : Completed) (source : String) :
    (loadedBy latest c).get source =
      if c.node.type = .aiAgent then (c.loaded.sources.get source).or (latest.get source)
      else latest.get source := by
  rw [loadedBy]
  split
  case isTrue => rw [Dict.get_update, Dict.get_reverse c.loaded.distinct]
  case isFalse => rfl

theorem LoadedContext.identifier (loaded : LoadedContext) {source : String} {value : Json}
    (h : loaded.sources.get source = some value) : isIdentifier source = true := by
  refine loaded.identifiers source ?_
  by_contra hmem
  rw [Dict.get_eq_none.mpr hmem] at h
  cases h

theorem loadedBy_identifiers {latest : Dict}
    (h : ∀ source value, latest.get source = some value → isIdentifier source = true)
    (c : Completed) : ∀ source value, (loadedBy latest c).get source = some value →
      isIdentifier source = true := by
  intro source value hget
  rw [get_loadedBy] at hget
  split at hget
  case isTrue =>
    rcases Option.or_eq_some_iff.mp hget with hloaded | ⟨_, hlatest⟩
    · exact LoadedContext.identifier c.loaded hloaded
    · exact h source value hlatest
  case isFalse => exact h source value hget

variable {g : CompiledGraph} {router : Router}

/-- No step writes the context channel. -/
theorem context_unwritten {s t : Supersteps.State} {a : Supersteps.Action}
    (hs : Supersteps.Inv s) (h : Supersteps.step g router s a = some t) :
    t.channels "context" = s.channels "context" := by
  cases a with
  | finish id value loaded =>
    obtain ⟨_, c, _, _, _, rfl⟩ := Supersteps.finishNode_cases h
    rfl
  | raise id =>
    obtain ⟨_, _, rfl⟩ := raiseNode_cases h
    rfl
  | close order =>
    have hl := hs (close_live h).1
    simp only [Supersteps.step, closeSuperstep] at h
    split at h
    case isFalse => cases h
    case isTrue hcond =>
      split at h
      case isFalse =>
        obtain rfl := Option.some.inj h
        rfl
      case isTrue =>
        obtain rfl := Option.some.inj h
        refine superstep_of_unwritten ?_ s.channels
        intro u hu
        obtain ⟨c, hc, rfl⟩ := List.mem_map.mp hu
        rw [(hl.made c (hcond.2.2.2.mem_iff.mp hc)).writes]
        rfl

/-- STEP: the context stays as it was opened. -/
theorem inv_step (input : RunInput) (s : State) (a : Supersteps.Action) (t : State)
    (hs : Inv input s) (h : step g router s a = some t) : Inv input t := by
  obtain ⟨run, hrun, rfl⟩ := Option.map_eq_some_iff.mp h
  refine ⟨Supersteps.inv_step s.run a run hs.run hrun,
    (context_unwritten hs.run hrun).trans hs.context, ?_⟩
  cases a with
  | finish id value loaded => exact hs.identifiers
  | raise id => exact hs.identifiers
  | close order =>
    have hfold : ∀ (done : List Completed) (latest : Dict),
        (∀ source value, latest.get source = some value → isIdentifier source = true) →
        ∀ source value, (done.foldl loadedBy latest).get source = some value →
          isIdentifier source = true := by
      intro done
      induction done with
      | nil => exact fun _ hlatest => hlatest
      | cons c done ih => exact fun latest hlatest => ih _ (loadedBy_identifiers hlatest c)
    exact hfold s.run.done s.latest hs.identifiers

/-! ### Reach -/

section
variable {Obj : Type} (attr : Value Obj → String → Value Obj)

/-- A template finds a source loaded so far in the node's own load or in the run's input. -/
theorem templates_iff {input : RunInput} {s : State} (hs : Inv input s) (c : Completed) :
    (∀ iteration source value, (loadedBy s.latest c).get source = some value →
      Resolves attr (templateState c.node (stateView s.run.channels) c.loaded iteration)
        source value) ↔
    ∀ source value, s.latest.get source = some value →
      (c.node.type = .aiAgent ∧ source ∈ c.loaded.sources.map Prod.fst) ∨
        ((asDict (input.fields.get "context")).get source).getD .null = value := by
  have hidentifier := loadedBy_identifiers hs.identifiers c
  have hgiven := get_contextOf_view hs.context
  by_cases htype : c.node.type = .aiAgent
  · have hcontext (iteration : Option Json) (source : String) :
        (contextOf (templateState c.node (stateView s.run.channels) c.loaded iteration)).get source =
          (c.loaded.sources.get source).or ((asDict (input.fields.get "context")).get source) := by
      rw [contextOf, context_of_agent htype, asDict_obj, Dict.get_update,
        Dict.get_reverse c.loaded.distinct, hgiven]
    have hresolves (iteration : Option Json) (source : String) (value : Json)
        (hsource : isIdentifier source = true) :=
      @resolves_iff _ attr (templateState c.node (stateView s.run.channels) c.loaded iteration)
        source hsource (.inr ⟨_, context_of_agent htype _ _ _⟩) value
    constructor
    · intro h source value hlatest
      cases hloaded : c.loaded.sources.get source with
      | some _ =>
        refine .inl ⟨htype, ?_⟩
        by_contra hmem
        rw [Dict.get_eq_none.mpr hmem] at hloaded
        cases hloaded
      | none =>
        have hget : (loadedBy s.latest c).get source = some value := by
          rw [get_loadedBy, if_pos htype, hloaded]
          exact hlatest
        have hreach := (hresolves none source value (hidentifier source value hget)).mp
          (h none source value hget)
        rw [hcontext, hloaded] at hreach
        exact .inr hreach
    · intro h iteration source value hget
      rw [hresolves iteration source value (hidentifier source value hget), hcontext]
      rw [get_loadedBy, if_pos htype] at hget
      cases hloaded : c.loaded.sources.get source with
      | some v =>
        rw [hloaded] at hget
        exact Option.some.inj hget
      | none =>
        rw [hloaded] at hget
        rcases h source value hget with ⟨_, hmem⟩ | hinput
        · exact absurd hmem (Dict.get_eq_none.mp hloaded)
        · exact hinput
  · have hstate (iteration : Option Json) :
        templateState c.node (stateView s.run.channels) c.loaded iteration =
          stateView s.run.channels := by
      simp only [templateState, if_neg htype]
    have hlatest (source : String) : (loadedBy s.latest c).get source = s.latest.get source := by
      rw [get_loadedBy, if_neg htype]
    constructor
    · intro h source value hget
      have hreach := h none source value ((hlatest source).trans hget)
      rw [hstate, resolves_iff attr (hs.identifiers source value hget) (view_shape hs.context),
        hgiven] at hreach
      exact .inr hreach
    · intro h iteration source value hget
      rw [hlatest] at hget
      rw [hstate, resolves_iff attr (hs.identifiers source value hget) (view_shape hs.context),
        hgiven]
      exact (h source value hget).resolve_left fun hagent => htype hagent.1

/-- An override of the initial carry finds a source in the run's input alone. -/
theorem carry_iff {input : RunInput} {s : State} (hs : Inv input s) (c : Completed) (cfg : Dict) :
    (∀ rounds name carried,
      (name, carried) ∈ initialCarry attr rounds (stateView s.run.channels) cfg →
      ∀ path source rest value, (initialOverrides cfg).get name = some (.str (marker path)) →
        tokenizePath rounds path = some ("context" :: source :: rest) →
        c.loaded.sources.get source = some value →
        carried = some (walk attr rest (.json value))) ↔
    ∀ name ∈ (carryFields cfg).map Prod.fst, ∀ rounds path source rest value,
      (initialOverrides cfg).get name = some (.str (marker path)) →
      tokenizePath rounds path = some ("context" :: source :: rest) →
      c.loaded.sources.get source = some value →
      walk attr rest (.json (((asDict (input.fields.get "context")).get source).getD .null)) =
        walk attr rest (.json value) := by
  -- what an override that is a marker is resolved to
  have hcarried {rounds : ℕ} {path source : String} {rest : List String} {value : Json}
      (hpath : tokenizePath rounds path = some ("context" :: source :: rest))
      (hloaded : c.loaded.sources.get source = some value) :
      resolveValue attr rounds (stateView s.run.channels) (.str (marker path)) =
        some (walk attr rest
          (.json (((asDict (input.fields.get "context")).get source).getD .null))) := by
    rw [resolveValue_marker, resolve_context attr (LoadedContext.identifier c.loaded hloaded)
      (view_shape hs.context) hpath, get_contextOf_view hs.context]
  constructor
  · intro h name hname rounds path source rest value hoverride hpath hloaded
    obtain ⟨field, hfield, rfl⟩ := List.mem_map.mp hname
    have heq := h rounds field.1 _ (List.mem_map.mpr ⟨field, hfield, rfl⟩) path source rest value
      hoverride hpath hloaded
    simp only [hoverride] at heq
    rw [hcarried hpath hloaded] at heq
    exact Option.some.inj heq
  · intro h rounds name carried hentry path source rest value hoverride hpath hloaded
    obtain ⟨field, hfield, heq⟩ := List.mem_map.mp hentry
    obtain ⟨rfl, rfl⟩ := Prod.mk.inj heq
    have hwalk := h field.1 (List.mem_map.mpr ⟨field, hfield, rfl⟩) rounds path source rest value
      hoverride hpath hloaded
    simp only [hoverride]
    rw [hcarried hpath hloaded, hwalk]

/-- A source stands among an agent's outputs just when it is called `context`. -/
theorem outputs_iff {channels : Channels} {c : Completed} (hmade : Made channels c)
    (htype : c.node.type = .aiAgent) :
    (∀ source ∈ c.loaded.sources.map Prod.fst, source ≠ c.node.id →
      c.output.get source = none) ↔ "context" ∉ c.loaded.sources.map Prod.fst := by
  have hout : c.output = handlerResult c.node c.value c.loaded := by
    rcases hmade.cases with ⟨_, hout⟩ | ⟨hother, _⟩
    · exact hout
    · exact absurd (.inr htype) hother
  have hne : ("context" : String) ≠ c.node.id := fun heq => hmade.named (heq ▸ by decide)
  constructor
  · intro h hmem
    have hsome : c.loaded.sources ≠ [] := by
      intro hnil
      rw [hnil] at hmem
      cases hmem
    have hnone := h "context" hmem hne
    rw [hout, handlerResult, if_pos ⟨htype, hsome⟩, Dict.get_set_self] at hnone
    cases hnone
  · intro h source hmem hother
    have hcontext : source ≠ "context" := fun heq => h (heq ▸ hmem)
    have hone : Dict.get [(c.node.id, c.value)] source = none := by
      simp [Dict.get, Ne.symm hother]
    rw [hout]
    rw [handlerResult]
    split
    case isTrue => rw [Dict.get_set, if_neg hcontext, hone]
    case isFalse => exact hone

/-- What a node had of the context loaded so far depends on the run's input and its own load. -/
theorem reaches_iff {input : RunInput} {s : State} (hs : Inv input s) {c : Completed}
    (hmade : Made s.run.channels c) : Reaches attr s c ↔ InReach attr input s c.node c.loaded := by
  constructor
  · intro h
    exact ⟨(templates_iff attr hs c).mp h.templates,
      fun cfg htype hcfg => (carry_iff attr hs c cfg).mp (h.carry cfg htype hcfg),
      fun htype => (outputs_iff hmade htype).mp (h.outputs htype)⟩
  · intro h
    exact ⟨(templates_iff attr hs c).mpr h.again,
      fun cfg htype hcfg => (carry_iff attr hs c cfg).mpr (h.carry cfg htype hcfg),
      fun htype => (outputs_iff hmade htype).mpr (h.named htype)⟩

theorem reachesEach_iff (input : RunInput) (s : State) (a : Supersteps.Action) (t : State)
    (hs : Inv input s) (h : step g router s a = some t) :
    ReachesEach attr s a t ↔ InReachEach attr g input s a := by
  obtain ⟨run, hrun, rfl⟩ := Option.map_eq_some_iff.mp h
  cases a with
  | close order => exact Iff.rfl
  | raise id => exact Iff.rfl
  | finish id value loaded =>
    obtain ⟨_, c, hmade, hnode, rfl, rfl⟩ := Supersteps.finishNode_cases hrun
    have hreach := reaches_iff attr hs hmade
    constructor
    · intro hall node hfind
      obtain rfl : c.node = node := Option.some.inj (hnode.symm.trans hfind)
      exact hreach.mp (hall c rfl)
    · intro hall c' hc'
      obtain rfl : c = c' := by simpa using hc'
      exact hreach.mpr (hall c.node hnode)

/-- RUN: every node of a run resolves the context the agents before it loaded, and its own, just
    when each of them is in reach of it. -/
theorem reaches_run_iff (g : CompiledGraph) (router : Router) (input : RunInput)
    (as : List Supersteps.Action) :
    EveryStep (step g router) (ReachesEach attr) (State.start g input) as ↔
      Guarded (step g router) (InReachEach attr g input) (State.start g input) as :=
  everyStep_iff_guarded (fun s a t hs _ h => inv_step input s a t hs h)
    (reachesEach_iff attr input) (inv_start g input)

end

/-- An agent screens a profile, then a mail goes out to its name. -/
def screenFlow : FlowDefinition :=
  ⟨"screen",
    [⟨"screen", .aiAgent, "Screen", [("agent_id", .str "a1")]⟩,
      ⟨"mail", .action, "Mail", [("system_tool_name", .str "send_mail"),
        ("input", .obj [("to", .str (marker "context.profile.name"))])]⟩],
    [⟨"screen", "mail", none⟩]⟩

def screenGraph : CompiledGraph where
  entry := "screen"
  nodes := screenFlow.nodes
  routes := [("screen", .direct [.node "mail"]), ("mail", .direct [.finish])]
  named := by decide

/-- The profile the agent's instructions refer to. -/
def profile : Json := .obj [("name", .str "Ada")]

def profileLoaded : LoadedContext := ⟨[("profile", profile)], by decide, by decide⟩

def screenOutput : Dict := [("screen", .str "ok"), ("context", .obj [("profile", profile)])]

def screenDone : Completed :=
  ⟨⟨"screen", .aiAgent, "Screen", [("agent_id", .str "a1")]⟩, .str "ok", profileLoaded,
    screenOutput, [("outputs", .obj screenOutput), ("current_node", .str "screen")]⟩

/-- The run of `screenFlow`: the mail is sent to nobody. -/
theorem loaded_context_lost : ¬ ∀ (Obj : Type) (attr : Value Obj → String → Value Obj)
    (d : FlowDefinition) (g : CompiledGraph) (router : Router) (input : RunInput)
    (as : List Supersteps.Action), buildGraph d = .ok g.toGraph →
    EveryStep (step g router) (ReachesEach attr) (State.start g input) as := by
  intro hall
  have hrun := hall Empty (fun _ _ => .json .null) screenFlow screenGraph
    (fun _ default _ => default) ⟨[("outputs", .obj []), ("context", .obj [])], by decide⟩
    ([.finish "screen" (.str "ok") profileLoaded, .close [screenDone]] ++
      .finish "mail" (.str "sent") .none :: []) rfl
  have hmail : @ReachesEach Empty _ _ _ _ := EveryStep.at hrun rfl rfl
  have hreach := hmail _ rfl
  have hname : (some (.json .null) : Option (Value Empty)) = some (.json (.str "Ada")) :=
    hreach.templates none "profile" profile rfl 4 "context.profile.name" ["name"] rfl
  cases hname

end LunaCore.Flow.AgentContext
