import LunaCore.Flow.AgentContext
import LunaCore.Flow.Rendering
import LunaCore.Services.ContextSources

/-! The sources an agent is saved with, and those its node reads.

    saving    required_sources  ←  the names the pattern finds in the instructions
    running   loaded            ←  each of required_sources, or the node fails
              rendered          ←  role, instructions and prompt, with what is loaded

    Three templates are rendered and one is read for names. The role, the prompt, and a reference
    the pattern does not see, have what the instructions happen to name. -/

namespace LunaCore.Flow.RequiredSources
open LunaCore.Flow.AgentContext LunaCore.Schemes LunaCore.Services LunaCore.Values

/-! ### Saved agents -/

/-- `Agent`, as far as its templates go. -/
structure Agent where
  id : ℕ
  name : String
  role : String
  instructions : String
  requiredSources : List String
  deriving DecidableEq

/-- `AgentCreate`. -/
structure AgentCreate where
  name : String
  role : String := ""
  instructions : String := ""

/-- `AgentUpdate` without what is unset: a field may also be set to null. -/
structure AgentUpdate where
  role : Option (Option String) := none
  instructions : Option (Option String) := none

inductive Action where
  | create (id : ℕ) (payload : AgentCreate)
  | update (id : ℕ) (payload : AgentUpdate)

/-- The agent as `update_agent` commits it; the columns take no null. -/
def updated (agent : Agent) (payload : AgentUpdate) : Option Agent :=
  (payload.role.getD (some agent.role)).bind fun role =>
    (payload.instructions.getD (some agent.instructions)).map fun instructions =>
      { agent with
        role := role
        instructions := instructions
        requiredSources := extractContextSources (some instructions) }

/-- `create_agent` and `update_agent`; a call that raises changes nothing. -/
def step (agents : List Agent) : Action → Option (List Agent)
  | .create id payload =>
    if id ∈ agents.map Agent.id ∨ payload.name ∈ agents.map Agent.name then none
    else some (agents ++ [⟨id, payload.name, payload.role, payload.instructions,
      extractContextSources (some payload.instructions)⟩])
  | .update id payload =>
    (agents.find? fun agent => agent.id == id).bind fun agent =>
      (updated agent payload).map fun saved =>
        agents.map fun other => if other.id = id then saved else other

/-! ### Loading -/

section
variable {Obj : Type} (attr : Value Obj → String → Value Obj) (str : Value Obj → String)
  (repr : Json → String) (registry : List ContextSource)

/-- `None if value is None else str(value)`. -/
def boundId : Value Obj → Option String
  | .json .null => none
  | value => some (stringify str value)

/-- `_resolve_binding_id`; `none` while its path is not resolved. -/
def resolveBindingId (rounds : ℕ) (binding state : Dict) :
    Option (Except String (Option String)) :=
  match binding.get "static_id" with
  | some sid =>
    some (.ok (if sid = .null ∨ sid = .str "" then none else some (stringify str (.json sid))))
  | none =>
    match binding.get "from" with
    | some (.str fromPath) =>
      if fromPath = "" then
        some (.error ("context binding must have either 'from' or 'static_id': " ++
          repr (.obj binding)))
      else
        (resolveValue attr rounds state (.str (marker fromPath))).map fun value =>
          .ok (boundId str value)
    | _ =>
      some (.error ("context binding must have either 'from' or 'static_id': " ++
        repr (.obj binding)))

/-- The id a source is loaded with. -/
def resolveSourceId (rounds : ℕ) (node : FlowNode) (bindings state : Dict)
    (source : ContextSource) : Option (Except String (Option String)) :=
  if source.idImplicit then some (.ok none)
  else
    match bindings.get source.name with
    | some (.obj binding) =>
      (resolveBindingId attr str repr rounds binding state).map fun
        | .error detail => .error detail
        | .ok sourceId =>
          if sourceId.getD "" = "" then
            .error ("ai_agent node " ++ node.id ++ ": binding for source " ++
              repr (.str source.name) ++ " resolved to no id (binding=" ++ repr (.obj binding) ++ ")")
          else .ok sourceId
    | _ =>
      some (.error ("ai_agent node " ++ node.id ++
        ": missing context_bindings entry for required source " ++ repr (.str source.name)))

/-- One turn of the loop over the required sources. -/
def loadSource (rounds : ℕ) (node : FlowNode) (bindings state : Dict) (name : String) :
    Option (Except String Dict) :=
  match getContextSource registry name with
  | none =>
    some (.error ("ai_agent node " ++ node.id ++ ": agent requires context source " ++
      repr (.str name) ++ " but no such source is registered"))
  | some source =>
    (resolveSourceId attr str repr rounds node bindings state source).map fun
      | .error detail => .error detail
      | .ok sourceId =>
        match source.loader state sourceId with
        | .raised detail =>
          .error ("ai_agent node " ++ node.id ++ ": loader for context source " ++
            repr (.str name) ++ " failed: " ++ detail)
        | .other typeName =>
          .error ("ai_agent node " ++ node.id ++ ": loader for " ++ repr (.str name) ++
            " returned " ++ typeName ++ ", expected dict")
        | .data fields => .ok fields

/-- The loop over the required sources. -/
def loadSources (rounds : ℕ) (node : FlowNode) (bindings state : Dict) :
    List String → Dict → Option (Except String Dict)
  | [], loaded => some (.ok loaded)
  | name :: rest, loaded =>
    (loadSource attr str repr registry rounds node bindings state name).bind fun
      | .error detail => some (.error detail)
      | .ok fields => loadSources rounds node bindings state rest (loaded.set name (.obj fields))

/-- `_load_agent_context`; an error is a `NodeExecutionError`. -/
def loadAgentContext (rounds : ℕ) (agent : Agent) (node : FlowNode) (state : Dict) :
    Option (Except String Dict) :=
  if agent.requiredSources = [] then some (.ok [])
  else
    match getOr node.config "context_bindings" (.obj []) with
    | .obj bindings =>
      loadSources attr str repr registry rounds node bindings state agent.requiredSources []
    | _ => some (.error ("ai_agent node " ++ node.id ++ ": context_bindings must be an object"))

/-! ### Rendering -/

/-- The state the templates of a turn are rendered with; in an iteration it has that too. -/
def enrichedState (state loaded : Dict) (iteration : Option Json) : Dict :=
  let merged := state.set "context" (.obj ((contextOf state).update loaded))
  match iteration with
  | none => merged
  | some value => merged.set "iteration" value

/-- `_resolve_prompt`. -/
def resolvePrompt (rounds : ℕ) (config state : Dict) : Option (Option String) :=
  match config.get "prompt" with
  | none | some .null => some none
  | some (.str text) => (formatInPlace attr str rounds state text).map some
  | some value => some (some (stringify str (.json value)))

/-- `_format_template(text, state) if text else ""`. -/
def formatGiven (rounds : ℕ) (state : Dict) (text : String) : Option String :=
  if text = "" then some "" else formatInPlace attr str rounds state text

/-- What a turn sends: its message, and the role and instructions of its system prompt. -/
structure TurnTexts where
  newMessage : Option String
  role : String
  instructions : String
  deriving DecidableEq

/-- The templates of a turn, once its context is loaded. -/
def turnTexts (rounds : ℕ) (agent : Agent) (node : FlowNode) (state : Dict)
    (iteration : Option Json) : Option (Except String TurnTexts) :=
  (loadAgentContext attr str repr registry rounds agent node state).bind fun
    | .error detail => some (.error detail)
    | .ok loaded =>
      let enriched := enrichedState state loaded iteration
      (resolvePrompt attr str rounds node.config enriched).bind fun newMessage =>
        (formatGiven attr str rounds enriched agent.role).bind fun role =>
          (formatGiven attr str rounds enriched agent.instructions).map fun instructions =>
            .ok ⟨newMessage, role, instructions⟩

/-- The templates a node renders with the context. -/
def templatesOf (agent : Agent) (node : FlowNode) : List String :=
  [agent.role, agent.instructions] ++
    match node.config.get "prompt" with
    | some (.str text) => [text]
    | _ => []

end

/-- A marker `${context.<name>…}`: its path begins with `context.` and goes into that source. -/
def References (path name : String) : Prop :=
  "context.".toList.isPrefixOf path.toList = true ∧ name ≠ "[*]" ∧
    ∃ rounds rest, tokenizePath rounds path = some ("context" :: name :: rest)

/-- `${context.<name>` stands somewhere in the text, the whole of an identifier. -/
def WrittenIn (text name : String) : Prop :=
  isIdentifier name = true ∧ ∃ before after,
    text.toList = before ++ ("$\x7bcontext.".toList ++ (name.toList ++ after)) ∧
      ∀ c ∈ after.head?, continuesName c = false

section
variable {Obj : Type} (attr : Value Obj → String → Value Obj) (str : Value Obj → String)
  (repr : Json → String)

/-- A source can be loaded for a node. -/
def CanLoad (registry : List ContextSource) (rounds : ℕ) (node : FlowNode) (state : Dict)
    (name : String) : Prop :=
  ∃ bindings fields, getOr node.config "context_bindings" (.obj []) = .obj bindings ∧
    loadSource attr str repr registry rounds node bindings state name = some (.ok fields)

/-- What a node's templates reference is among the sources it loads; once it has loaded them, a
    reference leads into what was loaded; and a source that cannot be loaded fails the node. -/
structure Loads (agent : Agent) (node : FlowNode) : Prop where
  listed : ∀ template ∈ templatesOf agent node, ∀ path : String,
    .marked path.toList ∈ templatePieces template → ∀ name, References path name →
      name ∈ agent.requiredSources
  read : ∀ registry rounds state iteration loaded,
    loadAgentContext attr str repr registry rounds agent node state = some (.ok loaded) →
    ∀ template ∈ templatesOf agent node, ∀ path : String,
      .marked path.toList ∈ templatePieces template → ∀ name, References path name →
        ∃ fields, loaded.get name = some (.obj fields) ∧ ∀ rounds rest,
          tokenizePath rounds path = some ("context" :: name :: rest) →
            resolvePath attr rounds (enrichedState state loaded iteration) path =
              some (walk attr rest (.json (.obj fields)))
  fails : ∀ registry rounds state iteration, ∀ name ∈ agent.requiredSources,
    ¬ CanLoad attr str repr registry rounds node state name → ∀ texts,
      turnTexts attr str repr registry rounds agent node state iteration ≠ some (.ok texts)

end

/-! ### What is saved -/

/-- Every agent has the sources its instructions name. -/
def Synced (agents : List Agent) : Prop :=
  ∀ agent ∈ agents, agent.requiredSources = extractContextSources (some agent.instructions)

theorem synced_updated {agent saved : Agent} {payload : AgentUpdate}
    (h : updated agent payload = some saved) :
    saved.requiredSources = extractContextSources (some saved.instructions) := by
  obtain ⟨role, _, h⟩ := Option.bind_eq_some_iff.mp h
  obtain ⟨instructions, _, rfl⟩ := Option.map_eq_some_iff.mp h
  rfl

theorem synced_step (agents : List Agent) (a : Action) (after : List Agent)
    (hs : Synced agents) (h : step agents a = some after) : Synced after := by
  cases a with
  | create id payload =>
    rw [step] at h
    split at h
    case isTrue => cases h
    case isFalse =>
      obtain rfl := Option.some.inj h
      intro agent hagent
      rcases List.mem_append.mp hagent with hold | hnew
      · exact hs agent hold
      · obtain rfl := List.mem_singleton.mp hnew
        rfl
  | update id payload =>
    obtain ⟨agent, _, h⟩ := Option.bind_eq_some_iff.mp h
    obtain ⟨saved, hsaved, rfl⟩ := Option.map_eq_some_iff.mp h
    intro other hother
    obtain ⟨old, hold, rfl⟩ := List.mem_map.mp hother
    split
    · exact synced_updated hsaved
    · exact hs old hold

theorem synced_run {actions : List Action} {agents : List Agent}
    (h : runFrom step [] actions = some agents) : Synced agents :=
  inv_run synced_step (fun _ hagent => by cases hagent) h

theorem mem_extractContextSources_iff {text name : String} :
    name ∈ extractContextSources (some text) ↔ WrittenIn text name := by
  rw [mem_extractContextSources, WrittenIn]
  constructor
  · rintro ⟨before, rest, htext, hname⟩
    obtain ⟨hidentifier, after, rfl, hend⟩ := contextRef_eq_some_iff.mp hname
    exact ⟨hidentifier, before, after, htext, hend⟩
  · rintro ⟨hidentifier, before, after, htext, hend⟩
    exact ⟨before, _, htext, contextRef_eq_some_iff.mpr ⟨hidentifier, after, rfl, hend⟩⟩

/-! ### What is loaded -/

section
variable {Obj : Type} {attr : Value Obj → String → Value Obj} {str : Value Obj → String}
  {repr : Json → String} {registry : List ContextSource} {rounds : ℕ} {node : FlowNode}
  {bindings state : Dict}

/-- The loop comes to its end with what each source gave. -/
theorem loadSources_ok : ∀ {names : List String} {loaded result : Dict},
    loadSources attr str repr registry rounds node bindings state names loaded =
      some (.ok result) → loaded.Distinct → result.Distinct ∧
      (∀ name ∈ names, ∃ fields,
        loadSource attr str repr registry rounds node bindings state name = some (.ok fields) ∧
          result.get name = some (.obj fields)) ∧
      ∀ name ∉ names, result.get name = loaded.get name
  | [], loaded, result, h, hdistinct => by
    rw [loadSources] at h
    obtain rfl := Except.ok.inj (Option.some.inj h)
    exact ⟨hdistinct, nofun, fun name _ => rfl⟩
  | first :: rest, loaded, result, h, hdistinct => by
    rw [loadSources] at h
    obtain ⟨outcome, hfirst, h⟩ := Option.bind_eq_some_iff.mp h
    cases outcome with
    | error detail => cases h
    | ok fields =>
      obtain ⟨hresult, hrest, hother⟩ := loadSources_ok h (hdistinct.set first _)
      refine ⟨hresult, fun name hname => ?_, fun name hname => ?_⟩
      · by_cases hmem : name ∈ rest
        · exact hrest name hmem
        · obtain rfl := (List.mem_cons.mp hname).resolve_right hmem
          exact ⟨fields, hfirst, by rw [hother _ hmem, Dict.get_set_self]⟩
      · rw [List.mem_cons, not_or] at hname
        rw [hother name hname.2, Dict.get_set, if_neg hname.1]

theorem loadAgentContext_ok {agent : Agent} {loaded : Dict}
    (h : loadAgentContext attr str repr registry rounds agent node state = some (.ok loaded)) :
    loaded.Distinct ∧ ∀ name ∈ agent.requiredSources,
      CanLoad attr str repr registry rounds node state name ∧
        ∃ fields, loaded.get name = some (.obj fields) := by
  rw [loadAgentContext] at h
  split at h
  case isTrue hnone =>
    obtain rfl := Except.ok.inj (Option.some.inj h)
    rw [hnone]
    exact ⟨List.nodup_nil, fun name hname => by cases hname⟩
  case isFalse =>
    split at h
    case h_1 bindings hbindings =>
      obtain ⟨hdistinct, hloaded, _⟩ := loadSources_ok h List.nodup_nil
      refine ⟨hdistinct, fun name hname => ?_⟩
      obtain ⟨fields, hsource, hget⟩ := hloaded name hname
      exact ⟨⟨bindings, fields, hbindings, hsource⟩, fields, hget⟩
    case h_2 => cases h

/-- What is rendered with is what was loaded, over the context the state had. -/
theorem get_enriched {loaded : Dict} (hloaded : loaded.Distinct) {iteration : Option Json}
    {name : String} {value : Json} (h : loaded.get name = some value) :
    (contextOf (enrichedState state loaded iteration)).get name = some value := by
  have hcontext : (enrichedState state loaded iteration).get "context" =
      some (.obj ((contextOf state).update loaded)) := by
    cases iteration with
    | none => exact Dict.get_set_self state "context" _
    | some item =>
      simp only [enrichedState]
      rw [Dict.get_set, if_neg (by decide)]
      exact Dict.get_set_self state "context" _
  rw [contextOf, hcontext]
  change ((contextOf state).update loaded).get name = some value
  rw [Dict.get_update, Dict.get_reverse hloaded, h, Option.some_or]

/-- A reference to a loaded source leads into it. -/
theorem resolve_loaded {loaded : Dict} (hloaded : loaded.Distinct) {iteration : Option Json}
    {name path : String} {fields : Dict} {rest : List String} (hname : isIdentifier name = true)
    (h : loaded.get name = some (.obj fields))
    (hpath : tokenizePath rounds path = some ("context" :: name :: rest)) :
    resolvePath attr rounds (enrichedState state loaded iteration) path =
      some (walk attr rest (.json (.obj fields))) := by
  have hshape : ∃ context, (enrichedState state loaded iteration).get "context" =
      some (.obj context) := by
    cases iteration with
    | none => exact ⟨_, Dict.get_set_self state "context" _⟩
    | some item =>
      simp only [enrichedState]
      rw [Dict.get_set, if_neg (by decide)]
      exact ⟨_, Dict.get_set_self state "context" _⟩
  rw [resolve_context attr hname (.inr hshape) hpath, get_enriched hloaded h, Option.getD_some]

theorem loads_of_listed {agent : Agent}
    (hsynced : agent.requiredSources = extractContextSources (some agent.instructions))
    (hlisted : ∀ template ∈ templatesOf agent node, ∀ path : String,
      .marked path.toList ∈ templatePieces template → ∀ name, References path name →
        name ∈ agent.requiredSources) : Loads attr str repr agent node := by
  refine ⟨hlisted, ?_, ?_⟩
  · intro registry rounds state iteration loaded hload template htemplate path hmarked name href
    have hrequired := hlisted template htemplate path hmarked name href
    obtain ⟨hdistinct, hloaded⟩ := loadAgentContext_ok hload
    obtain ⟨_, fields, hfields⟩ := hloaded name hrequired
    rw [hsynced] at hrequired
    exact ⟨fields, hfields, fun rounds rest hpath =>
      resolve_loaded hdistinct (isIdentifier_of_mem hrequired) hfields hpath⟩
  · intro registry rounds state iteration name hname hcannot texts htexts
    obtain ⟨outcome, hload, htexts⟩ := Option.bind_eq_some_iff.mp htexts
    cases outcome with
    | error detail => cases htexts
    | ok loaded => exact hcannot ((loadAgentContext_ok hload).2 name hname).1

end

/-- CODE BUG (exact condition): of an agent that was saved, a node loads what its templates
    reference just when each source named in the role, the instructions or the prompt is written
    as `${context.<name>` in the instructions: the role and the prompt are rendered with the
    context and never read for names. -/
theorem loads_iff {Obj : Type} (attr : Value Obj → String → Value Obj) (str : Value Obj → String)
    (repr : Json → String) {actions : List Action} {agents : List Agent}
    (h : runFrom step [] actions = some agents) {agent : Agent} (hagent : agent ∈ agents)
    (node : FlowNode) :
    Loads attr str repr agent node ↔
      ∀ template ∈ templatesOf agent node, ∀ path : String,
        .marked path.toList ∈ templatePieces template → ∀ name, References path name →
          WrittenIn agent.instructions name := by
  have hsynced := synced_run h agent hagent
  constructor
  · intro hloads template htemplate path hmarked name href
    have hlisted := hloads.listed template htemplate path hmarked name href
    rw [hsynced] at hlisted
    exact mem_extractContextSources_iff.mp hlisted
  · intro hwritten
    refine loads_of_listed hsynced fun template htemplate path hmarked name href => ?_
    rw [hsynced]
    exact mem_extractContextSources_iff.mpr (hwritten template htemplate path hmarked name href)

/-- A path goes into one source. -/
theorem references_unique {path name other : String} {rounds : ℕ} {rest : List String}
    (h : References path name)
    (hother : tokenizePath rounds path = some ("context" :: other :: rest)) : name = other := by
  obtain ⟨_, _, enough, tail, hname⟩ := h
  have hone := tokenizeChunks_mono (le_max_left enough rounds) hname
  rw [tokenizeChunks_mono (le_max_right enough rounds) hother] at hone
  simp only [Option.some.injEq, List.cons.injEq, true_and] at hone
  exact hone.1.symm

/-- An agent whose instructions name its source. -/
theorem headline_loads : Loads (fun (_ : Value Unit) _ => .json .null) (fun _ => "") (fun _ => "")
    ⟨0, "Job Scorer", "", marker "context.profile.headline", ["profile"]⟩
    ⟨"score", .aiAgent, "Score", []⟩ := by
  have hrun : runFrom step [] [.create 0 ⟨"Job Scorer", "", marker "context.profile.headline"⟩] =
      some [⟨0, "Job Scorer", "", marker "context.profile.headline", ["profile"]⟩] := by
    decide +kernel
  refine (loads_iff _ _ _ hrun List.mem_cons_self _).mpr ?_
  intro template htemplate path hmarked name href
  have hpath : path = "context.profile.headline" := by
    have htext : template = "" ∨ template = marker "context.profile.headline" := by
      simpa [templatesOf, Dict.get] using htemplate
    rcases htext with rfl | rfl
    · rw [templatePieces, piecesOf, pieces_of_notMem (by decide +kernel)] at hmarked
      cases hmarked
    · rw [templatePieces_marker (by decide +kernel)] at hmarked
      exact String.toList_inj.mp (by simpa using hmarked)
  subst hpath
  have htokens : tokenizePath 9 "context.profile.headline" =
      some ("context" :: "profile" :: ["headline"]) := by decide +kernel
  obtain rfl := references_unique href htokens
  refine ⟨by decide +kernel, [], ".headline\x7d".toList, by decide +kernel, fun c hc => ?_⟩
  have hdot : ".headline\x7d".toList.head? = some '.' := by decide +kernel
  obtain rfl := Option.some.inj (hdot.symm.trans hc)
  decide +kernel

/-- The role alone references the profile: it is registered, and what is sent has nothing for it. -/
theorem role_not_loaded :
    runFrom step [] [.create 0 ⟨"Greeter", marker "context.profile.name", "Greet."⟩] =
      some [⟨0, "Greeter", marker "context.profile.name", "Greet.", []⟩] ∧
    turnTexts (fun (_ : Value Unit) _ => .json .null) (fun _ => "") (fun _ => "")
      [⟨"profile", fun _ _ => .data [("name", .str "Ada")], true⟩] 30
      ⟨0, "Greeter", marker "context.profile.name", "Greet.", []⟩ ⟨"greet", .aiAgent, "Greet", []⟩
      [] none = some (.ok ⟨none, "", "Greet."⟩) ∧
    ¬ Loads (fun (_ : Value Unit) _ => .json .null) (fun _ => "") (fun _ => "")
      ⟨0, "Greeter", marker "context.profile.name", "Greet.", []⟩
      ⟨"greet", .aiAgent, "Greet", []⟩ := by
  refine ⟨by decide +kernel, rfl, fun h => ?_⟩
  have hmarked : .marked "context.profile.name".toList ∈
      templatePieces (marker "context.profile.name") := by
    rw [templatePieces_marker (by decide +kernel)]
    exact List.mem_cons_self
  have href : References "context.profile.name" "profile" :=
    ⟨by decide +kernel, by decide +kernel, 9, ["name"], by decide +kernel⟩
  exact List.not_mem_nil (h.listed _ List.mem_cons_self _ hmarked _ href)

end LunaCore.Flow.RequiredSources
