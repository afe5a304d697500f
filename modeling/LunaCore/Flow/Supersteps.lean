import LunaCore.Schemes.Channel
import LunaCore.Flow.Runner
import LunaCore.Flow.TemplatePaths

/-! The state channels of a run and the mirror `_execute` keeps of them.

    LangGraph runs the nodes of a superstep on the channels as they were when it began. Each node
    returns all outputs it saw with its own added, and its id as `current_node`:

        view ── A ─→ {outputs: view.outputs + A's, current_node: A} ─┐
             └─ B ─→ {outputs: view.outputs + B's, current_node: B} ─┴→ applied when both are done

    `_execute` merges each of these into its `final_state` as soon as the node is done, and mirrors
    that to Redis and the row. The channels take them together at the end: `outputs` folds its
    reducer over them, and `current_node`, a plain channel, takes one write.

    A superstep of one node leaves the mirror and the channels equal, with everything in them that
    every node returned. A superstep of two is refused at its end, or one of its nodes raises and
    the other is cut off. What ends a stream from outside (an abort, a fault) is no step here. -/

namespace LunaCore.Flow.Supersteps
open LunaCore.Values LunaCore.Schemes

/-! ### Channels -/

/-- The fields of `FlowState` that are overwritten. -/
def plainChannels : List String :=
  ["run_id", "flow_id", "inputs", "trigger", "current_node", "error"]

/-- Those annotated with `_merge_dict_channel`. -/
def dictChannels : List String := ["outputs", "context"]

def channelNames : List String := plainChannels ++ dictChannels

/-- `_merge_dict_channel`. -/
def mergeDictChannel (left : Option Json) (right : Json) : Json :=
  .obj ((asDict left).update (asDict (some right)))

/-- `FlowState`. -/
def flowState (name : String) : Channel Json :=
  if name ∈ dictChannels then .folded mergeDictChannel else .plain

abbrev Channels := String → Option Json

/-- The state dict a node is given. -/
def stateView (channels : Channels) : Dict :=
  channelNames.filterMap fun name => (channels name).map fun value => (name, value)

/-- The channels an input opens a thread with; keys that are no channel are left out. -/
def openChannels (input : Dict) : Channels :=
  mergeUpdate flowState (fun _ => none) fun name =>
    if name ∈ channelNames then input.get name else none

/-- What the mirror and the channels have in common when they are equal: the plain channels as
    they are, the dict channels as maps. -/
structure Agrees (mirror : Dict) (channels : Channels) : Prop where
  plain : ∀ name ∈ plainChannels, mirror.get name = channels name
  dict : ∀ name ∈ dictChannels, ∀ key,
    (asDict (mirror.get name)).get key = (asDict (channels name)).get key

/-- A run state as Python has it: the dicts in it have each key once. -/
structure RunInput where
  fields : Dict
  distinct : ∀ name ∈ dictChannels, (asDict (fields.get name)).Distinct

/-- A graph `compile` took: `add_node` refuses a node named like a channel. -/
structure CompiledGraph extends Graph where
  named : ∀ node ∈ nodes, node.id ∉ channelNames

theorem get_filterMap (channels : Channels) (key : String) (names : List String) :
    Dict.get (names.filterMap fun name => (channels name).map fun value => (name, value)) key =
      if key ∈ names then channels key else none := by
  induction names with
  | nil => rfl
  | cons name names ih =>
    cases hc : channels name with
    | none =>
      rw [List.filterMap_cons_none (by rw [hc]; rfl), ih]
      by_cases hkey : key = name
      · subst hkey
        simp [hc]
      · simp [hkey]
    | some value =>
      rw [List.filterMap_cons_some (by rw [hc]; rfl)]
      by_cases hkey : key = name
      · subst hkey
        simp [Dict.get, hc]
      · simp [Dict.get, Ne.symm hkey, hkey, ih]

/-- A node reads a channel's value under the channel's name. -/
theorem get_stateView {channels : Channels} {name : String} (h : name ∈ channelNames) :
    (stateView channels).get name = channels name := by
  rw [stateView, get_filterMap, if_pos h]

theorem plain_not_dict : ∀ name ∈ plainChannels, name ∉ dictChannels := by decide

/-- A thread is opened with what its input says. -/
theorem agrees_open (input : RunInput) : Agrees input.fields (openChannels input.fields) := by
  constructor
  · intro name hname
    have hmem : name ∈ channelNames := List.mem_append_left _ hname
    have hkind : flowState name = .plain := if_neg (plain_not_dict name hname)
    cases hget : input.fields.get name with
    | none => simp [openChannels, mergeUpdate, hmem, hget]
    | some value => simp [openChannels, mergeUpdate, hmem, hget, hkind, Channel.write]
  · intro name hname key
    have hmem : name ∈ channelNames := List.mem_append_right _ hname
    have hkind : flowState name = .folded mergeDictChannel := if_pos hname
    cases hget : input.fields.get name with
    | none => simp [openChannels, mergeUpdate, hmem, hget]
    | some value =>
      have hdistinct := input.distinct name hname
      rw [hget] at hdistinct
      simp only [openChannels, mergeUpdate, if_pos hmem, hget, hkind, Channel.write,
        mergeDictChannel, asDict, Dict.get_update, Dict.get, Option.or_none]
      exact (Dict.get_reverse hdistinct key).symm

/-! ### Nodes -/

/-- What `_load_agent_context` gives: each source an agent requires with what its loader returned.
    `required_sources` are the names `_CONTEXT_REF_RE` finds in the agent's instructions. -/
structure LoadedContext where
  sources : Dict
  distinct : sources.Distinct
  identifiers : ∀ source ∈ sources.map Prod.fst, isIdentifier source = true
  deriving DecidableEq

def LoadedContext.none : LoadedContext := ⟨[], List.nodup_nil, nofun⟩

/-- What an action's or an agent's handler returns: its result under its id; an agent that loaded
    context adds it under `context`. -/
def handlerResult (node : FlowNode) (value : Json) (loaded : LoadedContext) : Dict :=
  if node.type = .aiAgent ∧ loaded.sources ≠ [] then
    Dict.set [(node.id, value)] "context" (.obj loaded.sources)
  else [(node.id, value)]

/-- A node of the superstep that is done: the result and the loaded context its handler had, what
    the handler returned, and the update the node returned. -/
structure Completed where
  node : FlowNode
  value : Json
  loaded : LoadedContext
  output : Dict
  update : Dict
  deriving DecidableEq

/-- Its update as writes to channels. -/
def Completed.writes (c : Completed) : String → Option Json := fun name => c.update.get name

/-- Which edge a router picks: its edges, its default, the state. -/
abbrev Router := List FlowEdge → String → Dict → String

/-- Where a source leads on in a state; an edge the mapping does not have leads nowhere. -/
def targetsOf (router : Router) (state : Dict) : Route → List Target
  | .direct targets => targets
  | .conditional edges default mapping =>
    ((mapping.find? fun entry => entry.1 == router edges default state).map Prod.snd).toList

def nodeOf : Target → Option String
  | .finish => none
  | .node id => some id

/-! ### The run -/

/-- A stream between two of its events. `own` is a ghost: the result of every node that completed,
    the last one of each. `cancelled` and `dropped` are what the superstep that ended the run left
    behind: the nodes cut off and the updates no channel took. -/
structure State where
  channels : Channels
  mirror : Dict
  tasks : List String
  done : List Completed
  own : Dict
  cancelled : List String
  dropped : List Completed
  ended : Bool

/-- `finish`: a node's handler returned. `close`: the superstep's updates are applied, in an order
    of LangGraph's. `raise`: a node failed or reached a checkpoint. -/
inductive Action where
  | finish (id : String) (value : Json) (loaded : LoadedContext)
  | close (order : List Completed)
  | raise (id : String)

/-- The state a router reads: the channels with the node's own writes. -/
def routerState (channels : Channels) (c : Completed) : Dict :=
  stateView (mergeUpdate flowState channels c.writes)

/-- The nodes of the next superstep, each once. -/
def nextTasks (g : CompiledGraph) (router : Router) (channels : Channels)
    (done : List Completed) : List String :=
  (done.flatMap fun c =>
    match g.routes.find? fun entry => entry.1 == c.node.id with
    | some (_, route) => (targetsOf router (routerState channels c) route).filterMap nodeOf
    | none => []).dedup

/-- The result of a node, where it has one of its own. -/
def record (own : Dict) (c : Completed) : Dict :=
  if c.node.type = .action ∨ c.node.type = .aiAgent then own.set c.node.id c.value else own

def finishNode (g : CompiledGraph) (s : State) (id : String) (value : Json) (loaded : LoadedContext) :
    Option State :=
  if id ∈ s.tasks ∧ s.ended = false then
    (g.nodes.find? fun node => node.id == id).bind fun node =>
      if node.type = .humanCheckpoint then none else
        match dispatch node (stateView s.channels) (.ok (handlerResult node value loaded)) with
        | .error _ => none
        | .ok output =>
          let c := ⟨node, value, loaded, output, nodeUpdate node (stateView s.channels) output⟩
          some { s with
            mirror := mergeState s.mirror c.update
            tasks := s.tasks.erase id
            done := s.done ++ [c] }
  else none

def closeSuperstep (g : CompiledGraph) (router : Router) (s : State) (order : List Completed) :
    Option State :=
  if s.tasks = [] ∧ s.done ≠ [] ∧ s.ended = false ∧ order.Perm s.done then
    if Accepted flowState channelNames (order.map Completed.writes) then
      let tasks := nextTasks g router s.channels s.done
      some { s with
        channels := superstep flowState s.channels (order.map Completed.writes)
        tasks := tasks
        done := []
        own := s.done.foldl record s.own
        ended := tasks.isEmpty }
    else some { s with done := [], dropped := s.done, ended := true }
  else none

def raiseNode (s : State) (id : String) : Option State :=
  if id ∈ s.tasks ∧ s.ended = false then
    some { s with
      tasks := []
      done := []
      cancelled := s.tasks.erase id
      dropped := s.done
      ended := true }
  else none

def step (g : CompiledGraph) (router : Router) (s : State) : Action → Option State
  | .finish id value loaded => finishNode g s id value loaded
  | .close order => closeSuperstep g router s order
  | .raise id => raiseNode s id

/-- A stream that was given its input. -/
def State.start (g : CompiledGraph) (input : RunInput) : State :=
  ⟨openChannels input.fields, input.fields, [g.entry], [], [], [], [], false⟩

/-! ### What one node's update does -/

theorem asDict_obj (fields : Dict) : asDict (some (.obj fields)) = fields := rfl

/-- The outputs in the channels. -/
def outputsOf (channels : Channels) : Dict := asDict (channels "outputs")

/-- A completed node ran on these channels. -/
structure Made (channels : Channels) (c : Completed) : Prop where
  output : dispatch c.node (stateView channels) (.ok (handlerResult c.node c.value c.loaded)) =
    .ok c.output
  update : c.update = nodeUpdate c.node (stateView channels) c.output
  named : c.node.id ∉ channelNames

theorem distinct_handlerResult (node : FlowNode) (value : Json) (loaded : LoadedContext) :
    (handlerResult node value loaded).Distinct := by
  have hone : Dict.Distinct [(node.id, value)] := by simp [Dict.Distinct]
  rw [handlerResult]
  split
  case isTrue => exact hone.set "context" (.obj loaded.sources)
  case isFalse => exact hone

/-- Under a name that is no channel's, a handler's result has its own node's result alone. -/
theorem get_handlerResult (node : FlowNode) (value : Json) (loaded : LoadedContext) {key : String}
    (hkey : key ∉ channelNames) :
    (handlerResult node value loaded).get key = if key = node.id then some value else none := by
  have hone : Dict.get [(node.id, value)] key = if key = node.id then some value else none := by
    by_cases h : key = node.id
    · simp [Dict.get, h]
    · simp [Dict.get, h, Ne.symm h]
  rw [handlerResult]
  split
  case isTrue =>
    have hcontext : key ≠ "context" := by
      rintro rfl
      exact hkey (by decide)
    rw [Dict.get_set, if_neg hcontext, hone]
  case isFalse => exact hone

/-- An output node's selection has each key once, with what the outputs have under it. -/
theorem select_fold (outputs : Dict) : ∀ (keys : List Json) (selected : Dict),
    (selected.Distinct ∧
      ∀ key value, selected.get key = some value → value = (outputs.get key).getD .null) →
    ((keys.foldl (fun selected key => match key with
        | .str k => selected.set k ((outputs.get k).getD .null)
        | _ => selected) selected).Distinct ∧
      ∀ key value, (keys.foldl (fun selected key => match key with
        | .str k => selected.set k ((outputs.get k).getD .null)
        | _ => selected) selected).get key = some value →
          value = (outputs.get key).getD .null) := by
  intro keys
  induction keys with
  | nil =>
    intro selected h
    exact h
  | cons k keys ih =>
    intro selected h
    rw [List.foldl_cons]
    refine ih _ ?_
    cases k with
    | str k =>
      refine ⟨h.1.set k _, fun key value hget => ?_⟩
      rw [Dict.get_set] at hget
      by_cases hk : key = k
      · rw [if_pos hk] at hget
        rw [hk]
        exact (Option.some.inj hget).symm
      · rw [if_neg hk] at hget
        exact h.2 key value hget
    | _ => exact h

/-- A node with a handler of its own returns that handler's result; another returns nothing the
    outputs it saw do not have. -/
theorem Made.cases {channels : Channels} {c : Completed} (h : Made channels c) :
    ((c.node.type = .action ∨ c.node.type = .aiAgent) ∧
      c.output = handlerResult c.node c.value c.loaded) ∨
    (¬(c.node.type = .action ∨ c.node.type = .aiAgent) ∧ c.output.Distinct ∧
      ∀ key value, c.output.get key = some value →
        value = ((outputsOf channels).get key).getD .null) := by
  have hread : (stateView channels).get "outputs" = channels "outputs" :=
    get_stateView (by decide)
  have hout := h.output
  rw [dispatch] at hout
  have hnil : Dict.Distinct [] ∧ ∀ key value, Dict.get [] key = some value →
      value = ((outputsOf channels).get key).getD .null := ⟨List.nodup_nil, nofun⟩
  cases htype : c.node.type with
  | action | aiAgent =>
    rw [htype] at hout
    exact .inl ⟨by simp, (Except.ok.inj hout).symm⟩
  | condition | trigger | humanCheckpoint =>
    rw [htype] at hout
    exact .inr ⟨by simp, Except.ok.inj hout ▸ hnil⟩
  | output =>
    rw [htype] at hout
    refine .inr ⟨by simp, ?_⟩
    simp only at hout
    split at hout
    · rw [hread] at hout
      exact Except.ok.inj hout ▸ select_fold (outputsOf channels) _ [] hnil
    · exact Except.ok.inj hout ▸ hnil

theorem Made.distinct {channels : Channels} {c : Completed} (h : Made channels c) :
    c.output.Distinct := by
  rcases h.cases with ⟨_, hout⟩ | ⟨_, hdistinct, _⟩
  · rw [hout]
    exact distinct_handlerResult c.node c.value c.loaded
  · exact hdistinct

theorem Made.writes {channels : Channels} {c : Completed} (h : Made channels c) (name : String) :
    c.writes name = if name = "outputs" then some (.obj ((outputsOf channels).update c.output))
      else if name = "current_node" then some (.str c.node.id) else none := by
  have hread : (stateView channels).get "outputs" = channels "outputs" :=
    get_stateView (by decide)
  rw [Completed.writes, h.update, nodeUpdate, hread]
  by_cases ho : name = "outputs"
  · simp [Dict.get, ho, outputsOf]
  · by_cases hc : name = "current_node"
    · simp [Dict.get, hc]
    · simp [Dict.get, ho, hc, Ne.symm ho, Ne.symm hc]

/-- The channels after it. -/
theorem Made.merge {channels : Channels} {c : Completed} (h : Made channels c) (name : String) :
    mergeUpdate flowState channels c.writes name =
      if name = "outputs" then
        some (.obj ((outputsOf channels).update ((outputsOf channels).update c.output)))
      else if name = "current_node" then some (.str c.node.id) else channels name := by
  rw [mergeUpdate, h.writes]
  by_cases ho : name = "outputs"
  · subst ho
    rfl
  · by_cases hc : name = "current_node"
    · subst hc
      rfl
    · simp [ho, hc]

/-- The mirror after it. -/
theorem Made.mergeState {channels : Channels} {c : Completed} (h : Made channels c) (mirror : Dict)
    (name : String) : (mergeState mirror c.update).get name =
      if name = "outputs" then
        some (.obj ((asDict (mirror.get "outputs")).update
          ((outputsOf channels).update c.output)))
      else if name = "current_node" then some (.str c.node.id) else mirror.get name := by
  have hread : (stateView channels).get "outputs" = channels "outputs" :=
    get_stateView (by decide)
  have hmerge : LunaCore.Flow.mergeState mirror c.update =
      (mirror.set "outputs" (.obj ((asDict (mirror.get "outputs")).update
        ((outputsOf channels).update c.output)))).set "current_node" (.str c.node.id) := by
    rw [h.update, nodeUpdate, hread]
    rfl
  rw [hmerge, Dict.get_set, Dict.get_set]
  by_cases ho : name = "outputs"
  · subst ho
    rfl
  · by_cases hc : name = "current_node"
    · simp [hc]
    · simp [ho, hc]

/-- The mirror follows the channels through it. -/
theorem Made.agrees {channels : Channels} {c : Completed} (h : Made channels c) {mirror : Dict}
    (hm : Agrees mirror channels) :
    Agrees (LunaCore.Flow.mergeState mirror c.update)
      (mergeUpdate flowState channels c.writes) := by
  constructor
  · intro name hname
    have ho : name ≠ "outputs" := by
      rintro rfl
      exact absurd hname (by decide)
    rw [h.mergeState, h.merge, if_neg ho, if_neg ho, hm.plain name hname]
  · intro name hname key
    rw [h.mergeState, h.merge]
    by_cases ho : name = "outputs"
    · have hbase := hm.dict "outputs" (by decide) key
      simp only [if_pos ho, asDict_obj, Dict.get_update _ ((outputsOf channels).update c.output)]
      rw [hbase]
      rfl
    · have hc : name ≠ "current_node" := by
        rintro rfl
        exact absurd hname (by decide)
      rw [if_neg ho, if_neg ho, if_neg hc, if_neg hc]
      exact hm.dict name hname key

/-- A key of the outputs reads what the node returned, and what it read where it returned nothing
    under the key. -/
theorem Made.outputs {channels : Channels} {c : Completed} (h : Made channels c)
    (hdistinct : (outputsOf channels).Distinct) (key : String) :
    (outputsOf (mergeUpdate flowState channels c.writes)).get key =
      (c.output.get key).or ((outputsOf channels).get key) := by
  rw [outputsOf, h.merge, if_pos rfl, asDict_obj, Dict.get_update,
    Dict.get_reverse (hdistinct.update c.output), Dict.get_update,
    Dict.get_reverse h.distinct]
  cases c.output.get key with
  | none => cases (outputsOf channels).get key <;> rfl
  | some value => rfl

/-- Results stay in the outputs, and a node that runs again puts its new one there. -/
theorem Made.results {channels : Channels} {c : Completed} (h : Made channels c) {own : Dict}
    (hdistinct : (outputsOf channels).Distinct) (hnames : ∀ name ∈ channelNames, own.get name = none)
    (hown : ∀ id value, own.get id = some value → (outputsOf channels).get id = some value)
    {id : String} {value : Json} (hid : (record own c).get id = some value) :
    (outputsOf (mergeUpdate flowState channels c.writes)).get id = some value := by
  rw [h.outputs hdistinct]
  rcases h.cases with ⟨htype, hout⟩ | ⟨htype, _, hselect⟩
  · rw [record, if_pos htype, Dict.get_set] at hid
    have hkey : id ∉ channelNames := by
      intro hmem
      have hne : id ≠ c.node.id := fun heq => h.named (heq ▸ hmem)
      rw [if_neg hne, hnames id hmem] at hid
      cases hid
    rw [hout, get_handlerResult c.node c.value c.loaded hkey]
    by_cases heq : id = c.node.id
    · rw [if_pos heq] at hid ⊢
      rw [hid]
      rfl
    · rw [if_neg heq] at hid ⊢
      exact hown id value hid
  · rw [record, if_neg htype] at hid
    have hseen := hown id value hid
    cases hget : c.output.get id with
    | none => exact hseen
    | some v =>
      rw [hselect id v hget, hseen]
      rfl

/-! ### What the mirror is for -/

/-- The end of a superstep left nothing behind, the mirror is what the channels are, and it holds
    what every node that completed returned: those just done all of it, and each its result. -/
structure Mirrored (s t : State) : Prop where
  uncancelled : t.cancelled = []
  kept : t.dropped = []
  agrees : Agrees t.mirror t.channels
  returned : ∀ c ∈ s.done, ∀ key value, c.output.get key = some value →
    (asDict (t.mirror.get "outputs")).get key = some value
  results : ∀ id value, t.own.get id = some value →
    (asDict (t.mirror.get "outputs")).get id = some value

/-- Every end of a superstep is mirrored. -/
def MirroredEnd (s : State) : Action → State → Prop
  | .finish _ _ _, _ => True
  | .close _, t | .raise _, t => Mirrored s t

/-- One node to the superstep. -/
def Alone (s : State) : Action → Prop
  | .finish _ _ _ => True
  | .close _ | .raise _ => s.done.length + s.tasks.length ≤ 1

/-! ### Runs -/

/-- A stream between two events of one superstep: the mirror is the channels with the updates of
    the nodes done merged into it, and the channels hold every result. -/
structure Live (s : State) : Prop where
  base : ∃ base, Agrees base s.channels ∧
    s.mirror = s.done.foldl (fun mirror c => mergeState mirror c.update) base
  made : ∀ c ∈ s.done, Made s.channels c
  distinct : (outputsOf s.channels).Distinct
  names : ∀ name ∈ channelNames, s.own.get name = none
  results : ∀ id value, s.own.get id = some value → (outputsOf s.channels).get id = some value
  clean : s.cancelled = [] ∧ s.dropped = []

/-- The invariant: a stream that has not ended is live. -/
def Inv (s : State) : Prop := s.ended = false → Live s

theorem inv_start (g : CompiledGraph) (input : RunInput) : Inv (State.start g input) := by
  intro _
  refine ⟨⟨input.fields, agrees_open input, rfl⟩, nofun, ?_, fun _ _ => rfl, nofun, rfl, rfl⟩
  have hnil : Dict.Distinct [] := List.nodup_nil
  simp only [outputsOf, State.start, openChannels, mergeUpdate]
  split
  · exact hnil
  · exact hnil.update _

variable {g : CompiledGraph} {router : Router}

/-- A node that is done ran on the superstep's channels, and its update is merged. -/
theorem finishNode_cases {s t : State} {id : String} {value : Json} {loaded : LoadedContext}
    (h : finishNode g s id value loaded = some t) : s.ended = false ∧ ∃ c, Made s.channels c ∧
      (g.nodes.find? fun node => node.id == id) = some c.node ∧ c.loaded = loaded ∧
      t = { s with
        mirror := mergeState s.mirror c.update, tasks := s.tasks.erase id, done := s.done ++ [c] } := by
  rw [finishNode] at h
  split at h
  case isFalse => cases h
  case isTrue hcond =>
    obtain ⟨node, hnode, h⟩ := Option.bind_eq_some_iff.mp h
    split at h
    case isTrue => cases h
    case isFalse =>
      split at h
      case h_1 => cases h
      case h_2 output hout =>
        refine ⟨hcond.2, _, ⟨hout, rfl, ?_⟩, hnode, rfl, (Option.some.inj h).symm⟩
        exact g.named node (List.mem_of_find?_eq_some hnode)

/-- The updates of a superstep are accepted when they are one node's. -/
theorem accepted_iff {s : State} (hl : Live s) {order : List Completed} (hp : order.Perm s.done) :
    Accepted flowState channelNames (order.map Completed.writes) ↔ s.done.length ≤ 1 := by
  constructor
  · intro hacc
    have hcurrent : ∀ u ∈ order.map Completed.writes, (u "current_node").isSome := by
      intro u hu
      obtain ⟨c, hc, rfl⟩ := List.mem_map.mp hu
      rw [(hl.made c (hp.mem_iff.mp hc)).writes]
      rfl
    have hlen := hacc.length_le (k := "current_node") (by decide) rfl hcurrent
    rwa [List.length_map, hp.length_eq] at hlen
  · intro hlen
    rw [← hp.length_eq] at hlen
    match order, hlen with
    | [], _ => exact fun k _ => by cases flowState k <;> simp [writesTo, Channel.Accepts]
    | [c], _ => exact accepted_singleton channelNames c.writes

/-- A superstep of one node ends with its update in the channels. -/
theorem close_one {s t : State} {order : List Completed} {c : Completed} (hl : Live s)
    (hdone : s.done = [c]) (h : closeSuperstep g router s order = some t) :
    t = { s with
      channels := mergeUpdate flowState s.channels c.writes
      tasks := nextTasks g router s.channels [c]
      done := []
      own := record s.own c
      ended := (nextTasks g router s.channels [c]).isEmpty } := by
  rw [closeSuperstep] at h
  split at h
  case isFalse => cases h
  case isTrue hcond =>
    have hp := hcond.2.2.2
    have hacc := (accepted_iff hl hp).mpr (by simp [hdone])
    have horder : order = [c] := List.perm_singleton.mp (hdone ▸ hp)
    rw [if_pos hacc] at h
    obtain rfl := Option.some.inj h
    rw [horder, hdone, List.map_singleton, superstep_eq_foldl]
    rfl

/-- A superstep of more is refused, and its updates with it. -/
theorem close_more {s t : State} {order : List Completed} (hl : Live s)
    (hdone : ¬ s.done.length ≤ 1) (h : closeSuperstep g router s order = some t) :
    t = { s with done := [], dropped := s.done, ended := true } := by
  rw [closeSuperstep] at h
  split at h
  case isFalse => cases h
  case isTrue hcond =>
    rw [if_neg fun hacc => hdone ((accepted_iff hl hcond.2.2.2).mp hacc)] at h
    exact (Option.some.inj h).symm

theorem close_live {s t : State} {order : List Completed}
    (h : closeSuperstep g router s order = some t) :
    s.ended = false ∧ s.tasks = [] ∧ s.done ≠ [] := by
  rw [closeSuperstep] at h
  split at h
  case isFalse => cases h
  case isTrue hcond => exact ⟨hcond.2.2.1, hcond.1, hcond.2.1⟩

theorem raiseNode_cases {s t : State} {id : String} (h : raiseNode s id = some t) :
    s.ended = false ∧ id ∈ s.tasks ∧
      t = { s with
        tasks := [], done := [], cancelled := s.tasks.erase id, dropped := s.done, ended := true } := by
  rw [raiseNode] at h
  split at h
  case isFalse => cases h
  case isTrue hcond => exact ⟨hcond.2, hcond.1, (Option.some.inj h).symm⟩

/-- The mirror before any node of the superstep is done. -/
theorem Live.mirrored {s : State} (hl : Live s) (hdone : s.done = []) :
    Agrees s.mirror s.channels := by
  obtain ⟨base, hbase, hmirror⟩ := hl.base
  rw [hmirror, hdone]
  exact hbase

/-- The end of a superstep of one node: everything it returned is in the channels and the mirror. -/
theorem mirrored_one {s t : State} {order : List Completed} {c : Completed} (hl : Live s)
    (hdone : s.done = [c]) (h : closeSuperstep g router s order = some t) :
    Mirrored s t ∧ Live t := by
  obtain ⟨base, hbase, hmirror⟩ := hl.base
  have hmade : Made s.channels c := hl.made c (by simp [hdone])
  rw [hdone, List.foldl_cons, List.foldl_nil] at hmirror
  have hagrees : Agrees s.mirror (mergeUpdate flowState s.channels c.writes) :=
    hmirror ▸ hmade.agrees hbase
  have hresults : ∀ id value, (record s.own c).get id = some value →
      (outputsOf (mergeUpdate flowState s.channels c.writes)).get id = some value :=
    fun _ _ => hmade.results hl.distinct hl.names hl.results
  obtain rfl := close_one hl hdone h
  refine ⟨⟨hl.clean.1, hl.clean.2, hagrees, ?_, ?_⟩,
    ⟨⟨s.mirror, hagrees, rfl⟩, nofun, ?_, ?_, hresults, hl.clean⟩⟩
  · intro c' hc' key value hget
    obtain rfl : c' = c := by simpa [hdone] using hc'
    rw [hagrees.dict "outputs" (by decide) key]
    exact (hmade.outputs hl.distinct key).trans (by rw [hget]; rfl)
  · intro id value hid
    rw [hagrees.dict "outputs" (by decide) id]
    exact hresults id value hid
  · have hout := hmade.merge "outputs"
    rw [if_pos rfl] at hout
    simp only [outputsOf, hout, asDict_obj]
    exact hl.distinct.update _
  · intro name hname
    have hne : name ≠ c.node.id := fun heq => hmade.named (heq ▸ hname)
    simp only [record]
    split
    · rw [Dict.get_set, if_neg hne, hl.names name hname]
    · exact hl.names name hname

/-- STEP: a live stream that goes on stays live. -/
theorem inv_step (s : State) (a : Action) (t : State) (hs : Inv s)
    (h : step g router s a = some t) : Inv t := by
  intro hlive
  cases a with
  | finish id value loaded =>
    obtain ⟨hended, c, hmade, _, _, rfl⟩ := finishNode_cases h
    have hl := hs hended
    obtain ⟨base, hbase, hmirror⟩ := hl.base
    refine ⟨⟨base, hbase, ?_⟩, ?_, hl.distinct, hl.names, hl.results, hl.clean⟩
    · rw [List.foldl_append, ← hmirror]
      rfl
    · intro c' hc'
      rcases List.mem_append.mp hc' with hold | hnew
      · exact hl.made c' hold
      · exact List.mem_singleton.mp hnew ▸ hmade
  | close order =>
    obtain ⟨hended, _, hne⟩ := close_live h
    have hl := hs hended
    by_cases hlen : s.done.length ≤ 1
    · obtain ⟨c, hdone⟩ : ∃ c, s.done = [c] :=
        List.length_eq_one_iff.mp (le_antisymm hlen (List.length_pos_of_ne_nil hne))
      exact (mirrored_one hl hdone h).2
    · obtain rfl := close_more hl hlen h
      cases hlive
  | raise id =>
    obtain ⟨_, _, rfl⟩ := raiseNode_cases h
    cases hlive

/-- The end of a superstep is mirrored just when one node was in it. -/
theorem mirroredEnd_iff (s : State) (a : Action) (t : State) (hs : Inv s)
    (h : step g router s a = some t) : MirroredEnd s a t ↔ Alone s a := by
  cases a with
  | finish id value loaded => exact Iff.rfl
  | close order =>
    obtain ⟨hended, htasks, hne⟩ := close_live h
    have hl := hs hended
    have hpos : 1 ≤ s.done.length := List.length_pos_of_ne_nil hne
    rw [MirroredEnd, Alone, htasks, List.length_nil, Nat.add_zero]
    constructor
    · intro hm
      by_contra hlen
      have hkept := hm.kept
      rw [close_more hl hlen h] at hkept
      exact hne hkept
    · intro hlen
      obtain ⟨c, hdone⟩ : ∃ c, s.done = [c] := List.length_eq_one_iff.mp (le_antisymm hlen hpos)
      exact (mirrored_one hl hdone h).1
  | raise id =>
    obtain ⟨hended, hmem, rfl⟩ := raiseNode_cases h
    have hl := hs hended
    have herase : (s.tasks.erase id).length = s.tasks.length - 1 := List.length_erase_of_mem hmem
    have hpos : 0 < s.tasks.length := List.length_pos_of_mem hmem
    rw [MirroredEnd, Alone]
    constructor
    · intro hm
      have hcut : s.tasks.erase id = [] := hm.uncancelled
      have hkept : s.done = [] := hm.kept
      rw [hcut, List.length_nil] at herase
      rw [hkept, List.length_nil]
      omega
    · intro hlen
      have hdone : s.done = [] := List.eq_nil_of_length_eq_zero (by omega)
      have hagrees := hl.mirrored hdone
      have hcut : s.tasks.erase id = [] := List.eq_nil_of_length_eq_zero (by omega)
      refine ⟨hcut, hdone, hagrees, ?_, ?_⟩
      · intro c hc
        rw [hdone] at hc
        cases hc
      · intro id value hid
        rw [hagrees.dict "outputs" (by decide) id]
        exact hl.results id value hid

/-- RUN: the mirror is the channels' state at the end of every superstep of a run, with every
    node's output in it, just when the run never had two nodes in one superstep. -/
theorem mirrored_run_iff (g : CompiledGraph) (router : Router) (input : RunInput)
    (as : List Action) :
    EveryStep (step g router) MirroredEnd (State.start g input) as ↔
      Guarded (step g router) Alone (State.start g input) as :=
  everyStep_iff_guarded (fun s a t hs _ h => inv_step s a t hs h) mirroredEnd_iff
    (inv_start g input)

/-- A fetch that two publishers wait for. -/
def fanOut : FlowDefinition :=
  ⟨"fetch",
    [⟨"fetch", .action, "Fetch", []⟩, ⟨"mail", .action, "Mail", []⟩,
      ⟨"post", .action, "Post", []⟩],
    [⟨"fetch", "mail", none⟩, ⟨"fetch", "post", none⟩]⟩

def fanOutGraph : CompiledGraph where
  entry := "fetch"
  nodes := fanOut.nodes
  routes :=
    [("fetch", .direct [.node "mail", .node "post"]), ("mail", .direct [.finish]),
      ("post", .direct [.finish])]
  named := by decide

/-- A node of it that is done, with the outputs it saw. -/
def published (id name : String) (seen : Dict) : Completed :=
  ⟨⟨id, .action, name, []⟩, .str "ok", .none, [(id, .str "ok")],
    [("outputs", .obj (seen.update [(id, .str "ok")])), ("current_node", .str id)]⟩

/-- The run of `fanOut`: both publishers succeed, and the superstep is refused. -/
theorem fan_out_refused : ¬ ∀ (d : FlowDefinition) (g : CompiledGraph) (router : Router)
    (input : RunInput) (as : List Action), buildGraph d = .ok g.toGraph →
    EveryStep (step g router) MirroredEnd (State.start g input) as := by
  intro hall
  have hrun := hall fanOut fanOutGraph (fun _ default _ => default) ⟨[("outputs", .obj [])], by decide⟩
    ([.finish "fetch" (.str "ok") .none, .close [published "fetch" "Fetch" []],
        .finish "mail" (.str "ok") .none, .finish "post" (.str "ok") .none] ++
      .close [published "mail" "Mail" [("fetch", .str "ok")],
        published "post" "Post" [("fetch", .str "ok")]] :: []) rfl
  have hend : Mirrored _ _ := EveryStep.at hrun rfl rfl
  exact absurd hend.kept (by decide)

end LunaCore.Flow.Supersteps
