import LunaCore.Schemes.Scoped
import LunaCore.Stream.IterationFilter

/-! Which iteration an event is tagged with, while iterations run side by side.

        node ─┬─ spawn ─▶ started a ── with iteration_scope(a): agent, tools … ── completed a
              └─ spawn ─▶ started b ── with iteration_scope(b): agent … raised ──▶ failed b

    The agent inside knows nothing of its iteration: the tag is read from a context variable at the
    moment of the emit, whatever the other iterations have done to theirs since. -/

namespace LunaCore.Stream.IterationTags
open LunaCore.Values LunaCore.Schemes LunaCore.Stream.IterationFilter

/-- What is handed to an emit. -/
structure Emitted where
  eventType : String
  payload : Option Dict

/-- `iteration_scope`: the iteration inside is the block's. -/
def iterationScope (iterationId : String) (_ : Option String) : Option String := some iterationId

/-- `inject_iteration_tag`, where that is the iteration of the current context. -/
def injectIterationTag (iterationId : Option String) (payload : Option Dict) : Dict :=
  match iterationId, payload with
  | none, payload => payload.getD []
  | some id, none => [("iteration_id", .str id)]
  | some id, some payload =>
    if (Dict.get payload "iteration_id").isSome then payload
    else Dict.set payload "iteration_id" (.str id)

/-- The message `publish_run_event` publishes. -/
def runEvent (eventId flowRunId timestamp : String) (sequence : ℤ) (nodeId : Json)
    (e : Emitted) (iterationId : Option String) : Dict :=
  [("id", .str eventId), ("flow_run_id", .str flowRunId), ("sequence", .num sequence),
    ("timestamp", .str timestamp), ("event_type", .str e.eventType), ("node_id", nodeId),
    ("payload", .obj (injectIterationTag iterationId e.payload))]

/-- What `_extract_routing_keys` reads off an event that was tagged. -/
def routingKeys (e : Emitted) (iterationId : Option String) : Option String × Option String :=
  ((Dict.get (injectIterationTag iterationId e.payload) "iteration_id").bind str?, some e.eventType)

/-- One iteration of a scratchpad node: its ids, what its agent run does, and what is told of it. -/
structure Iteration where
  id : String
  index : ℤ
  itemId : String
  collection : String
  body : Prog String Emitted
  durationMs : ℤ
  error : String

def Iteration.payload (it : Iteration) (more : Dict) : Option Dict :=
  some ([("iteration_id", .str it.id), ("iteration_index", .num it.index),
    ("item_id", .str it.itemId), ("collection", .str it.collection)] ++ more)

def Iteration.started (it : Iteration) : Emitted := ⟨"iteration_started", it.payload []⟩

def Iteration.completed (it : Iteration) : Emitted :=
  ⟨"iteration_completed", it.payload [("duration_ms", .num it.durationMs)]⟩

def Iteration.failed (it : Iteration) : Emitted :=
  ⟨"iteration_failed", it.payload [("duration_ms", .num it.durationMs), ("error", .str it.error)]⟩

/-- `_execute_single_scratchpad_iteration`, past its checks. -/
def Iteration.run (it : Iteration) : Prog String Emitted :=
  .note it.started (.guarded (.block it.id it.body .done) (.note it.failed .raised)
    (.note it.completed .done))

/-- How the iterations of a node are run: one after the other, where a failed one stops the node or
    not, or side by side. -/
inductive ExecutionMode where
  | sequential (continues : Bool)
  | parallel
  deriving DecidableEq

/-- `_run_scratchpad_iterations_sequential` and `_run_scratchpad_iterations_parallel`, over the
    iterations that come to run. -/
def runIterations (mode : ExecutionMode) (iterations : List Iteration) : Prog String Emitted :=
  iterations.foldr (fun it next => match mode with
    | .parallel => .spawn it.run next
    | .sequential continues => .guarded it.run (if continues then .done else .raised) next) .done

/-- An agent's run opens no iteration of its own, and its events bear no iteration id. -/
def Untagged (body : Prog String Emitted) : Prop :=
  (body.Blocks fun _ => False) ∧
    ∀ e ∈ body.events, ∀ payload ∈ e.payload, Dict.get payload "iteration_id" = none

/-- An event with the keys it is routed by. -/
def routed (note : Emitted × Option String) : Emitted × (Option String × Option String) :=
  (note.1, routingKeys note.1 note.2)

/-- An event of an iteration, with the keys it should be routed by. -/
def Iteration.owned (it : Iteration) (e : Emitted) :
    Emitted × (Option String × Option String) := (e, some it.id, some e.eventType)

/-- What the pump and the send loops read off a published event. -/
theorem extractRoutingKeys_runEvent {loads : String → Providers.Loaded} {text eventId flowRunId
    timestamp : String} {sequence : ℤ} {nodeId : Json} {e : Emitted} {iterationId : Option String}
    (h : loads text = .value (.obj
      (runEvent eventId flowRunId timestamp sequence nodeId e iterationId))) :
    extractRoutingKeys loads text = some (routingKeys e iterationId) := by
  rw [extractRoutingKeys, h]
  rfl

/-- An event without an iteration id gets that of its context. -/
theorem routed_untagged {e : Emitted} {id : String}
    (h : ∀ payload ∈ e.payload, Dict.get payload "iteration_id" = none) :
    routed (e, some id) = (e, some id, some e.eventType) := by
  obtain ⟨eventType, payload⟩ := e
  cases payload with
  | none => rfl
  | some payload =>
    have hnone : Dict.get payload "iteration_id" = none := h payload rfl
    simp [routed, routingKeys, injectIterationTag, hnone, Dict.get_set_self, str?]

/-- The events of an iteration's life bear its id themselves. -/
theorem routed_lifecycle (it : Iteration) (eventType : String) (more : Dict)
    (iterationId : Option String) :
    routed (⟨eventType, it.payload more⟩, iterationId) = it.owned ⟨eventType, it.payload more⟩ := by
  cases iterationId <;> rfl

/-- Whatever an iteration emits, as the text of the code has it, is routed by its own id. -/
theorem routed_run {it : Iteration} (h : Untagged it.body) :
    (it.run.lexical iterationScope none).map routed = it.run.events.map it.owned := by
  have hbody : (it.body.lexical iterationScope (some it.id)).map routed =
      it.body.events.map it.owned := by
    rw [← map_fst_lexical iterationScope (some it.id), Multiset.map_map]
    refine Multiset.map_congr rfl fun note hnote => ?_
    obtain ⟨e, iterationId⟩ := note
    obtain rfl : iterationId = some it.id :=
      lexical_values (fun value => value = some it.id) (fun _ _ hno => hno.elim) h.1 rfl
        _ hnote
    refine routed_untagged (h.2 e ?_)
    rw [← map_fst_lexical iterationScope (some it.id)]
    exact Multiset.mem_map_of_mem Prod.fst hnote
  simp only [Iteration.run, Prog.lexical, Prog.events, iterationScope, Multiset.map_cons,
    Multiset.map_add, Multiset.map_zero, hbody, Iteration.started, Iteration.failed,
    Iteration.completed, routed_lifecycle]

theorem routed_runIterations (mode : ExecutionMode) {iterations : List Iteration}
    (h : ∀ it ∈ iterations, Untagged it.body) :
    ((runIterations mode iterations).lexical iterationScope none).map routed =
      (iterations.map fun it => it.run.events.map it.owned).sum := by
  induction iterations with
  | nil => rfl
  | cons it iterations ih =>
    have hrest := ih fun other hother => h other (List.mem_cons_of_mem _ hother)
    rw [List.map_cons, List.sum_cons, ← hrest, ← routed_run (h it List.mem_cons_self)]
    cases mode with
    | parallel => exact Multiset.map_add _ _ _
    | sequential continues =>
      have hhandler : (if continues then Prog.done else Prog.raised : Prog String Emitted).lexical
          iterationScope none = 0 := by cases continues <;> rfl
      rw [runIterations, List.foldr_cons]
      simp only [Prog.lexical, hhandler, add_zero, Multiset.map_add]
      rfl

/-- SAFETY: however the iterations of a node are run and interleaved, and wherever they fail, each
    event that is published is one of an iteration, as often as it stands there, and is routed by
    the id of that iteration. -/
theorem iterationTags_run {mode : ExecutionMode} {iterations : List Iteration}
    {as : List TaskAction} {t : Tasks String Emitted (Option String)}
    (hbodies : ∀ it ∈ iterations, Untagged it.body)
    (h : runFrom (tasksStep iterationScope) (Tasks.start none (runIterations mode iterations)) as =
      some t) :
    (t.notes.map routed : Multiset (Emitted × (Option String × Option String))) ≤
      (iterations.map fun it => it.run.events.map it.owned).sum := by
  rw [← routed_runIterations mode hbodies, ← Multiset.map_coe]
  exact Multiset.map_le_map (notes_le h)

/-- An iteration whose agent calls one tool. -/
def oneTool (id : String) : Iteration :=
  ⟨id, 0, "rec", "jobs", .note ⟨"tool_called", some [("name", .str "score")]⟩ .done, 5, "boom"⟩

/-- Two iterations side by side; the second fails while the first has its tool called. -/
def interleaved : List TaskAction :=
  [.advance 0, .advance 0, .advance 2, .advance 1, .advance 2, .advance 2, .advance 1, .advance 1,
    .fail 2, .advance 1, .advance 2]

theorem iterationTags_run_interleaved : ∃ t, runFrom (tasksStep iterationScope)
    (Tasks.start none (runIterations .parallel [oneTool "a", oneTool "b"])) interleaved = some t ∧
    t.notes.map (fun note => (routed note).2) =
      [(some "b", some "iteration_started"), (some "a", some "iteration_started"),
        (some "a", some "tool_called"), (some "b", some "iteration_failed")] ∧
    (t.notes.map routed : Multiset (Emitted × (Option String × Option String))) ≤
      ([oneTool "a", oneTool "b"].map fun it => it.run.events.map it.owned).sum :=
  ⟨_, rfl, rfl, @iterationTags_run .parallel _ interleaved _
    (by simp [oneTool, Untagged, Prog.Blocks, Prog.events, Dict.get]) rfl⟩

end LunaCore.Stream.IterationTags
