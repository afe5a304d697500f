import Mathlib.Order.Nat
import LunaCore.Schemes.Machine
import LunaCore.Flow.Definition

/-! One FlowRun: its row, its Redis keys, the task queue, and every worker and abort request on it.

    The API enqueues a run task when it creates the row and a resume task for each resume request;
    a worker takes a task and goes through `FlowRunner.run` or `resume` and then `_execute`:

        run     get row ────────────────────────────────┐
        resume  get row, check paused → save → emit ────┤
                                                        ↓
                compile, write running → refresh → (emit flow_started) → build state → persist
                                                        ↓
                astream: nodes start and finish, updates are consumed and persisted
                                                        ↓
                paused: write, persist        ended: emit, write, clean up

    Every arrow is a step of its own; any number of workers and abort requests interleave. A task is
    acknowledged when it ends, so a crash puts it back, and the broker may hand it out again before.

    A worker writes the row through its session: `set_run_status` assigns to the copy it loaded and
    a commit sends the columns that differ from what was loaded. -/

namespace LunaCore.Flow
open LunaCore.Values LunaCore.Schemes

inductive FlowRunStatus where
  | pending | running | paused | completed | failed
  deriving DecidableEq

/-- `status in (completed, failed)`. -/
def FlowRunStatus.terminal : FlowRunStatus → Bool
  | .completed | .failed => true
  | _ => false

def FlowRunStatus.value : FlowRunStatus → String
  | .pending => "pending"
  | .running => "running"
  | .paused => "paused"
  | .completed => "completed"
  | .failed => "failed"

structure FlowRun where
  flowId : String
  status : FlowRunStatus
  trigger : Dict
  state : Dict
  createdAt : Option String
  startedAt : Option String
  completedAt : Option String
  deriving DecidableEq

inductive RunEventType where
  | flowStarted | flowCompleted | flowFailed
  | nodeStarted | nodeCompleted | nodeFailed
  | humanCheckpoint | humanResponse
  deriving DecidableEq

structure RunEvent where
  type : RunEventType
  nodeId : Option String
  payload : Dict
  deriving DecidableEq

inductive AgentMessageRole where
  | system | user | assistant
  deriving DecidableEq

structure AgentMessage where
  nodeId : String
  role : AgentMessageRole
  content : List Json
  deriving DecidableEq

/-! ### Writing the row -/

/-- What `set_run_status` assigns on the session's copy. -/
def assignStatus (seen : FlowRun) (status : FlowRunStatus) (state : Option Dict) (now : String) :
    FlowRun :=
  { seen with
    status := status
    state := state.getD seen.state
    startedAt := if status = .running ∧ seen.startedAt = none then some now else seen.startedAt
    completedAt := if status.terminal then some now else seen.completedAt }

/-- A column after an UPDATE: a value equal to the loaded one is not sent. -/
def column {β : Type} [DecidableEq β] (loaded assigned stored : β) : β :=
  if assigned = loaded then stored else assigned

/-- The commit of an assigned copy. -/
def flush (seen assigned row : FlowRun) : FlowRun :=
  { row with
    status := column seen.status assigned.status row.status
    state := column seen.state assigned.state row.state
    startedAt := column seen.startedAt assigned.startedAt row.startedAt
    completedAt := column seen.completedAt assigned.completedAt row.completedAt }

/-- `set_run_status` up to its refresh: the row it leaves. -/
def setRunStatus (seen row : FlowRun) (status : FlowRunStatus) (state : Option Dict)
    (now : String) : FlowRun :=
  flush seen (assignStatus seen status state now) row

theorem setRunStatus_status (seen row : FlowRun) (status : FlowRunStatus) (state : Option Dict)
    (now : String) : (setRunStatus seen row status state now).status =
      if status = seen.status then row.status else status := rfl

/-! ### The run state -/

/-- A value read as a dict; absent and null read as the empty one. -/
def asDict : Option Json → Dict
  | some (.obj fields) => fields
  | _ => []

/-- One key of `_merge_state`: `outputs` and `context` are merged, the rest is overwritten. -/
def mergeKey (merged : Dict) : String × Json → Dict
  | (key, .obj value) =>
    if key = "outputs" ∨ key = "context" then
      merged.set key (.obj ((asDict (merged.get key)).update value))
    else merged.set key (.obj value)
  | (key, value) => merged.set key value

/-- `_merge_state`. -/
def mergeState (left right : Dict) : Dict := right.foldl mergeKey left

/-- `{"source": …, "timestamp": …, …, **metadata}`. -/
def triggerState (runId : String) (run : FlowRun) : Dict :=
  let metadata := asDict (run.trigger.get "metadata")
  Dict.update
    [("source", (run.trigger.get "source").getD (.str "manual")),
      ("timestamp", (run.createdAt.map Json.str).getD .null),
      ("user_id", (metadata.get "user_id").getD .null),
      ("run_id", .str runId)]
    (metadata.filter fun kv => decide (kv.1 ≠ "user_id"))

/-- `_build_initial_state`: the cached run state, else one built from the row. -/
def buildInitialState (runId : String) (cached : Option Dict) (run : FlowRun) (extraState : Dict) :
    Dict :=
  match cached with
  | some state => state.update extraState
  | none =>
    Dict.update
      [("run_id", .str runId),
        ("flow_id", .str run.flowId),
        ("inputs", (run.trigger.get "inputs").getD (.obj [])),
        ("trigger", .obj (triggerState runId run)),
        ("context", (run.state.get "context").getD (.obj [])),
        ("outputs", (run.state.get "outputs").getD (.obj [])),
        ("current_node",
          if run.state.isEmpty then .str "" else (run.state.get "current_node").getD .null),
        ("error", .null)]
      extraState

/-- `(run.state or {}).get("current_node") or "human_checkpoint"`. -/
def currentNode (state : Dict) : String :=
  match state.get "current_node" with
  | some (.str node) => if node = "" then "human_checkpoint" else node
  | _ => "human_checkpoint"

/-- `sorted(outputs.keys())`. -/
def outputKeys (outputs : Dict) : Json :=
  .arr (((outputs.map Prod.fst).mergeSort fun a b => decide (a ≤ b)).map Json.str)

/-! ### Nodes -/

/-- An exception: `str(exc)` and its class name. -/
structure Failure where
  error : String
  type : String
  deriving DecidableEq

/-- What a node that did not complete raised. -/
inductive Raised where
  | checkpoint
  | failure (f : Failure)
  deriving DecidableEq

/-- `NodeExecutor._dispatch` on a node that is no checkpoint. What a connector, a system tool or an
    agent gives is `reply`. -/
def dispatch (node : FlowNode) (state : Dict) (reply : Except Failure Dict) : Except Failure Dict :=
  match node.type with
  | .action | .aiAgent => reply
  | .condition | .trigger | .humanCheckpoint => .ok []
  | .output =>
    match node.config.get "select" with
    | some (.arr keys) => .ok (keys.foldl (fun selected key => match key with
        | .str k => selected.set k (((asDict (state.get "outputs")).get k).getD .null)
        | _ => selected) [])
    | _ => .ok []

/-- `{"outputs": new_outputs, "current_node": node.id}`. -/
def nodeUpdate (node : FlowNode) (state output : Dict) : Dict :=
  [("outputs", .obj ((asDict (state.get "outputs")).update output)), ("current_node", .str node.id)]

/-- `node {node.id} failed: {exc}`. -/
def nodeFailure (node : FlowNode) (f : Failure) : Failure :=
  ⟨"node " ++ node.id ++ " failed: " ++ f.error, "NodeExecutionError"⟩

/-! ### Parties -/

/-- One item of `astream`: the node and what it returned. -/
abbrev Update := String × Dict

/-- LangGraph: why `compile` refuses a graph, the nodes of the superstep that a stream is in after
    the updates its consumer took (those not among them yet), and the state such a node reads. -/
structure Engine where
  compileError : Graph → Option String
  tasks : Graph → Dict → List Update → List String
  view : Graph → Dict → List Update → Dict

/-- What all workers of a run share and nothing changes. -/
structure System where
  engine : Engine
  definition : FlowDefinition
  runId : String

/-- The node of that id is a checkpoint. -/
def System.isCheckpoint (sys : System) (id : String) : Bool :=
  ((sys.definition.nodeById id).map FlowNode.type) = some .humanCheckpoint

/-- A queued task. `request` is a ghost: which resume request enqueued it. -/
inductive Task where
  | run
  | resume (request : ℕ) (response : String) (metadata : Option Dict)
  deriving DecidableEq

/-- How `_execute` ends a run that does not pause. -/
inductive Ending where
  | completed
  | aborted
  | failed (f : Failure)
  deriving DecidableEq

def Ending.status : Ending → FlowRunStatus
  | .completed => .completed
  | .aborted | .failed _ => .failed

/-- Which statement a worker is at. -/
inductive Pc where
  | saving
  | answering
  | marking
  | refreshing
  | announcing
  | seeding
  | entering
  | streaming
  | pausing (node : String)
  | mirroring
  | reporting (e : Ending)
  | settling (e : Ending)
  | cleaning
  deriving DecidableEq

/-- A worker on a task; `alive` until the task ends or the worker is lost. `seen` is its session's
    copy of the row. The last four fields are ghosts: how often the run had been paused when a
    resume read it and at which node, and the events and answers there were when it entered the
    graph. -/
structure Worker where
  task : Task
  alive : Bool
  pc : Pc
  seen : FlowRun
  input : Dict
  consumed : List Update
  inflight : List (String × Dict)
  yielded : List Update
  raising : List (String × Raised)
  finalState : Dict
  pause : ℕ
  answers : Option String
  enteredEvents : List RunEvent
  enteredAnswers : List String

/-- A worker that took a task and read the row. -/
def Worker.fresh (task : Task) (pc : Pc) (seen : FlowRun) (pause : ℕ) (answers : Option String) :
    Worker :=
  ⟨task, true, pc, seen, [], [], [], [], [], [], pause, answers, [], []⟩

/-- `extra_state`. -/
def Task.extraState : Task → Dict
  | .run => []
  | .resume _ response _ => [("human_response", .str response)]

/-- Postgres, Redis and the broker, and what failed tasks raised. The last two fields are ghosts:
    the nodes the run was paused at, latest first, and those whose pause was answered. -/
structure Store where
  row : FlowRun
  messages : List AgentMessage
  events : List RunEvent
  runState : Option Dict
  abortKey : Bool
  queue : List Task
  failures : List String
  pauses : List String
  answered : List String

/-- Where an abort request stands. -/
inductive AbortStage where
  | settingKey | reporting | settling | done
  deriving DecidableEq

structure Abort where
  seen : FlowRun
  stage : AbortStage

structure State where
  store : Store
  workers : List Worker
  aborts : List Abort
  requests : ℕ

inductive WorkerAction where
  | advance (now : String)
  | startNode (node : String)
  | finishNode (node : String) (reply : Except Failure Dict)
  | consume
  | surface
  | endStream
  | fault (f : Failure)
  | reload
  | redeliver
  | crash

inductive Action where
  | requestResume (response : String) (metadata : Option Dict)
  | requestAbort
  | advanceAbort (k : ℕ) (now : String)
  | expireAbortKey
  | expireRunState
  | deliver (k : ℕ)
  | work (i : ℕ) (a : WorkerAction)

/-! ### Steps of a worker -/

variable (sys : System)

/-- `_build_graph` and `compile`. -/
def System.compile : Except String Graph :=
  match buildGraph sys.definition with
  | .error e => .error e
  | .ok g => match sys.engine.compileError g with
    | some e => .error e
    | none => .ok g

/-- The nodes of the superstep a worker's stream is in. -/
def tasks (w : Worker) : List String :=
  match sys.compile with
  | .ok g => sys.engine.tasks g w.input w.consumed
  | .error _ => []

/-- What a node of that superstep reads. -/
def view (w : Worker) : Dict :=
  match sys.compile with
  | .ok g => sys.engine.view g w.input w.consumed
  | .error _ => []

/-- The nodes of the superstep that started. -/
def Worker.begun (w : Worker) : List String :=
  w.inflight.map Prod.fst ++ w.yielded.map Prod.fst ++ w.raising.map Prod.fst

/-- The event that ends a run. -/
def Ending.event (e : Ending) (finalState : Dict) (now : String) : RunEvent :=
  match e with
  | .completed => ⟨.flowCompleted, none,
      [("completed_at", .str now), ("output_keys", outputKeys (asDict (finalState.get "outputs")))]⟩
  | .aborted => ⟨.flowFailed, none, [("reason", .str "aborted")]⟩
  | .failed f => ⟨.flowFailed, none, [("error", .str f.error), ("type", .str f.type)]⟩

/-- The statements of `resume` and `_execute` around the stream, one at a time. -/
def advance (s : Store) (w : Worker) (now : String) : Option (Store × Worker) :=
  match w.pc, w.task with
  | .saving, .resume _ response _ =>
    some ({ s with messages := s.messages ++ [⟨currentNode w.seen.state, .user,
              [.obj [("type", .str "text"), ("text", .str response)]]⟩] },
      { w with pc := .answering })
  | .answering, .resume _ response metadata =>
    some ({ s with
            events := s.events ++ [⟨.humanResponse, some (currentNode w.seen.state),
              [("response", .str response), ("metadata", .obj (metadata.getD []))]⟩]
            answered := s.answered ++ w.answers.toList },
      { w with pc := .marking })
  | .marking, _ => match sys.compile with
    | .error e => some ({ s with failures := s.failures ++ [e] }, { w with alive := false })
    | .ok _ => some ({ s with row := setRunStatus w.seen s.row .running none now },
        { w with pc := .refreshing })
  | .refreshing, task =>
    some (s, { w with pc := if task = .run then .announcing else .seeding, seen := s.row })
  | .announcing, _ =>
    some ({ s with events := s.events ++ [⟨.flowStarted, none,
              [("entry_point", .str sys.definition.entryPoint)]⟩] },
      { w with pc := .seeding })
  | .seeding, task =>
    some (s, { w with
      pc := .entering
      input := buildInitialState sys.runId s.runState w.seen task.extraState })
  | .entering, _ =>
    some ({ s with runState := some w.input },
      { w with
        pc := .streaming
        finalState := w.input
        enteredEvents := s.events
        enteredAnswers := s.answered })
  | .pausing node, _ =>
    let finalState := w.finalState.set "current_node" (.str node)
    some ({ s with
            row := setRunStatus w.seen s.row .paused (some finalState) now
            pauses := node :: s.pauses },
      { w with pc := .mirroring, finalState := finalState })
  | .mirroring, _ => some ({ s with runState := some w.finalState }, { w with alive := false })
  | .reporting e, _ =>
    some ({ s with events := s.events ++ [e.event w.finalState now] },
      { w with pc := .settling e })
  | .settling e, _ =>
    some ({ s with row := setRunStatus w.seen s.row e.status (some w.finalState) now },
      { w with pc := .cleaning })
  | .cleaning, _ =>
    some ({ s with runState := none, abortKey := false }, { w with alive := false })
  | _, _ => none

/-- `NodeExecutor.execute` up to the handler: a node of the superstep starts. -/
def startNode (s : Store) (w : Worker) (id : String) : Option (Store × Worker) :=
  if w.pc = .streaming ∧ id ∈ tasks sys w ∧ id ∉ w.begun then
    (sys.definition.nodeById id).map fun node =>
      ({ s with events := s.events ++ [⟨.nodeStarted, some id,
            [("type", .str node.type.value), ("name", .str node.name)]⟩] },
        { w with inflight := w.inflight ++ [(id, view sys w)] })
  else none

/-- The handler of a checkpoint: `_run_human_checkpoint` emits and raises. -/
def reachCheckpoint (s : Store) (w : Worker) (node : FlowNode) : Store × Worker :=
  ({ s with events := s.events ++ [⟨.humanCheckpoint, some node.id,
        [("message", (node.config.get "message").getD (.str "")), ("name", .str node.name)]⟩] },
    { w with raising := w.raising ++ [(node.id, .checkpoint)] })

/-- `NodeExecutor.execute` from the handler on: the node completes, or raises. -/
def completeNode (s : Store) (w : Worker) (node : FlowNode) (state : Dict)
    (reply : Except Failure Dict) : Store × Worker :=
  match dispatch node state reply with
  | .ok output =>
    ({ s with events := s.events ++ [⟨.nodeCompleted, some node.id,
          [("output_keys", outputKeys output)]⟩] },
      { w with yielded := w.yielded ++ [(node.id, nodeUpdate node state output)] })
  | .error f =>
    ({ s with events := s.events ++ [⟨.nodeFailed, some node.id,
          [("error", .str f.error), ("type", .str f.type)]⟩] },
      { w with raising := w.raising ++ [(node.id, .failure (nodeFailure node f))] })

/-- A node in flight ends. -/
def finishNode (s : Store) (w : Worker) (id : String) (reply : Except Failure Dict) :
    Option (Store × Worker) :=
  if w.pc = .streaming then
    (w.inflight.find? fun entry => entry.1 == id).bind fun entry =>
      (sys.definition.nodeById id).map fun node =>
        let w' := { w with inflight := w.inflight.erase entry }
        if node.type = .humanCheckpoint then reachCheckpoint s w' node
        else completeNode s w' node entry.2 reply
  else none

/-- The body of `async for event in compiled.astream(…)`. -/
def consume (s : Store) (w : Worker) : Option (Store × Worker) :=
  match w.pc, w.yielded with
  | .streaming, update :: rest =>
    if s.abortKey then
      some (s, { w with
        pc := .reporting .aborted
        finalState := w.finalState.set "error" (.str "aborted") })
    else
      let finalState := mergeState w.finalState update.2
      some ({ s with runState := some finalState },
        { w with consumed := w.consumed ++ [update], yielded := rest, finalState := finalState })
  | _, _ => none

/-- What a node raised leaves the stream. -/
def surface (s : Store) (w : Worker) : Option (Store × Worker) :=
  match w.pc, w.raising with
  | .streaming, (node, .checkpoint) :: _ => some (s, { w with pc := .pausing node })
  | .streaming, (_, .failure f) :: _ =>
    some (s, { w with
      pc := .reporting (.failed f)
      finalState := w.finalState.set "error" (.str f.error) })
  | _, _ => none

/-- One step of a worker that is alive. A fault inside the stream is caught there; anywhere else it
    ends the task. A rollback (an insert collided on its sequence) expires the session's copy, which
    is then loaded again. -/
def workerStep (s : Store) (w : Worker) : WorkerAction → Option (Store × Worker)
  | .advance now => advance sys s w now
  | .startNode id => startNode sys s w id
  | .finishNode id reply => finishNode sys s w id reply
  | .consume => consume s w
  | .surface => surface s w
  | .endStream =>
    if w.pc = .streaming ∧ tasks sys w = [] ∧ w.begun = [] then
      some (s, { w with pc := .reporting .completed })
    else none
  | .fault f =>
    if w.pc = .streaming then
      some (s, { w with
        pc := .reporting (.failed f)
        finalState := w.finalState.set "error" (.str f.error) })
    else some ({ s with failures := s.failures ++ [f.error] }, { w with alive := false })
  | .reload => some (s, { w with seen := s.row })
  | .redeliver => some ({ s with queue := s.queue ++ [w.task] }, w)
  | .crash => some ({ s with queue := s.queue ++ [w.task] }, { w with alive := false })

/-! ### Steps of the run -/

/-- `run_flow_task` and `resume_flow_task` up to the first commit. -/
def take (s : Store) : Task → Store × Option Worker
  | .run => (s, some (.fresh .run .marking s.row 0 none))
  | .resume request response metadata =>
    if s.row.status = .paused then
      (s, some (.fresh (.resume request response metadata) .saving s.row s.pauses.length
        s.pauses.head?))
    else
      ({ s with failures := s.failures ++ ["flow run " ++ sys.runId ++ " is not paused (status=" ++
            s.row.status.value ++ ")"] }, none)

/-- The abort endpoint behind its check, one statement at a time. -/
def advanceAbort (s : Store) (a : Abort) (now : String) : Option (Store × Abort) :=
  match a.stage with
  | .settingKey => some ({ s with abortKey := true }, { a with stage := .reporting })
  | .reporting =>
    some ({ s with events := s.events ++ [Ending.aborted.event [] now] },
      { a with stage := .settling })
  | .settling =>
    some ({ s with row := setRunStatus a.seen s.row .failed (some a.seen.state) now },
      { a with stage := .done })
  | .done => none

/-- One step of one party. -/
def step (s : State) : Action → Option State
  | .requestResume response metadata =>
    some { s with
      store := { s.store with
        queue := s.store.queue ++ [.resume s.requests response metadata] }
      requests := s.requests + 1 }
  | .requestAbort =>
    if s.store.row.status.terminal then some s
    else some { s with aborts := s.aborts ++ [⟨s.store.row, .settingKey⟩] }
  | .advanceAbort k now => match s.aborts[k]? with
    | some a => (advanceAbort s.store a now).map fun r =>
        { s with store := r.1, aborts := s.aborts.set k r.2 }
    | none => none
  | .expireAbortKey => some { s with store := { s.store with abortKey := false } }
  | .expireRunState => some { s with store := { s.store with runState := none } }
  | .deliver k => match s.store.queue[k]? with
    | some task =>
      let r := take sys { s.store with queue := s.store.queue.eraseIdx k } task
      some { s with store := r.1, workers := s.workers ++ r.2.toList }
    | none => none
  | .work i a => match s.workers[i]? with
    | some w =>
      if w.alive then
        (workerStep sys s.store w a).map fun r =>
          { s with store := r.1, workers := s.workers.set i r.2 }
      else none
    | none => none

variable {sys}

/-- A worker's step of the run is a step of that worker, who is alive. -/
theorem work_cases {s t : State} {i : ℕ} {a : WorkerAction} (h : step sys s (.work i a) = some t) :
    ∃ w r, s.workers[i]? = some w ∧ w.alive = true ∧ workerStep sys s.store w a = some r ∧
      t = { s with store := r.1, workers := s.workers.set i r.2 } := by
  simp only [step] at h
  split at h
  case h_2 => cases h
  case h_1 w hw =>
    split at h
    case isFalse => cases h
    case isTrue halive =>
      obtain ⟨r, hr, rfl⟩ := Option.map_eq_some_iff.mp h
      exact ⟨w, r, hw, halive, hr, rfl⟩

theorem isCheckpoint_eq {id : String} {node : FlowNode} (h : sys.definition.nodeById id = some node) :
    sys.isCheckpoint id = decide (node.type = .humanCheckpoint) := by
  simp [System.isCheckpoint, h]

/-- A node that ends was in flight; a checkpoint raises, another node ends as its handler does. -/
theorem finishNode_cases {s : Store} {w : Worker} {id : String} {reply : Except Failure Dict}
    {r : Store × Worker} (h : finishNode sys s w id reply = some r) :
    ∃ e node, w.pc = .streaming ∧ e ∈ w.inflight ∧ e.1 = id ∧ node.id = id ∧
      sys.definition.nodeById id = some node ∧
      r = if node.type = .humanCheckpoint then
          reachCheckpoint s { w with inflight := w.inflight.erase e } node
        else completeNode s { w with inflight := w.inflight.erase e } node e.2 reply := by
  rw [finishNode] at h
  split at h
  case isFalse => cases h
  case isTrue hpc =>
    obtain ⟨e, he, h⟩ := Option.bind_eq_some_iff.mp h
    obtain ⟨node, hnode, rfl⟩ := Option.map_eq_some_iff.mp h
    exact ⟨e, node, hpc, List.mem_of_find?_eq_some he, by simpa using List.find?_some he,
      nodeById_id hnode, hnode, rfl⟩

/-- What a worker's step leaves alone when it is no statement around the stream. -/
structure StreamFrame (s : Store) (w : Worker) (r : Store × Worker) : Prop where
  row : r.1.row = s.row
  abortKey : r.1.abortKey = s.abortKey
  pauses : r.1.pauses = s.pauses
  task : r.2.task = w.task
  pause : r.2.pause = w.pause
  seen : r.2.seen = w.seen ∨ r.2.seen = s.row
  pc : r.2.pc = w.pc ∨ (w.pc = .streaming ∧
    ((∃ node, r.2.pc = .pausing node) ∨ ∃ e, r.2.pc = .reporting e))

theorem startNode_frame {s : Store} {w : Worker} {id : String} {r : Store × Worker}
    (h : startNode sys s w id = some r) : StreamFrame s w r := by
  rw [startNode] at h
  split at h
  · obtain ⟨node, _, rfl⟩ := Option.map_eq_some_iff.mp h
    exact ⟨rfl, rfl, rfl, rfl, rfl, .inl rfl, .inl rfl⟩
  · cases h

theorem finishNode_frame {s : Store} {w : Worker} {id : String} {reply : Except Failure Dict}
    {r : Store × Worker} (h : finishNode sys s w id reply = some r) : StreamFrame s w r := by
  obtain ⟨e, node, _, _, _, _, _, rfl⟩ := finishNode_cases h
  split
  · exact ⟨rfl, rfl, rfl, rfl, rfl, .inl rfl, .inl rfl⟩
  · rw [completeNode]
    split <;> exact ⟨rfl, rfl, rfl, rfl, rfl, .inl rfl, .inl rfl⟩

theorem consume_frame {s : Store} {w : Worker} {r : Store × Worker} (h : consume s w = some r) :
    StreamFrame s w r := by
  rw [consume] at h
  split at h
  case h_2 => cases h
  case h_1 hpc _ =>
    split at h
    · obtain rfl := Option.some.inj h
      exact ⟨rfl, rfl, rfl, rfl, rfl, .inl rfl, .inr ⟨hpc, .inr ⟨_, rfl⟩⟩⟩
    · obtain rfl := Option.some.inj h
      exact ⟨rfl, rfl, rfl, rfl, rfl, .inl rfl, .inl rfl⟩

theorem surface_frame {s : Store} {w : Worker} {r : Store × Worker} (h : surface s w = some r) :
    StreamFrame s w r := by
  rw [surface] at h
  split at h
  case h_1 hpc _ =>
    obtain rfl := Option.some.inj h
    exact ⟨rfl, rfl, rfl, rfl, rfl, .inl rfl, .inr ⟨hpc, .inl ⟨_, rfl⟩⟩⟩
  case h_2 hpc _ =>
    obtain rfl := Option.some.inj h
    exact ⟨rfl, rfl, rfl, rfl, rfl, .inl rfl, .inr ⟨hpc, .inr ⟨_, rfl⟩⟩⟩
  case h_3 => cases h

/-- A worker's step is a statement around the stream, or within this frame. -/
theorem workerStep_frame {s : Store} {w : Worker} {a : WorkerAction} {r : Store × Worker}
    (h : workerStep sys s w a = some r) :
    (∃ now, a = .advance now ∧ advance sys s w now = some r) ∨ StreamFrame s w r := by
  cases a with
  | advance now => exact .inl ⟨now, rfl, h⟩
  | startNode id => exact .inr (startNode_frame h)
  | finishNode id reply => exact .inr (finishNode_frame h)
  | consume => exact .inr (consume_frame h)
  | surface => exact .inr (surface_frame h)
  | endStream =>
    simp only [workerStep] at h
    split at h
    case isFalse => cases h
    case isTrue hcond =>
      obtain rfl := Option.some.inj h
      exact .inr ⟨rfl, rfl, rfl, rfl, rfl, .inl rfl, .inr ⟨hcond.1, .inr ⟨_, rfl⟩⟩⟩
  | fault f =>
    simp only [workerStep] at h
    split at h
    case isTrue hpc =>
      obtain rfl := Option.some.inj h
      exact .inr ⟨rfl, rfl, rfl, rfl, rfl, .inl rfl, .inr ⟨hpc, .inr ⟨_, rfl⟩⟩⟩
    case isFalse =>
      obtain rfl := Option.some.inj h
      exact .inr ⟨rfl, rfl, rfl, rfl, rfl, .inl rfl, .inl rfl⟩
  | reload =>
    obtain rfl := Option.some.inj h
    exact .inr ⟨rfl, rfl, rfl, rfl, rfl, .inr rfl, .inl rfl⟩
  | redeliver =>
    obtain rfl := Option.some.inj h
    exact .inr ⟨rfl, rfl, rfl, rfl, rfl, .inl rfl, .inl rfl⟩
  | crash =>
    obtain rfl := Option.some.inj h
    exact .inr ⟨rfl, rfl, rfl, rfl, rfl, .inl rfl, .inl rfl⟩

/-- A delivery takes a queued task: a run task always gets a worker, a resume task only where its
    worker reads `paused`. -/
theorem deliver_cases {s t : State} {k : ℕ} (h : step sys s (.deliver k) = some t) :
    (s.store.queue[k]? = some .run ∧
      t = { s with
        store := { s.store with queue := s.store.queue.eraseIdx k }
        workers := s.workers ++ [.fresh .run .marking s.store.row 0 none] }) ∨
    (∃ request response metadata, s.store.queue[k]? = some (.resume request response metadata) ∧
      s.store.row.status = .paused ∧
      t = { s with
        store := { s.store with queue := s.store.queue.eraseIdx k }
        workers := s.workers ++ [.fresh (.resume request response metadata) .saving s.store.row
          s.store.pauses.length s.store.pauses.head?] }) ∨
    (∃ request response metadata e, s.store.queue[k]? = some (.resume request response metadata) ∧
      s.store.row.status ≠ .paused ∧
      t = { s with
        store := { s.store with
          queue := s.store.queue.eraseIdx k, failures := s.store.failures ++ [e] } }) := by
  simp only [step] at h
  split at h
  case h_2 => cases h
  case h_1 task htask =>
    obtain rfl := Option.some.inj h
    cases task with
    | run => exact .inl ⟨htask, rfl⟩
    | resume request response metadata =>
      by_cases hp : s.store.row.status = .paused
      · exact .inr (.inl ⟨request, response, metadata, htask, hp, by simp [take, hp]⟩)
      · exact .inr (.inr ⟨request, response, metadata, _, htask, hp, by simp [take, hp]; rfl⟩)

/-- An abort request's step of the run is a statement of that request. -/
theorem abort_cases {s t : State} {k : ℕ} {now : String}
    (h : step sys s (.advanceAbort k now) = some t) :
    ∃ a r, s.aborts[k]? = some a ∧ advanceAbort s.store a now = some r ∧
      t = { s with store := r.1, aborts := s.aborts.set k r.2 } := by
  simp only [step] at h
  split at h
  case h_2 => cases h
  case h_1 a ha =>
    obtain ⟨r, hr, rfl⟩ := Option.map_eq_some_iff.mp h
    exact ⟨a, r, ha, hr, rfl⟩

/-! ### Where a run starts -/

/-- A run nobody works on. -/
def State.idle (row : FlowRun) (messages : List AgentMessage) (events : List RunEvent)
    (runState : Option Dict) (abortKey : Bool) (queue : List Task) (requests : ℕ) : State :=
  ⟨⟨row, messages, events, runState, abortKey, queue, [], [], []⟩, [], [], requests⟩

/-- `create_flow_run` and the task the trigger endpoint enqueues for it. -/
def State.triggered (flowId : String) (trigger : Dict) (createdAt : Option String) : State :=
  .idle ⟨flowId, .pending, trigger, [], createdAt, none, none⟩ [] [] none false [.run] 0

/-- What LangGraph does with a graph of plain edges that never fork: one node after another. -/
def chain : Engine where
  compileError _ := none
  tasks g _ consumed :=
    match consumed.getLast? with
    | none => [g.entry]
    | some (id, _) =>
      match g.routes.find? fun entry => entry.1 == id with
      | some (_, .direct targets) => targets.filterMap fun t => match t with
        | .node next => some next
        | .finish => none
      | _ => []
  view _ input consumed := consumed.foldl (fun state update => mergeState state update.2) input

/-- LangGraph's part: a stream given an input begins with what START leads to. -/
def Starts (engine : Engine) : Prop := ∀ g input, engine.tasks g input [] = [g.entry]

theorem chain_starts : Starts chain := fun _ _ => rfl

/-- Fetch something, ask a human, publish. -/
def reviewFlow : FlowDefinition :=
  ⟨"fetch",
    [⟨"fetch", .action, "Fetch", []⟩, ⟨"review", .humanCheckpoint, "Review", []⟩,
      ⟨"publish", .action, "Publish", []⟩],
    [⟨"fetch", "review", none⟩, ⟨"review", "publish", none⟩]⟩

/-- `n` statements of worker `i`. -/
def advances (i n : ℕ) : List Action := List.replicate n (.work i (.advance "now"))

/-- Worker `i` runs a node to its end. -/
def executes (i : ℕ) (id : String) : List Action :=
  [.work i (.startNode id), .work i (.finishNode id (.ok []))]

end LunaCore.Flow
