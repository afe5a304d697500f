import LunaCore.Flow.NodeConfig
import LunaCore.Flow.RunState
import LunaCore.Flow.Supersteps

/-! Who a triggered run executes as.

    The trigger endpoint puts the caller's id into the request's metadata, the row keeps the request
    as JSON, and the runner makes `state.trigger` of it:

        metadata ─ setdefault user_id ─→ row.trigger ─┐
        source, created_at, run_id ───────────────────┴→ {source, timestamp, user_id, run_id,
                                                          **metadata without user_id}

    From there on nothing touches `trigger`: no node returns the key, a plain channel nobody writes
    stays as it is, the mirror in Redis is what a resume starts from. So every node reads what the
    first state said, and that is the stamp just when the metadata says nothing under the four
    stamped keys, or the same: `setdefault` lets a `user_id` in, and `**metadata` comes last. -/

namespace LunaCore.Flow
open LunaCore.Values LunaCore.Schemes

/-! ### The request -/

inductive TriggerSource where
  | manual | schedule | webhook | api
  deriving DecidableEq

def TriggerSource.value : TriggerSource → String
  | .manual => "manual"
  | .schedule => "schedule"
  | .webhook => "webhook"
  | .api => "api"

/-- `FlowRunTrigger`: a metadata dict has each key once. -/
structure FlowRunTrigger where
  inputs : Dict
  source : TriggerSource
  metadata : Dict
  distinct : metadata.Distinct

/-- `FlowRunTrigger()`. -/
def FlowRunTrigger.default : FlowRunTrigger := ⟨[], .manual, [], by decide⟩

/-- `current_user`: the id as `str` gives it. -/
structure CurrentUser where
  id : String
  named : id ≠ ""

/-- `metadata.setdefault(key, value)`. -/
def setDefault (metadata : Dict) (key : String) (value : Json) : Dict :=
  match metadata.get key with
  | some _ => metadata
  | none => metadata.set key value

theorem distinct_setDefault {metadata : Dict} (h : metadata.Distinct) (key : String)
    (value : Json) : (setDefault metadata key value).Distinct := by
  rw [setDefault]
  split
  · exact h
  · exact h.set key value

theorem get_setDefault (metadata : Dict) (key : String) (value : Json) (k : String) :
    (setDefault metadata key value).get k =
      if k = key then some ((metadata.get key).getD value) else metadata.get k := by
  cases hget : metadata.get key with
  | none =>
    rw [setDefault, hget, Dict.get_set]
    rfl
  | some v =>
    rw [setDefault, hget]
    by_cases hk : k = key
    · simp [hk, hget]
    · simp [hk]

/-- `trigger` of the flows router: the payload it creates a run with. -/
def stampPayload (user : CurrentUser) (payload : Option FlowRunTrigger) : FlowRunTrigger :=
  let payload := payload.getD .default
  { payload with
    metadata := setDefault payload.metadata "user_id" (.str user.id)
    distinct := distinct_setDefault payload.distinct _ _ }

/-- `trigger.model_dump()`, with `inputs` what `validate_flow_inputs` returned. -/
def triggerPayload (trigger : FlowRunTrigger) (inputs : Dict) : Dict :=
  [("inputs", .obj inputs), ("source", .str trigger.source.value),
    ("metadata", .obj trigger.metadata)]

/-- `create_flow_run` for a request the endpoint accepted, and its task. -/
def State.requested (user : CurrentUser) (payload : Option FlowRunTrigger) (flowId : String)
    (inputs : Dict) (createdAt : Option String) : State :=
  .triggered flowId (triggerPayload (stampPayload user payload) inputs) createdAt

/-! ### What is read -/

/-- `state.get("trigger") or {}`. -/
def triggerOf (state : Dict) : Dict := asDict (state.get "trigger")

/-- `_trigger_user_id_from_state`, before its `str`. -/
def triggerUserId (state : Dict) : Option Json := ((triggerOf state).get "user_id").filter truthy

/-- The four keys the runner stamps: caller, run, source and creation time. -/
structure Stamp where
  user : CurrentUser
  runId : String
  source : TriggerSource
  createdAt : Option String

/-- What the runner stamps under a key, where it does. -/
def Stamp.value (stamp : Stamp) (key : String) : Option Json :=
  if key = "user_id" then some (.str stamp.user.id)
  else if key = "run_id" then some (.str stamp.runId)
  else if key = "source" then some (.str stamp.source.value)
  else if key = "timestamp" then some ((stamp.createdAt.map Json.str).getD .null)
  else none

/-- A node of the run reads the stamp, and its tools act for the caller. -/
structure Sees (stamp : Stamp) (state : Dict) : Prop where
  stamped : ∀ key value, stamp.value key = some value → (triggerOf state).get key = some value
  tools : triggerUserId state = some (.str stamp.user.id)

/-- The request's metadata has nothing else under a stamped key. -/
def Harmless (stamp : Stamp) (metadata : Dict) : Prop :=
  ∀ key value, stamp.value key = some value → ∀ given ∈ metadata.get key, given = value

/-- LangGraph's part: a plain channel that no node of the stream wrote is as the input had it. -/
def KeepsUnwritten (engine : Engine) : Prop :=
  ∀ g input (consumed : List Update), ∀ name ∈ Supersteps.plainChannels,
    (∀ update ∈ consumed, update.2.get name = none) →
      (engine.view g input consumed).get name = input.get name

/-! ### The stamp -/

theorem get_without (d : Dict) (name key : String) :
    Dict.get (d.filter fun kv => decide (kv.1 ≠ name)) key =
      if key = name then none else d.get key := by
  induction d with
  | nil => simp [Dict.get]
  | cons kv d ih =>
    obtain ⟨k, v⟩ := kv
    by_cases hk : k = name
    · rw [List.filter_cons_of_neg (by simp [hk]), ih, hk]
      by_cases hkey : key = name
      · simp [hkey]
      · simp [Dict.get, hkey, Ne.symm hkey]
    · rw [List.filter_cons_of_pos (by simpa using hk)]
      by_cases hkey : k = key
      · simp [Dict.get, ← hkey, hk]
      · simp only [Dict.get, beq_iff_eq, hkey, if_false]
        exact ih

/-- The metadata's own value comes last, except for `user_id`. -/
theorem get_triggerState {runId : String} {run : FlowRun}
    (hdistinct : (asDict (run.trigger.get "metadata")).Distinct) (key : String) :
    (triggerState runId run).get key =
      (if key = "user_id" then none else (asDict (run.trigger.get "metadata")).get key).or
        (Dict.get [("source", (run.trigger.get "source").getD (.str "manual")),
          ("timestamp", (run.createdAt.map Json.str).getD .null),
          ("user_id", ((asDict (run.trigger.get "metadata")).get "user_id").getD .null),
          ("run_id", .str runId)] key) := by
  have hkept : Dict.Distinct ((asDict (run.trigger.get "metadata")).filter
      fun kv => decide (kv.1 ≠ "user_id")) :=
    hdistinct.sublist (List.filter_sublist.map Prod.fst)
  rw [triggerState, Dict.get_update, Dict.get_reverse hkept, get_without]

/-- The metadata as the caller sent it; a request without a body has none. -/
def sentMetadata (payload : Option FlowRunTrigger) : Dict := (payload.getD .default).metadata

/-- What the row holds when the endpoint created it. -/
structure Requested (user : CurrentUser) (payload : Option FlowRunTrigger) (inputs : Dict)
    (createdAt : Option String) (run : FlowRun) : Prop where
  trigger : run.trigger = triggerPayload (stampPayload user payload) inputs
  createdAt : run.createdAt = createdAt

/-- The stamp of a request's run. -/
def stampOf (user : CurrentUser) (payload : Option FlowRunTrigger) (runId : String)
    (createdAt : Option String) : Stamp :=
  ⟨user, runId, (payload.getD .default).source, createdAt⟩

/-- Under a stamped key `state.trigger` has what the caller sent there, else the stamp. -/
theorem get_stamped {user : CurrentUser} {payload : Option FlowRunTrigger} {inputs : Dict}
    {createdAt : Option String} {run : FlowRun} (hrun : Requested user payload inputs createdAt run)
    {runId key : String} {value : Json}
    (hkey : (stampOf user payload runId createdAt).value key = some value) :
    (triggerState runId run).get key = some (((sentMetadata payload).get key).getD value) := by
  have hmeta : asDict (run.trigger.get "metadata") =
      setDefault (sentMetadata payload) "user_id" (.str user.id) := by
    rw [hrun.trigger]
    rfl
  have hsource : run.trigger.get "source" = some (.str (payload.getD .default).source.value) := by
    rw [hrun.trigger]
    rfl
  rw [get_triggerState (by rw [hmeta]; exact distinct_setDefault (payload.getD .default).distinct _ _),
    hmeta, get_setDefault, get_setDefault, hsource, hrun.createdAt]
  unfold Stamp.value at hkey
  split at hkey
  case isTrue huser =>
    obtain rfl := Option.some.inj hkey
    subst huser
    rfl
  case isFalse huser =>
    rw [if_neg huser, if_neg huser]
    cases hget : (sentMetadata payload).get key with
    | some given => rfl
    | none =>
      split at hkey
      case isTrue h =>
        subst h
        exact hkey
      case isFalse =>
        split at hkey
        case isTrue h =>
          subst h
          exact hkey
        case isFalse =>
          split at hkey
          case isTrue h =>
            subst h
            exact hkey
          case isFalse => cases hkey

/-- A state whose `trigger` is the one built from the row shows the stamp just when the metadata
    has nothing else under its keys. -/
theorem sees_iff {user : CurrentUser} {payload : Option FlowRunTrigger} {inputs : Dict}
    {createdAt : Option String} {run : FlowRun} (hrun : Requested user payload inputs createdAt run)
    {runId : String} {state : Dict}
    (hstate : state.get "trigger" = some (.obj (triggerState runId run))) :
    Sees (stampOf user payload runId createdAt) state ↔
      Harmless (stampOf user payload runId createdAt) (sentMetadata payload) := by
  have htrigger : triggerOf state = triggerState runId run := by
    rw [triggerOf, hstate]
    rfl
  have hkey (key : String) (value : Json)
      (h : (stampOf user payload runId createdAt).value key = some value) :
      (triggerOf state).get key = some value ↔
        ∀ given ∈ (sentMetadata payload).get key, given = value := by
    rw [htrigger, get_stamped hrun h]
    cases (sentMetadata payload).get key <;> simp
  constructor
  · intro hsees key value h
    exact (hkey key value h).mp (hsees.stamped key value h)
  · intro hharmless
    have hstamped key value h := (hkey key value h).mpr (hharmless key value h)
    refine ⟨hstamped, ?_⟩
    rw [triggerUserId, hstamped "user_id" (.str user.id) rfl]
    simp [Option.filter, truthy, user.named, stampOf]

/-! ### Along a run -/

/-- The state's `trigger` is the one made of that row. -/
def Carries (runId : String) (first : FlowRun) (state : Dict) : Prop :=
  state.get "trigger" = some (.obj (triggerState runId first))

/-- What a worker reads carries it, and no update it was given touches it. -/
structure Worker.Keeps (runId : String) (first : FlowRun) (w : Worker) : Prop where
  seen : first.SameRequest w.seen
  input : w.pc.unseeded = false → Carries runId first w.input
  final : w.pc.unseeded = false → w.pc ≠ .entering → Carries runId first w.finalState
  reads : ∀ entry ∈ w.inflight, Carries runId first entry.2
  yielded : ∀ update ∈ w.yielded, update.2.get "trigger" = none
  consumed : ∀ update ∈ w.consumed, update.2.get "trigger" = none

structure Store.Keeps (runId : String) (first : FlowRun) (s : Store) : Prop where
  row : first.SameRequest s.row
  runState : ∀ state ∈ s.runState, Carries runId first state

/-- Wherever the run's `trigger` is kept, it is the one made of the row as it was created. -/
structure State.Keeps (runId : String) (first : FlowRun) (s : State) : Prop where
  store : s.store.Keeps runId first
  workers : ∀ w ∈ s.workers, w.Keeps runId first

variable {sys : System} {first : FlowRun}

/-- A node reads such a field as its stream was given it. -/
theorem get_view {engine : Engine} (hengine : KeepsUnwritten engine) {key : String} {value : Json}
    (hkey : key ∈ setOnce) {g : Graph} {input : Dict} {consumed : List Update}
    (hconsumed : ∀ u ∈ consumed, IsUpdate u.2) (h : input.get key = some value) :
    (engine.view g input consumed).get key = some value := by
  have hplain : key ∈ Supersteps.plainChannels :=
    (by decide : ∀ name ∈ setOnce, name ∈ Supersteps.plainChannels) key hkey
  exact (hengine g input consumed key hplain fun u hu => (hconsumed u hu).get hkey).trans h

theorem lasting_carries (hengine : KeepsUnwritten sys.engine) (first : FlowRun) :
    Lasting sys first (Carries sys.runId first) (Carries sys.runId first) := by
  refine lasting_get (by decide) (fun run hrun => ?_) fun g input consumed hconsumed h =>
    get_view hengine (by decide) hconsumed h
  have hsame : triggerState sys.runId run = triggerState sys.runId first := by
    rw [triggerState, triggerState, hrun.trigger, hrun.createdAt]
  rw [← hsame]
  rfl

theorem State.Lasts.keeps {s : State} {runId : String}
    (h : s.Lasts first (Carries runId first) (Carries runId first)) : s.Keeps runId first := by
  refine ⟨⟨h.store.row, h.store.runState⟩, fun w hw => ?_⟩
  obtain ⟨hseen, hinput, hfinal, hreads, hyielded, hconsumed⟩ := h.workers w hw
  exact ⟨hseen, hinput, hfinal, hreads, fun u hu => (hyielded u hu).get (by decide),
    fun u hu => (hconsumed u hu).get (by decide)⟩

/-- The row the endpoint creates for a request. -/
def requestedRow (user : CurrentUser) (payload : Option FlowRunTrigger) (flowId : String)
    (inputs : Dict) (createdAt : Option String) : FlowRun :=
  ⟨flowId, .pending, triggerPayload (stampPayload user payload) inputs, [], createdAt, none, none⟩

theorem requested_row (user : CurrentUser) (payload : Option FlowRunTrigger) (flowId : String)
    (inputs : Dict) (createdAt : Option String) :
    Requested user payload inputs createdAt (requestedRow user payload flowId inputs createdAt) :=
  ⟨rfl, rfl⟩

theorem keeps_run (hengine : KeepsUnwritten sys.engine) {user : CurrentUser}
    {payload : Option FlowRunTrigger} {flowId : String} {inputs : Dict} {createdAt : Option String}
    {as : List Action} {t : State}
    (hrun : runFrom (step sys) (.requested user payload flowId inputs createdAt) as = some t) :
    t.Keeps sys.runId (requestedRow user payload flowId inputs createdAt) :=
  (lasts_run (lasting_carries hengine _) hrun).keeps

/-- EXACT CONDITION: in every run of a request the endpoint accepted, every node in flight reads the
    caller's id, the run's id, the request's source and the row's creation time, and its tools act
    for the caller, just when the request's metadata has nothing else under these four keys. -/
theorem trigger_identity_iff (sys : System) (hengine : KeepsUnwritten sys.engine)
    (user : CurrentUser) (payload : Option FlowRunTrigger) (flowId : String) (inputs : Dict)
    (createdAt : Option String) (as : List Action) {t : State}
    (hrun : runFrom (step sys) (.requested user payload flowId inputs createdAt) as = some t)
    {w : Worker} (hw : w ∈ t.workers) {entry : String × Dict} (hentry : entry ∈ w.inflight) :
    Sees (stampOf user payload sys.runId createdAt) entry.2 ↔
      Harmless (stampOf user payload sys.runId createdAt) (sentMetadata payload) := by
  have hkeeps := keeps_run hengine hrun
  have hreads := (hkeeps.workers w hw).reads entry hentry
  exact sees_iff (requested_row user payload flowId inputs createdAt) hreads

/-! ### Two requests -/

theorem chain_keepsUnwritten : KeepsUnwritten chain := by
  intro g input consumed name _ hunwritten
  have hfold (consumed : List Update) (hunwritten : ∀ u ∈ consumed, u.2.get name = none)
      (state : Dict) :
      (consumed.foldl (fun state update => mergeState state update.2) state).get name =
        state.get name := by
    induction consumed generalizing state with
    | nil => rfl
    | cons u consumed ih =>
      rw [List.foldl_cons, ih (fun v hv => hunwritten v (List.mem_cons_of_mem _ hv)),
        get_mergeState u.2 (hunwritten u List.mem_cons_self)]
  exact hfold consumed hunwritten input

def reviewSystem : System := ⟨chain, reviewFlow, "r1"⟩

def eve : CurrentUser := ⟨"eve", by decide⟩

/-- The worker takes the run and starts its first node. -/
def startsFetch : List Action := .deliver 0 :: advances 0 5 ++ [.work 0 (.startNode "fetch")]

/-- A request without a body: its first node acts for the caller. -/
theorem acts_for_caller : ∃ t w entry,
    runFrom (step reviewSystem) (.requested eve none "f1" [] none) startsFetch = some t ∧
      w ∈ t.workers ∧ entry ∈ w.inflight ∧ Sees (stampOf eve none "r1" none) entry.2 := by
  refine ⟨_, _, _, rfl, List.mem_singleton.mpr rfl, List.mem_singleton.mpr rfl, ?_⟩
  refine (trigger_identity_iff reviewSystem chain_keepsUnwritten eve none "f1" [] none startsFetch
    rfl (List.mem_singleton.mpr rfl) (List.mem_singleton.mpr rfl)).mpr ?_
  intro key value _ given hgiven
  cases hgiven

/-- The metadata names somebody else. -/
def asAda : FlowRunTrigger := ⟨[], .manual, [("user_id", .str "ada")], by decide⟩

/-- The caller is eve, and the nodes of the run act for ada. -/
theorem acts_for_other : ¬ ∀ (user : CurrentUser) (payload : Option FlowRunTrigger)
    (as : List Action) (t : State),
    runFrom (step reviewSystem) (.requested user payload "f1" [] none) as = some t →
      ∀ w ∈ t.workers, ∀ entry ∈ w.inflight, Sees (stampOf user payload "r1" none) entry.2 := by
  intro h
  have hsees := h eve (some asAda) startsFetch _ rfl _ (List.mem_singleton.mpr rfl) _
    (List.mem_singleton.mpr rfl)
  exact absurd hsees.tools (by decide +kernel)

end LunaCore.Flow
