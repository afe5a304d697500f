import LunaCore.Flow.Runner

/-! The copies of a run's state: the workers' inputs and final states, the mirror in Redis.

        row ─ build ─→ input ─→ final ─ merge update ─→ final ─ set current_node, error ─→ final
        mirror ──────────┘        └────────────────→ mirror ←──────────────────────────────┘

    All of them come from a state built from the row, by three writes. What such a state has and the
    writes keep, every copy has, in every interleaving of workers, aborts and expiries; and every
    node reads what LangGraph makes of an input that has it. -/

namespace LunaCore.Flow
open LunaCore.Values LunaCore.Schemes

/-- The worker has not been given a run state yet. -/
def Pc.unseeded : Pc → Bool
  | .saving | .answering | .marking | .refreshing | .announcing | .seeding => true
  | _ => false

/-- The columns `state.trigger` is made of are those of the row as it was created. -/
structure FlowRun.SameRequest (first run : FlowRun) : Prop where
  trigger : run.trigger = first.trigger
  createdAt : run.createdAt = first.createdAt

/-- What a node returns. -/
def IsUpdate (update : Dict) : Prop := ∃ node read output, update = nodeUpdate node read output

/-- A state built from the row has `Q`, the writes keep it, and a node that is shown what became of
    an input with `Q` reads a state with `R`. -/
structure Lasting (sys : System) (first : FlowRun) (Q R : Dict → Prop) : Prop where
  seeded : ∀ run (task : Task), first.SameRequest run →
    Q (buildInitialState sys.runId none run task.extraState)
  resumed : ∀ state (task : Task), Q state → Q (state.update task.extraState)
  marked : ∀ state key value, key = "current_node" ∨ key = "error" → Q state →
    Q (state.set key value)
  merged : ∀ state update, IsUpdate update → Q state → Q (mergeState state update)
  viewed : ∀ g input (consumed : List Update), (∀ u ∈ consumed, IsUpdate u.2) → Q input →
    R (sys.engine.view g input consumed)

/-- The worker's copies have it, and the updates it was given are nodes'. -/
structure Worker.Lasts (first : FlowRun) (Q R : Dict → Prop) (w : Worker) : Prop where
  seen : first.SameRequest w.seen
  input : w.pc.unseeded = false → Q w.input
  final : w.pc.unseeded = false → w.pc ≠ .entering → Q w.finalState
  reads : ∀ entry ∈ w.inflight, R entry.2
  yielded : ∀ update ∈ w.yielded, IsUpdate update.2
  consumed : ∀ update ∈ w.consumed, IsUpdate update.2

structure Store.Lasts (first : FlowRun) (Q : Dict → Prop) (s : Store) : Prop where
  row : first.SameRequest s.row
  runState : ∀ state ∈ s.runState, Q state

/-- INVARIANT: every copy of the run's state has it. -/
structure State.Lasts (first : FlowRun) (Q R : Dict → Prop) (s : State) : Prop where
  store : s.store.Lasts first Q
  workers : ∀ w ∈ s.workers, w.Lasts first Q R

theorem get_mergeState {state : Dict} {key : String} (update : Dict)
    (h : update.get key = none) : (mergeState state update).get key = state.get key := by
  rw [mergeState]
  induction update generalizing state with
  | nil => rfl
  | cons kv update ih =>
    have hne : kv.1 ≠ key := by
      intro heq
      simp [Dict.get, heq] at h
    have hrest : Dict.get update key = none := by simpa [Dict.get, hne] using h
    have hone : (mergeKey state kv).get key = state.get key := by
      obtain ⟨k, v⟩ := kv
      have hset (value : Json) : (Dict.set state k value).get key = state.get key := by
        rw [Dict.get_set, if_neg (Ne.symm hne)]
      cases v with
      | obj fields =>
        rw [mergeKey]
        split <;> exact hset _
      | _ => exact hset _
    rw [List.foldl_cons, ih hrest, hone]

theorem isUpdate_nodeUpdate (node : FlowNode) (read output : Dict) :
    IsUpdate (nodeUpdate node read output) := ⟨node, read, output, rfl⟩

variable {sys : System} {first : FlowRun} {Q R : Dict → Prop}

/-- What a run is seeded with has it: the mirror's state or the row's. -/
theorem Lasting.build (h : Lasting sys first Q R) {cached : Option Dict} {run : FlowRun} {task : Task}
    (hcached : ∀ state ∈ cached, Q state) (hrun : first.SameRequest run) :
    Q (buildInitialState sys.runId cached run task.extraState) := by
  cases cached with
  | some state => exact h.resumed state task (hcached state rfl)
  | none => exact h.seeded run task hrun

theorem Lasting.view (h : Lasting sys first Q R) {w : Worker} (hw : w.Lasts first Q R)
    (hpc : w.pc = .streaming) {g : Graph} (hg : sys.compile = .ok g) : R (Flow.view sys w) := by
  rw [Flow.view, hg]
  exact h.viewed g w.input w.consumed hw.consumed (hw.input (by rw [hpc]; rfl))

/-! ### The steps of a worker -/

/-- A worker moved to another statement, its run state as it was. -/
theorem Worker.Lasts.goto {w : Worker} (hw : w.Lasts first Q R) (pc : Pc) (alive : Bool)
    (hpc : pc.unseeded = true ∨ w.pc.unseeded = false ∧ w.pc ≠ .entering) :
    ({ w with pc := pc, alive := alive } : Worker).Lasts first Q R := by
  refine ⟨hw.seen, fun hseeded => ?_, fun hseeded _ => ?_, hw.reads, hw.yielded, hw.consumed⟩
  · rcases hpc with hunseeded | ⟨hwas, -⟩
    · simp [hunseeded] at hseeded
    · exact hw.input hwas
  · rcases hpc with hunseeded | ⟨hwas, hentered⟩
    · simp [hunseeded] at hseeded
    · exact hw.final hwas hentered

/-- A worker that is past the seeding and whose run state got another `error` or `current_node`. -/
theorem Worker.Lasts.settle {w : Worker} (hw : w.Lasts first Q R) {pc : Pc} {finalState : Dict}
    (hseeded : w.pc.unseeded = false) (hfinal : Q finalState) :
    ({ w with pc := pc, finalState := finalState } : Worker).Lasts first Q R :=
  ⟨hw.seen, fun _ => hw.input hseeded, fun _ _ => hfinal, hw.reads, hw.yielded, hw.consumed⟩

theorem lasts_advance (hQ : Lasting sys first Q R) {s : Store} {w : Worker} {now : String}
    {r : Store × Worker} (hs : s.Lasts first Q) (hw : w.Lasts first Q R)
    (h : advance sys s w now = some r) : r.1.Lasts first Q ∧ r.2.Lasts first Q R := by
  have hrow (seen assigned : FlowRun) : first.SameRequest (flush seen assigned s.row) :=
    ⟨hs.row.trigger, hs.row.createdAt⟩
  rw [advance] at h
  split at h
  case h_1 | h_2 =>
    obtain rfl := Option.some.inj h
    exact ⟨⟨hs.row, hs.runState⟩, hw.goto _ w.alive (.inl rfl)⟩
  case h_3 hpc =>
    split at h
    · obtain rfl := Option.some.inj h
      exact ⟨⟨hs.row, hs.runState⟩, hw.goto w.pc _ (.inl (by rw [hpc]; rfl))⟩
    · obtain rfl := Option.some.inj h
      exact ⟨⟨hrow _ _, hs.runState⟩, hw.goto _ w.alive (.inl rfl)⟩
  case h_4 =>
    obtain rfl := Option.some.inj h
    have hpc : Pc.unseeded (if w.task = .run then .announcing else .seeding) = true := by
      split <;> rfl
    exact ⟨⟨hs.row, hs.runState⟩, ⟨hs.row, (hw.goto _ w.alive (.inl hpc)).input,
      (hw.goto _ w.alive (.inl hpc)).final, hw.reads, hw.yielded, hw.consumed⟩⟩
  case h_5 =>
    obtain rfl := Option.some.inj h
    exact ⟨⟨hs.row, hs.runState⟩, hw.goto _ w.alive (.inl rfl)⟩
  case h_6 =>
    -- the seeding: the mirror's state, or one made of the session's copy of the row
    obtain rfl := Option.some.inj h
    exact ⟨hs, ⟨hw.seen, fun _ => hQ.build hs.runState hw.seen, fun _ hne => absurd rfl hne,
      hw.reads, hw.yielded, hw.consumed⟩⟩
  case h_7 hpc =>
    obtain rfl := Option.some.inj h
    have hinput := hw.input (by rw [hpc]; rfl)
    refine ⟨⟨hs.row, fun state hstate => ?_⟩,
      ⟨hw.seen, fun _ => hinput, fun _ _ => hinput, hw.reads, hw.yielded, hw.consumed⟩⟩
    exact Option.some.inj hstate ▸ hinput
  case h_8 node hpc =>
    obtain rfl := Option.some.inj h
    have hfinal := hw.final (by rw [hpc]; rfl) (by simp [hpc])
    exact ⟨⟨hrow _ _, hs.runState⟩,
      hw.settle (by rw [hpc]; rfl) (hQ.marked _ _ _ (.inl rfl) hfinal)⟩
  case h_9 hpc =>
    obtain rfl := Option.some.inj h
    have hfinal := hw.final (by rw [hpc]; rfl) (by simp [hpc])
    refine ⟨⟨hs.row, fun state hstate => Option.some.inj hstate ▸ hfinal⟩, ?_⟩
    exact hw.goto w.pc _ (.inr ⟨by rw [hpc]; rfl, by simp [hpc]⟩)
  case h_10 hpc =>
    obtain rfl := Option.some.inj h
    exact ⟨⟨hs.row, hs.runState⟩, hw.goto _ w.alive (.inr ⟨by rw [hpc]; rfl, by simp [hpc]⟩)⟩
  case h_11 hpc =>
    obtain rfl := Option.some.inj h
    exact ⟨⟨hrow _ _, hs.runState⟩, hw.goto _ w.alive (.inr ⟨by rw [hpc]; rfl, by simp [hpc]⟩)⟩
  case h_12 hpc =>
    obtain rfl := Option.some.inj h
    refine ⟨⟨hs.row, fun state hstate => by cases hstate⟩, ?_⟩
    exact hw.goto w.pc _ (.inr ⟨by rw [hpc]; rfl, by simp [hpc]⟩)
  case h_13 => cases h

theorem lasts_completeNode {s : Store} {w : Worker} {node : FlowNode} {state : Dict}
    {reply : Except Failure Dict} (hs : s.Lasts first Q) (hw : w.Lasts first Q R) :
    (completeNode s w node state reply).1.Lasts first Q ∧
      (completeNode s w node state reply).2.Lasts first Q R := by
  rw [completeNode]
  split
  · refine ⟨⟨hs.row, hs.runState⟩,
      ⟨hw.seen, hw.input, hw.final, hw.reads, fun update hmem => ?_, hw.consumed⟩⟩
    rcases List.mem_append.mp hmem with hold | hnew
    · exact hw.yielded update hold
    · rw [List.mem_singleton.mp hnew]
      exact isUpdate_nodeUpdate ..
  · exact ⟨⟨hs.row, hs.runState⟩,
      ⟨hw.seen, hw.input, hw.final, hw.reads, hw.yielded, hw.consumed⟩⟩

theorem lasts_finishNode {s : Store} {w : Worker} {id : String} {reply : Except Failure Dict}
    {r : Store × Worker} (hs : s.Lasts first Q) (hw : w.Lasts first Q R)
    (h : finishNode sys s w id reply = some r) : r.1.Lasts first Q ∧ r.2.Lasts first Q R := by
  obtain ⟨e, node, _, _, _, _, _, rfl⟩ := finishNode_cases h
  have hleft : ({ w with inflight := w.inflight.erase e } : Worker).Lasts first Q R :=
    ⟨hw.seen, hw.input, hw.final, fun entry hentry => hw.reads entry (List.mem_of_mem_erase hentry),
      hw.yielded, hw.consumed⟩
  split
  · exact ⟨⟨hs.row, hs.runState⟩, ⟨hleft.seen, hleft.input, hleft.final, hleft.reads,
      hleft.yielded, hleft.consumed⟩⟩
  · exact lasts_completeNode hs hleft

theorem lasts_startNode (hQ : Lasting sys first Q R) {s : Store} {w : Worker} {id : String}
    {r : Store × Worker} (hs : s.Lasts first Q) (hw : w.Lasts first Q R)
    (h : startNode sys s w id = some r) : r.1.Lasts first Q ∧ r.2.Lasts first Q R := by
  rw [startNode] at h
  split at h
  case isFalse => cases h
  case isTrue hcond =>
    obtain ⟨hpc, htask, -⟩ := hcond
    obtain ⟨node, _, rfl⟩ := Option.map_eq_some_iff.mp h
    obtain ⟨g, hg⟩ : ∃ g, sys.compile = .ok g := by
      rw [tasks] at htask
      cases hg : sys.compile with
      | ok g => exact ⟨g, rfl⟩
      | error e => simp [hg] at htask
    refine ⟨⟨hs.row, hs.runState⟩,
      ⟨hw.seen, hw.input, hw.final, fun entry hentry => ?_, hw.yielded, hw.consumed⟩⟩
    rcases List.mem_append.mp hentry with hold | hnew
    · exact hw.reads entry hold
    · rw [List.mem_singleton.mp hnew]
      exact hQ.view hw hpc hg

theorem lasts_consume (hQ : Lasting sys first Q R) {s : Store} {w : Worker} {r : Store × Worker}
    (hs : s.Lasts first Q) (hw : w.Lasts first Q R) (h : consume s w = some r) :
    r.1.Lasts first Q ∧ r.2.Lasts first Q R := by
  rw [consume] at h
  split at h
  case h_2 => cases h
  case h_1 update rest hpc hyielded =>
    have hseeded : w.pc.unseeded = false := by rw [hpc]; rfl
    have hfinal := hw.final hseeded (by simp [hpc])
    split at h
    · obtain rfl := Option.some.inj h
      exact ⟨hs, hw.settle hseeded (hQ.marked _ _ _ (.inr rfl) hfinal)⟩
    · obtain rfl := Option.some.inj h
      have hupdate : ∀ u ∈ update :: rest, IsUpdate u.2 := hyielded ▸ hw.yielded
      have hmerged := hQ.merged _ _ (hupdate update List.mem_cons_self) hfinal
      refine ⟨⟨hs.row, fun state hstate => Option.some.inj hstate ▸ hmerged⟩,
        ⟨hw.seen, hw.input, fun _ _ => hmerged, hw.reads,
          fun u hu => hupdate u (List.mem_cons_of_mem _ hu), fun u hu => ?_⟩⟩
      rcases List.mem_append.mp hu with hold | hnew
      · exact hw.consumed u hold
      · rw [List.mem_singleton.mp hnew]
        exact hupdate update List.mem_cons_self

theorem lasts_surface (hQ : Lasting sys first Q R) {s : Store} {w : Worker} {r : Store × Worker}
    (hs : s.Lasts first Q) (hw : w.Lasts first Q R) (h : surface s w = some r) :
    r.1.Lasts first Q ∧ r.2.Lasts first Q R := by
  rw [surface] at h
  split at h
  case h_1 hpc _ =>
    obtain rfl := Option.some.inj h
    exact ⟨hs, hw.goto _ w.alive (.inr ⟨by rw [hpc]; rfl, by simp [hpc]⟩)⟩
  case h_2 hpc _ =>
    obtain rfl := Option.some.inj h
    have hfinal := hw.final (by rw [hpc]; rfl) (by simp [hpc])
    exact ⟨hs, hw.settle (by rw [hpc]; rfl) (hQ.marked _ _ _ (.inr rfl) hfinal)⟩
  case h_3 => cases h

theorem lasts_workerStep (hQ : Lasting sys first Q R) {s : Store} {w : Worker} {a : WorkerAction}
    {r : Store × Worker} (hs : s.Lasts first Q) (hw : w.Lasts first Q R)
    (h : workerStep sys s w a = some r) : r.1.Lasts first Q ∧ r.2.Lasts first Q R := by
  cases a with
  | advance now => exact lasts_advance hQ hs hw h
  | startNode id => exact lasts_startNode hQ hs hw h
  | finishNode id reply => exact lasts_finishNode hs hw h
  | consume => exact lasts_consume hQ hs hw h
  | surface => exact lasts_surface hQ hs hw h
  | endStream =>
    simp only [workerStep] at h
    split at h
    case isFalse => cases h
    case isTrue hcond =>
      obtain rfl := Option.some.inj h
      exact ⟨hs, hw.goto _ w.alive (.inr ⟨by rw [hcond.1]; rfl, by simp [hcond.1]⟩)⟩
  | fault f =>
    simp only [workerStep] at h
    split at h
    case isTrue hpc =>
      obtain rfl := Option.some.inj h
      have hfinal := hw.final (by rw [hpc]; rfl) (by simp [hpc])
      exact ⟨hs, hw.settle (by rw [hpc]; rfl) (hQ.marked _ _ _ (.inr rfl) hfinal)⟩
    case isFalse =>
      obtain rfl := Option.some.inj h
      exact ⟨⟨hs.row, hs.runState⟩,
        ⟨hw.seen, hw.input, hw.final, hw.reads, hw.yielded, hw.consumed⟩⟩
  | reload =>
    obtain rfl := Option.some.inj h
    exact ⟨hs, ⟨hs.row, hw.input, hw.final, hw.reads, hw.yielded, hw.consumed⟩⟩
  | redeliver =>
    obtain rfl := Option.some.inj h
    exact ⟨⟨hs.row, hs.runState⟩, hw⟩
  | crash =>
    obtain rfl := Option.some.inj h
    exact ⟨⟨hs.row, hs.runState⟩,
      ⟨hw.seen, hw.input, hw.final, hw.reads, hw.yielded, hw.consumed⟩⟩

/-! ### The steps of a run -/

theorem lasts_fresh (task : Task) {pc : Pc} (hpc : pc.unseeded = true) {row : FlowRun}
    (hrow : first.SameRequest row) (pause : ℕ) (answers : Option String) :
    (Worker.fresh task pc row pause answers).Lasts first Q R := by
  refine ⟨hrow, fun h => ?_, fun h => ?_, List.forall_mem_nil _, List.forall_mem_nil _,
    List.forall_mem_nil _⟩
  all_goals exact absurd (hpc.symm.trans h) (by decide)

/-- A worker that has it joins, with the task it was handed. -/
theorem State.Lasts.join {s : State} (hs : s.Lasts first Q R) {w : Worker} (hw : w.Lasts first Q R)
    {queue : List Task} :
    ({ s with
      store := { s.store with queue := queue }
      workers := s.workers ++ [w] } : State).Lasts first Q R := by
  refine ⟨⟨hs.store.row, hs.store.runState⟩, fun v hv => ?_⟩
  rcases List.mem_append.mp hv with hold | hnew
  · exact hs.workers v hold
  · rw [List.mem_singleton.mp hnew]
    exact hw

/-- STEP: every party's step keeps it. -/
theorem lasts_step (hQ : Lasting sys first Q R) (s : State) (a : Action) (t : State)
    (hs : s.Lasts first Q R) (h : step sys s a = some t) : t.Lasts first Q R := by
  cases a with
  | requestResume response metadata =>
    obtain rfl := Option.some.inj h
    exact ⟨⟨hs.store.row, hs.store.runState⟩, hs.workers⟩
  | requestAbort =>
    simp only [step] at h
    split at h
    · obtain rfl := Option.some.inj h
      exact hs
    · obtain rfl := Option.some.inj h
      exact ⟨hs.store, hs.workers⟩
  | advanceAbort k now =>
    obtain ⟨abort, r, _, hr, rfl⟩ := abort_cases h
    refine ⟨?_, hs.workers⟩
    rw [advanceAbort] at hr
    split at hr
    case h_4 => cases hr
    all_goals
      obtain rfl := Option.some.inj hr
      exact ⟨⟨hs.store.row.trigger, hs.store.row.createdAt⟩, hs.store.runState⟩
  | expireAbortKey =>
    obtain rfl := Option.some.inj h
    exact ⟨⟨hs.store.row, hs.store.runState⟩, hs.workers⟩
  | expireRunState =>
    obtain rfl := Option.some.inj h
    exact ⟨⟨hs.store.row, by simp⟩, hs.workers⟩
  | deliver k =>
    rcases deliver_cases h with ⟨_, rfl⟩ | ⟨_, _, _, _, _, rfl⟩ | ⟨_, _, _, _, _, _, rfl⟩
    · exact hs.join (lasts_fresh _ rfl hs.store.row _ _)
    · exact hs.join (lasts_fresh _ rfl hs.store.row _ _)
    · exact ⟨⟨hs.store.row, hs.store.runState⟩, hs.workers⟩
  | work i a =>
    obtain ⟨w, r, hw, _, hr, rfl⟩ := work_cases h
    obtain ⟨hstore, hworker⟩ :=
      lasts_workerStep hQ hs.store (hs.workers w (List.mem_of_getElem? hw)) hr
    refine ⟨hstore, fun v hv => ?_⟩
    rcases List.mem_or_eq_of_mem_set hv with hold | rfl
    · exact hs.workers v hold
    · exact hworker

/-- RUN: from the row as it was created on, every copy has it. -/
theorem lasts_run {flowId : String} {trigger : Dict} {createdAt : Option String}
    (hQ : Lasting sys ⟨flowId, .pending, trigger, [], createdAt, none, none⟩ Q R)
    {as : List Action} {t : State}
    (hrun : runFrom (step sys) (.triggered flowId trigger createdAt) as = some t) :
    t.Lasts ⟨flowId, .pending, trigger, [], createdAt, none, none⟩ Q R := by
  refine inv_run (lasts_step hQ) ⟨⟨⟨rfl, rfl⟩, fun state h => ?_⟩, fun w h => ?_⟩ hrun
  · cases h
  · cases h

/-! ### The fields set once -/

/-- The fields of a run state that only the first one sets. -/
def setOnce : List String := ["run_id", "flow_id", "inputs", "trigger"]

theorem get_extraState (task : Task) {key : String} (hkey : key ∈ setOnce) :
    Dict.get task.extraState.reverse key = none := by
  cases task with
  | run => rfl
  | resume request response metadata =>
    have hne : "human_response" ≠ key := by
      rintro rfl
      exact absurd hkey (by decide)
    simp [Task.extraState, Dict.get, hne]

theorem IsUpdate.get {update : Dict} (h : IsUpdate update) {key : String} (hkey : key ∈ setOnce) :
    update.get key = none := by
  obtain ⟨node, read, output, rfl⟩ := h
  have houtputs : "outputs" ≠ key := by
    rintro rfl
    exact absurd hkey (by decide)
  have hnode : "current_node" ≠ key := by
    rintro rfl
    exact absurd hkey (by decide)
  simp [nodeUpdate, Dict.get, houtputs, hnode]

/-- What the row gives such a field every copy has. -/
theorem lasting_get {key : String} {value : Json} (hkey : key ∈ setOnce)
    (hseed : ∀ run, first.SameRequest run →
      (buildInitialState sys.runId none run []).get key = some value)
    (hviewed : ∀ g input (consumed : List Update), (∀ u ∈ consumed, IsUpdate u.2) →
      input.get key = some value → R (sys.engine.view g input consumed)) :
    Lasting sys first (fun state => state.get key = some value) R where
  seeded run task hrun := by
    rw [buildInitialState, Dict.get_update, get_extraState task hkey, Option.none_or]
    exact hseed run hrun
  resumed state task h := by
    rw [Dict.get_update, get_extraState task hkey, Option.none_or]
    exact h
  marked state name value hname h := by
    have hne : key ≠ name := by
      rintro rfl
      rcases hname with rfl | rfl
      · exact absurd hkey (by decide)
      · exact absurd hkey (by decide)
    rw [Dict.get_set, if_neg hne]
    exact h
  merged state update hupdate h := (get_mergeState update (hupdate.get hkey)).trans h
  viewed := hviewed

end LunaCore.Flow
