import LunaCore.Flow.RunState
import LunaCore.Schemes.Parties

/-! What a resume starts from: the mirror in Redis if it is still there, else the row.

        pausing     row: paused, final state         mirror: after the last update
        mirroring   row: paused, final state         mirror: final state
        resume      mirror there  → mirror ─────────────────────────────────┐
                    mirror gone   → row.trigger, row.state, created_at ─────┴→ + human_response

    The two writes of a pause are two steps. Where each pause makes both and executions of the run
    do not overlap, the mirror of a paused run is the row's state; a worker lost between them leaves
    a paused row beside the mirror of the update before. -/

namespace LunaCore.Flow.Rebuilding
open LunaCore.Values LunaCore.Schemes

/-- What a resume must find wherever its state comes from. -/
def rebuilt : List String := ["inputs", "trigger", "context", "outputs", "current_node"]

/-- A resume that answers with `response` starts from the same state, mirror or not, and the answer
    is part of it. -/
structure SameStart (runId : String) (mirror : Option Dict) (run : FlowRun) (response : String) :
    Prop where
  fields : ∀ key ∈ rebuilt,
    (buildInitialState runId mirror run [("human_response", .str response)]).get key =
      (buildInitialState runId none run [("human_response", .str response)]).get key
  response : ∀ cached, cached = mirror ∨ cached = none →
    (buildInitialState runId cached run [("human_response", .str response)]).get "human_response" =
      some (.str response)

/-- So it is for a paused run, once no worker is between the two writes of the pause, and for a
    resume that is about to build its state. -/
structure Rebuilds (sys : System) (s : State) : Prop where
  paused : s.store.row.status = .paused → (∀ w ∈ s.workers, w.alive = true → w.pc ≠ .mirroring) →
    ∀ response, SameStart sys.runId s.store.runState s.store.row response
  resumed : ∀ w ∈ s.workers, w.alive = true → w.pc = .seeding →
    ∀ request response metadata, w.task = .resume request response metadata →
      SameStart sys.runId s.store.runState w.seen response

/-- A task goes to a worker where none is alive, and none is lost between the two writes of a pause
    as long as there is a mirror. -/
def Undisturbed (s : State) : Action → Prop
  | .deliver k => ∀ task ∈ s.store.queue[k]?, task = .run ∨ s.store.row.status = .paused →
      ∀ w ∈ s.workers, w.alive = false
  | .work i .crash | .work i (.fault _) => ∀ w ∈ s.workers[i]?,
      w.pc = .mirroring → s.store.runState = none
  | _ => True

instance (s : State) : ∀ a, Decidable (Undisturbed s a)
  | .deliver k => inferInstanceAs (Decidable (∀ task ∈ s.store.queue[k]?,
      task = .run ∨ s.store.row.status = .paused → ∀ w ∈ s.workers, w.alive = false))
  | .work i .crash | .work i (.fault _) => inferInstanceAs (Decidable (∀ w ∈ s.workers[i]?,
      w.pc = .mirroring → s.store.runState = none))
  | .requestResume .. | .requestAbort | .advanceAbort .. | .expireAbortKey | .expireRunState
  | .work _ (.advance _) | .work _ (.startNode _) | .work _ (.finishNode ..) | .work _ .consume
  | .work _ .surface | .work _ .endStream | .work _ .reload | .work _ .redeliver => isTrue trivial

/-! ### Two copies of one state -/

/-- The mirror, if there, is the row's state. -/
def Mirrored (s : Store) : Prop := ∀ state ∈ s.runState, state = s.row.state

/-- The fields that every state has and nodes write. -/
def written : List String := ["context", "outputs", "current_node"]

variable {sys : System} {first : FlowRun}

theorem isSome_mergeState {state : Dict} {key : String} (update : Dict)
    (h : (state.get key).isSome = true) : ((mergeState state update).get key).isSome = true := by
  rw [mergeState]
  induction update generalizing state with
  | nil => exact h
  | cons kv update ih =>
    have hset (k : String) (value : Json) : ((state.set k value).get key).isSome = true := by
      rw [Dict.get_set]
      split
      · rfl
      · exact h
    refine ih ?_
    obtain ⟨k, v⟩ := kv
    cases v with
    | obj fields =>
      rw [mergeKey]
      split <;> exact hset _ _
    | _ => exact hset _ _

theorem isSome_update {state : Dict} {key : String} (extra : Dict)
    (h : (state.get key).isSome = true) : ((state.update extra).get key).isSome = true := by
  rw [Dict.get_update, Option.isSome_or, h, Bool.or_true]

/-- Every copy has them. -/
theorem lasting_written : Lasting sys first
    (fun state => ∀ key ∈ written, (state.get key).isSome = true) (fun _ => True) where
  seeded run task _ key hkey := by
    refine isSome_update _ ?_
    simp only [written, List.mem_cons, List.not_mem_nil, or_false] at hkey
    rcases hkey with rfl | rfl | rfl <;> rfl
  resumed state task h key hkey := isSome_update _ (h key hkey)
  marked state name value _ h key hkey := by
    rw [Dict.get_set]
    split
    · rfl
    · exact h key hkey
  merged state update _ h key hkey := isSome_mergeState update (h key hkey)
  viewed _ _ _ _ _ := trivial

/-- What the row gives two of the fields does not change. -/
theorem seeded_request {run : FlowRun} (hsame : first.SameRequest run) {key : String}
    (hkey : key = "inputs" ∨ key = "trigger") :
    (buildInitialState sys.runId none run []).get key =
      (buildInitialState sys.runId none first []).get key := by
  rcases hkey with rfl | rfl
  · change some ((run.trigger.get "inputs").getD (.obj [])) =
      some ((first.trigger.get "inputs").getD (.obj []))
    rw [hsame.trigger]
  · change some (Json.obj (triggerState sys.runId run)) =
      some (Json.obj (triggerState sys.runId first))
    rw [triggerState, hsame.trigger, hsame.createdAt, triggerState]

/-- What a state starts from, before the answer is put in. -/
theorem get_buildInitialState (runId : String) (cached : Option Dict) (run : FlowRun)
    (extra : Dict) (key : String) :
    (buildInitialState runId cached run extra).get key =
      (Dict.get extra.reverse key).or ((buildInitialState runId cached run []).get key) := by
  cases cached with
  | some state => exact Dict.get_update state extra key
  | none => exact Dict.get_update _ extra key

/-- A row whose state has the written fields gives them as it has them. -/
theorem seeded_written {runId : String} {run : FlowRun}
    (hwritten : ∀ key ∈ written, (run.state.get key).isSome = true) {key : String}
    (hkey : key ∈ written) : (buildInitialState runId none run []).get key = run.state.get key := by
  obtain ⟨value, hvalue⟩ := Option.isSome_iff_exists.mp (hwritten key hkey)
  have hstate : run.state.isEmpty = false := by
    cases hentries : run.state with
    | nil =>
      rw [hentries] at hvalue
      cases hvalue
    | cons _ _ => rfl
  simp only [written, List.mem_cons, List.not_mem_nil, or_false] at hkey
  rcases hkey with rfl | rfl | rfl
  · change some ((run.state.get "context").getD (.obj [])) = _
    rw [hvalue, Option.getD_some]
  · change some ((run.state.get "outputs").getD (.obj [])) = _
    rw [hvalue, Option.getD_some]
  · change some (if run.state.isEmpty then .str "" else (run.state.get "current_node").getD .null) = _
    rw [hstate, hvalue, Option.getD_some, if_neg Bool.false_ne_true]

/-- SPEC: a mirror that is the row's state and has what the row gives makes no difference. -/
theorem sameStart_of_mirrored {runId : String} {mirror : Option Dict} {run : FlowRun}
    (hmirror : ∀ state ∈ mirror, state = run.state)
    (hrequest : ∀ state ∈ mirror, ∀ key, key = "inputs" ∨ key = "trigger" →
      state.get key = (buildInitialState runId none run []).get key)
    (hwritten : ∀ state ∈ mirror, ∀ key ∈ written, (state.get key).isSome = true)
    (response : String) : SameStart runId mirror run response := by
  refine ⟨fun key hkey => ?_, fun cached _ => ?_⟩
  · rw [get_buildInitialState, get_buildInitialState runId none]
    congr 1
    cases mirror with
    | none => rfl
    | some state =>
      change state.get key = _
      have hcases : (key = "inputs" ∨ key = "trigger") ∨ key ∈ written := by
        simp only [rebuilt, List.mem_cons, List.not_mem_nil, or_false] at hkey
        simp only [written, List.mem_cons, List.not_mem_nil, or_false]
        rwa [or_assoc]
      rcases hcases with hfixed | hnode
      · exact hrequest state rfl key hfixed
      · obtain rfl := hmirror state rfl
        exact (seeded_written (hwritten _ rfl) hnode).symm
  · rw [get_buildInitialState]
    rfl

/-! ### One worker -/

/-- The worker has not written `running` yet. -/
def unmarked : Pc → Bool
  | .saving | .answering | .marking => true
  | _ => false

/-- The worker's session has read the row since it wrote `running`, and nothing was written after. -/
def synced : Pc → Bool
  | .announcing | .seeding | .entering | .streaming | .pausing _ | .reporting _ | .settling _ => true
  | _ => false

/-- What holds of the only worker: until it builds its state the mirror is as it found it, `paused`
    is in the row only before it writes `running` and between the two writes of its pause. -/
structure InStep (s : Store) (w : Worker) : Prop where
  found : w.pc.unseeded = true → w.task ≠ .run → Mirrored s
  before : unmarked w.pc = true → s.row.status = .paused → Mirrored s ∧ w.seen.status ≠ .running
  running : unmarked w.pc = false → w.pc ≠ .mirroring → s.row.status ≠ .paused
  session : synced w.pc = true → w.seen.status ≠ .paused ∧ w.seen.state = s.row.state
  pausing : w.pc = .mirroring → s.row.state = w.finalState

/-- Where a step leaves the store and its worker: in step, or at an end that leaves a paused run
    mirrored. -/
structure Lands (r : Store × Worker) : Prop where
  alive : r.2.alive = true → InStep r.1 r.2
  ended : r.2.alive = false → r.1.row.status = .paused → Mirrored r.1

/-- What the writes around a worker leave. -/
structure Undone (s s' : Store) : Prop where
  state : s'.row.state = s.row.state
  status : s'.row.status = .paused → s.row.status = .paused
  runState : ∀ state ∈ s'.runState, state ∈ s.runState

theorem Undone.refl (s : Store) : Undone s s := ⟨rfl, id, fun _ => id⟩

theorem Undone.mirrored {s s' : Store} (h : Undone s s') (hs : Mirrored s) : Mirrored s' :=
  fun state hstate => (hs state (h.runState state hstate)).trans h.state.symm

theorem InStep.undone {s s' : Store} {w : Worker} (hw : InStep s w) (h : Undone s s') :
    InStep s' w where
  found hpc htask := h.mirrored (hw.found hpc htask)
  before hpc hpaused :=
    ⟨h.mirrored (hw.before hpc (h.status hpaused)).1, (hw.before hpc (h.status hpaused)).2⟩
  running hpc hne hpaused := hw.running hpc hne (h.status hpaused)
  session hpc := ⟨(hw.session hpc).1, (hw.session hpc).2.trans h.state.symm⟩
  pausing hpc := h.state.trans (hw.pausing hpc)

/-- A worker that ends anywhere but between the two writes of a pause leaves a paused run mirrored. -/
theorem InStep.ends {s : Store} {w : Worker} (hw : InStep s w)
    (hpc : w.pc = .mirroring → s.runState = none) (hpaused : s.row.status = .paused) :
    Mirrored s := by
  by_cases hmirroring : w.pc = .mirroring
  · intro state hstate
    rw [hpc hmirroring] at hstate
    cases hstate
  · cases hunmarked : unmarked w.pc with
    | true => exact (hw.before hunmarked hpaused).1
    | false => exact absurd hpaused (hw.running hunmarked hmirroring)

theorem lands_of_inStep {r : Store × Worker} (halive : r.2.alive = true) (h : InStep r.1 r.2) :
    Lands r :=
  ⟨fun _ => h, fun hdead => absurd (halive.symm.trans hdead) (by decide)⟩

theorem lands_of_end {r : Store × Worker} (hdead : r.2.alive = false)
    (h : r.1.row.status = .paused → Mirrored r.1) : Lands r :=
  ⟨fun halive => absurd (halive.symm.trans hdead) (by decide), fun _ => h⟩

theorem synced_cases {pc : Pc} (h : synced pc = true) : unmarked pc = false ∧ pc ≠ .mirroring := by
  cases pc <;> simp_all [synced, unmarked]

/-- A worker whose session has read a row that is not paused. -/
theorem inStep_synced {s : Store} {w : Worker} (hpc : synced w.pc = true)
    (hfound : w.pc.unseeded = true → w.task ≠ .run → Mirrored s) (hrow : s.row.status ≠ .paused)
    (hseen : w.seen.status ≠ .paused ∧ w.seen.state = s.row.state) : InStep s w where
  found := hfound
  before hunmarked := absurd ((synced_cases hpc).1.symm.trans hunmarked) (by decide)
  running _ _ := hrow
  session _ := hseen
  pausing hmirroring := absurd hmirroring (synced_cases hpc).2

theorem InStep.running_of_synced {s : Store} {w : Worker} (hw : InStep s w)
    (hpc : synced w.pc = true) : s.row.status ≠ .paused :=
  hw.running (synced_cases hpc).1 (synced_cases hpc).2

/-- Another status than `paused` is written, or is in the row of a session that has it already. -/
theorem setRunStatus_ne_paused {seen row : FlowRun} {status : FlowRunStatus} {state : Option Dict}
    {now : String} (hstatus : status ≠ .paused) (hrow : status = seen.status → row.status ≠ .paused) :
    (setRunStatus seen row status state now).status ≠ .paused := by
  rw [setRunStatus_status]
  split
  case isTrue hseen => exact hrow hseen
  case isFalse => exact hstatus

/-- A session whose copy of the state is the row's leaves the state it assigns. -/
theorem setRunStatus_state {seen row : FlowRun} {status : FlowRunStatus} {state : Dict}
    {now : String} (hseen : seen.state = row.state) :
    (setRunStatus seen row status (some state) now).state = state := by
  change column seen.state state row.state = state
  rw [column]
  split
  case isTrue hsame => exact (hsame.trans hseen).symm
  case isFalse => rfl

theorem inStep_advance {s : Store} {w : Worker} {now : String} {r : Store × Worker}
    (hw : InStep s w) (halive : w.alive = true) (h : advance sys s w now = some r) : Lands r := by
  rw [advance] at h
  split at h
  case h_1 hpc _ | h_2 hpc _ =>
    obtain rfl := Option.some.inj h
    refine lands_of_inStep halive ⟨fun _ => hw.found (by rw [hpc]; rfl),
      fun _ => hw.before (by rw [hpc]; rfl), fun hmarked => ?_, fun hsynced => ?_, fun hpc' => ?_⟩
    · cases hmarked
    · cases hsynced
    · cases hpc'
  case h_3 hpc =>
    split at h
    · obtain rfl := Option.some.inj h
      exact lands_of_end rfl fun hpaused => (hw.before (by rw [hpc]; rfl) hpaused).1
    · -- `running` is written, unless the session's copy says it already
      obtain rfl := Option.some.inj h
      have hstate : (setRunStatus w.seen s.row .running none now).state = s.row.state := if_pos rfl
      refine lands_of_inStep halive ⟨fun _ htask => ?_, fun hunmarked => ?_, fun _ _ => ?_,
        fun hsynced => ?_, fun hpc' => ?_⟩
      · exact fun state hm => (hw.found (by rw [hpc]; rfl) htask state hm).trans hstate.symm
      · cases hunmarked
      · exact setRunStatus_ne_paused (by decide) fun hseen hpaused =>
          (hw.before (by rw [hpc]; rfl) hpaused).2 hseen.symm
      · cases hsynced
      · cases hpc'
  case h_4 hpc =>
    obtain rfl := Option.some.inj h
    have hrow : s.row.status ≠ .paused := hw.running (by rw [hpc]; rfl) (by simp [hpc])
    have hsynced : synced (if w.task = .run then .announcing else .seeding) = true := by
      split <;> rfl
    exact lands_of_inStep halive
      (inStep_synced hsynced (fun _ => hw.found (by rw [hpc]; rfl)) hrow ⟨hrow, rfl⟩)
  case h_5 hpc =>
    have hsynced : synced w.pc = true := by rw [hpc]; rfl
    obtain rfl := Option.some.inj h
    exact lands_of_inStep halive (inStep_synced rfl (fun _ => hw.found (by rw [hpc]; rfl))
      (hw.running_of_synced hsynced) (hw.session hsynced))
  case h_6 hpc | h_7 hpc | h_10 hpc =>
    have hsynced : synced w.pc = true := by rw [hpc]; rfl
    obtain rfl := Option.some.inj h
    refine lands_of_inStep halive (inStep_synced rfl (fun hunseeded => ?_)
      (hw.running_of_synced hsynced) (hw.session hsynced))
    cases hunseeded
  case h_8 node hpc =>
    -- the session's copy is the row's but for the status, so the row takes the final state
    have hsynced : synced w.pc = true := by rw [hpc]; rfl
    obtain rfl := Option.some.inj h
    refine lands_of_inStep halive ⟨fun hunseeded => ?_, fun hunmarked => ?_,
      fun _ hne => absurd rfl hne, fun hsynced' => ?_, fun _ => ?_⟩
    · cases hunseeded
    · cases hunmarked
    · cases hsynced'
    · exact setRunStatus_state (hw.session hsynced).2
  case h_9 hpc =>
    obtain rfl := Option.some.inj h
    refine lands_of_end rfl fun _ state hstate => ?_
    rw [← Option.some.inj hstate]
    exact (hw.pausing hpc).symm
  case h_11 e hpc =>
    have hsynced : synced w.pc = true := by rw [hpc]; rfl
    obtain rfl := Option.some.inj h
    refine lands_of_inStep halive ⟨fun hunseeded => ?_, fun hunmarked => ?_, fun _ _ => ?_,
      fun hsynced => ?_, fun hpc' => ?_⟩
    · cases hunseeded
    · cases hunmarked
    · exact setRunStatus_ne_paused (by cases e <;> simp [Ending.status]) fun _ =>
        hw.running_of_synced hsynced
    · cases hsynced
    · cases hpc'
  case h_12 =>
    obtain rfl := Option.some.inj h
    refine lands_of_end rfl fun _ state hstate => ?_
    cases hstate
  case h_13 => cases h

theorem lands_streaming {s : Store} {w : Worker} {r : Store × Worker} (hw : InStep s w)
    (hpc : w.pc = .streaming) (hframe : StreamFrame s w r) : Lands r := by
  have hsynced : synced w.pc = true := by rw [hpc]; rfl
  have hrow : r.1.row.status ≠ .paused := by
    rw [hframe.row]
    exact hw.running_of_synced hsynced
  have hseen : r.2.seen.status ≠ .paused ∧ r.2.seen.state = r.1.row.state := by
    rcases hframe.seen with hseen | hseen
    · rw [hseen, hframe.row]
      exact hw.session hsynced
    · rw [hseen, hframe.row]
      exact ⟨hw.running_of_synced hsynced, rfl⟩
  have hpc' : r.2.pc = .streaming ∨ (∃ node, r.2.pc = .pausing node) ∨ ∃ e, r.2.pc = .reporting e := by
    rcases hframe.pc with hsame | ⟨-, hleft⟩
    · exact .inl (hsame.trans hpc)
    · exact .inr hleft
  refine ⟨fun _ => ?_, fun _ hpaused => absurd hpaused hrow⟩
  rcases hpc' with hpc' | ⟨node, hpc'⟩ | ⟨e, hpc'⟩
  all_goals
    refine inStep_synced (by rw [hpc']; rfl) (fun hunseeded => ?_) hrow hseen
    rw [hpc'] at hunseeded
    cases hunseeded

/-- STEP: the only worker stays in step, or ends leaving a paused run mirrored. -/
theorem lands_workerStep {s : Store} {w : Worker} {a : WorkerAction} {r : Store × Worker}
    (hw : InStep s w) (halive : w.alive = true)
    (hlost : a = .crash ∨ (∃ f, a = .fault f) → w.pc = .mirroring → s.runState = none)
    (h : workerStep sys s w a = some r) : Lands r := by
  rcases workerStep_frame h with ⟨now, -, hadvance⟩ | hframe
  · exact inStep_advance hw halive hadvance
  · by_cases hpc : w.pc = .streaming
    · exact lands_streaming hw hpc hframe
    · cases a with
      | advance now => exact inStep_advance hw halive h
      | startNode id =>
        simp only [workerStep, startNode, hpc, false_and, if_false] at h
        cases h
      | finishNode id reply =>
        simp only [workerStep, finishNode, hpc, if_false] at h
        cases h
      | consume =>
        simp only [workerStep, consume] at h
        split at h
        case h_1 hstreaming _ => exact absurd hstreaming hpc
        case h_2 => cases h
      | surface =>
        simp only [workerStep, surface] at h
        split at h
        case h_1 hstreaming _ => exact absurd hstreaming hpc
        case h_2 hstreaming _ => exact absurd hstreaming hpc
        case h_3 => cases h
      | endStream =>
        simp only [workerStep, hpc, false_and, if_false] at h
        cases h
      | fault f =>
        simp only [workerStep, hpc, if_false] at h
        obtain rfl := Option.some.inj h
        exact lands_of_end rfl (hw.ends (hlost (.inr ⟨f, rfl⟩)))
      | reload =>
        obtain rfl := Option.some.inj h
        refine lands_of_inStep halive ⟨hw.found, fun hunmarked hpaused => ?_, hw.running,
          fun hsynced => ⟨hw.running_of_synced hsynced, rfl⟩, hw.pausing⟩
        refine ⟨(hw.before hunmarked hpaused).1, ?_⟩
        change s.row.status ≠ .running
        rw [hpaused]
        decide
      | redeliver =>
        obtain rfl := Option.some.inj h
        exact lands_of_inStep halive (hw.undone ⟨rfl, id, fun _ => id⟩)
      | crash =>
        obtain rfl := Option.some.inj h
        exact lands_of_end rfl (hw.ends (hlost (.inl rfl)))

/-! ### The run -/

/-- INVARIANT: at most one worker is alive, and it is in step; without one a paused run is
    mirrored. -/
structure Coherent (s : State) : Prop where
  one : ∀ (i j : ℕ) (v w : Worker), s.workers[i]? = some v → s.workers[j]? = some w →
    v.alive = true → w.alive = true → i = j
  quiet : (∀ w ∈ s.workers, w.alive = false) → s.store.row.status = .paused → Mirrored s.store
  inStep : ∀ w ∈ s.workers, w.alive = true → InStep s.store w

/-- A paused run is mirrored once nobody is between the two writes of the pause. -/
theorem Coherent.mirrored {s : State} (hs : Coherent s) (hpaused : s.store.row.status = .paused)
    (hwrites : ∀ w ∈ s.workers, w.alive = true → w.pc ≠ .mirroring) : Mirrored s.store := by
  by_cases hdead : ∀ w ∈ s.workers, w.alive = false
  · exact hs.quiet hdead hpaused
  · obtain ⟨w, hw, halive⟩ : ∃ w ∈ s.workers, w.alive = true := by simpa using hdead
    exact (hs.inStep w hw halive).ends (fun hpc => absurd hpc (hwrites w hw halive)) hpaused

/-- What is around the workers. -/
theorem Coherent.undone {s : State} (hs : Coherent s) {store : Store} {aborts : List Abort}
    {requests : ℕ} (h : Undone s.store store) : Coherent ⟨store, s.workers, aborts, requests⟩ where
  one := hs.one
  quiet hdead hpaused := h.mirrored (hs.quiet hdead (h.status hpaused))
  inStep w hw halive := (hs.inStep w hw halive).undone h

theorem coherent_work {s t : State} {i : ℕ} {a : WorkerAction} (hs : Coherent s)
    (hok : Undisturbed s (.work i a)) (h : step sys s (.work i a) = some t) : Coherent t := by
  obtain ⟨w, r, hw, halive, hr, rfl⟩ := work_cases h
  have hlost : a = .crash ∨ (∃ f, a = .fault f) → w.pc = .mirroring → s.store.runState = none := by
    rintro (rfl | ⟨f, rfl⟩)
    · exact hok w hw
    · exact hok w hw
  have hlands := lands_workerStep (hs.inStep w (List.mem_of_getElem? hw) halive) halive hlost hr
  refine ⟨one_moved hs.one fun _ j v hv hvalive => hs.one i j w v hw hv halive hvalive,
    fun hdead hpaused => ?_, fun v hv hvalive => ?_⟩
  · exact hlands.ended (hdead r.2 (List.mem_of_getElem? (moved_self r.2 hw))) hpaused
  · obtain ⟨j, hj⟩ := List.mem_iff_getElem?.mp hv
    rcases moved_cases hj with ⟨-, rfl⟩ | ⟨hne, hold⟩
    · exact hlands.alive hvalive
    · exact absurd (hs.one i j w v hw hold halive hvalive) hne

/-- A task goes to a worker where none is alive: it finds what the last one left. -/
theorem coherent_deliver {s : State} (hs : Coherent s) {store : Store} {w : Worker}
    (h : Undone s.store store) (hdead : ∀ v ∈ s.workers, v.alive = false) (halive : w.alive = true)
    (hseen : w.seen = store.row) (hpc : unmarked w.pc = true)
    (htask : w.task = .run ∨ store.row.status = .paused) :
    Coherent { s with store := store, workers := s.workers ++ [w] } := by
  have hmirrored : store.row.status = .paused → Mirrored store := fun hpaused =>
    h.mirrored (hs.quiet hdead (h.status hpaused))
  refine ⟨one_joined hs.one fun _ v hv hvalive => ?_, fun hall => ?_, fun v hv hvalive => ?_⟩
  · exact absurd (hvalive.symm.trans (hdead v hv)) (by decide)
  · have hlast := hall w (List.mem_append_right _ List.mem_cons_self)
    exact absurd (halive.symm.trans hlast) (by decide)
  · rcases List.mem_append.mp hv with hold | hnew
    · exact absurd (hvalive.symm.trans (hdead v hold)) (by decide)
    · rw [List.mem_singleton.mp hnew]
      refine ⟨fun _ hresume => hmirrored (htask.resolve_left hresume),
        fun _ hpaused => ⟨hmirrored hpaused, ?_⟩, fun hmarked => ?_, fun hsynced => ?_,
        fun hmirroring => ?_⟩
      · rw [hseen, hpaused]
        decide
      · exact absurd (hpc.symm.trans hmarked) (by decide)
      · exact absurd (hpc.symm.trans (synced_cases hsynced).1) (by decide)
      · rw [hmirroring] at hpc
        cases hpc

/-- STEP: an undisturbed step keeps it. -/
theorem coherent_step (s : State) (a : Action) (t : State) (hs : Coherent s)
    (hok : Undisturbed s a) (h : step sys s a = some t) : Coherent t := by
  cases a with
  | requestResume response metadata =>
    obtain rfl := Option.some.inj h
    exact hs.undone ⟨rfl, id, fun _ => id⟩
  | requestAbort =>
    simp only [step] at h
    split at h
    · obtain rfl := Option.some.inj h
      exact hs
    · obtain rfl := Option.some.inj h
      exact hs.undone (.refl s.store)
  | advanceAbort k now =>
    obtain ⟨abort, r, _, hr, rfl⟩ := abort_cases h
    rw [advanceAbort] at hr
    split at hr
    case h_1 | h_2 =>
      obtain rfl := Option.some.inj hr
      exact hs.undone ⟨rfl, id, fun _ => id⟩
    case h_3 =>
      -- the abort sends the status alone: it assigns the state its copy has
      obtain rfl := Option.some.inj hr
      refine hs.undone ⟨if_pos rfl, fun hpaused => ?_, fun _ => id⟩
      have hstatus : (if .failed = abort.seen.status then s.store.row.status else .failed) =
          FlowRunStatus.paused := hpaused
      split at hstatus
      case isTrue => exact hstatus
      case isFalse => cases hstatus
    case h_4 => cases hr
  | expireAbortKey =>
    obtain rfl := Option.some.inj h
    exact hs.undone ⟨rfl, id, fun _ => id⟩
  | expireRunState =>
    obtain rfl := Option.some.inj h
    exact hs.undone ⟨rfl, id, fun state hstate => by cases hstate⟩
  | deliver k =>
    rcases deliver_cases h with ⟨htask, rfl⟩ | ⟨_, _, _, htask, hpaused, rfl⟩ |
      ⟨_, _, _, _, _, _, rfl⟩
    · exact coherent_deliver hs ⟨rfl, id, fun _ => id⟩ (hok _ htask (.inl rfl)) rfl rfl rfl (.inl rfl)
    · exact coherent_deliver hs ⟨rfl, id, fun _ => id⟩ (hok _ htask (.inr hpaused)) rfl rfl rfl
        (.inr hpaused)
    · exact hs.undone ⟨rfl, id, fun _ => id⟩
  | work i a => exact coherent_work hs hok h

theorem coherent_triggered (flowId : String) (trigger : Dict) (createdAt : Option String) :
    Coherent (.triggered flowId trigger createdAt) := by
  refine ⟨fun i j v w hv => ?_, fun _ hpaused => ?_, fun w hw => ?_⟩
  · cases hv
  · cases hpaused
  · cases hw

/-- RUN: what a trigger gives, the mirror has as a state built from the row does. -/
theorem mirror_run {flowId : String} {trigger : Dict} {createdAt : Option String} {as : List Action}
    {t : State} (hrun : runFrom (step sys) (.triggered flowId trigger createdAt) as = some t)
    {run : FlowRun} (hrow : run = t.store.row ∨ ∃ w ∈ t.workers, run = w.seen) :
    ∀ state ∈ t.store.runState,
      (∀ key, key = "inputs" ∨ key = "trigger" →
        state.get key = (buildInitialState sys.runId none run []).get key) ∧
      ∀ key ∈ written, (state.get key).isSome = true := by
  intro state hstate
  have hlasts := lasts_run lasting_written hrun
  have hsame : FlowRun.SameRequest ⟨flowId, .pending, trigger, [], createdAt, none, none⟩ run := by
    rcases hrow with rfl | ⟨w, hw, rfl⟩
    · exact hlasts.store.row
    · exact (hlasts.workers w hw).seen
  refine ⟨fun key hkey => ?_, hlasts.store.runState state hstate⟩
  have hfixed : key ∈ setOnce := by
    rcases hkey with rfl | rfl <;> decide
  obtain ⟨value, hvalue⟩ : ∃ value, (buildInitialState sys.runId none
      ⟨flowId, .pending, trigger, [], createdAt, none, none⟩ []).get key = some value := by
    rcases hkey with rfl | rfl <;> exact ⟨_, rfl⟩
  have hlasting : Lasting sys ⟨flowId, .pending, trigger, [], createdAt, none, none⟩
      (fun state => state.get key = some value) (fun _ => True) :=
    lasting_get hfixed (fun run hsame => (seeded_request hsame hkey).trans hvalue)
      fun _ _ _ _ _ => trivial
  have hget := (lasts_run hlasting hrun).store.runState state hstate
  exact hget.trans ((seeded_request hsame hkey).trans hvalue).symm

/-- CORRECT: in a run whose steps are undisturbed, a paused run is resumed from the same state
    whether its mirror is there or gone, and the answer is part of it. -/
theorem rebuilds_run (sys : System) (flowId : String) (trigger : Dict) (createdAt : Option String)
    (as : List Action) {t : State}
    (hguarded : Guarded (step sys) Undisturbed (.triggered flowId trigger createdAt) as)
    (hrun : runFrom (step sys) (.triggered flowId trigger createdAt) as = some t) :
    Rebuilds sys t := by
  have hcoherent := inv_guarded coherent_step (coherent_triggered flowId trigger createdAt) hguarded hrun
  constructor
  · intro hpaused hwrites
    exact sameStart_of_mirrored (hcoherent.mirrored hpaused hwrites)
      (fun state hstate => (mirror_run hrun (.inl rfl) state hstate).1)
      (fun state hstate => (mirror_run hrun (.inl rfl) state hstate).2)
  · intro w hw halive hpc request response metadata htask
    have hin := hcoherent.inStep w hw halive
    have hstate : w.seen.state = t.store.row.state := (hin.session (by rw [hpc]; rfl)).2
    refine sameStart_of_mirrored (fun state hstate' => ?_)
      (fun state hstate => (mirror_run hrun (.inr ⟨w, hw, rfl⟩) state hstate).1)
      (fun state hstate => (mirror_run hrun (.inr ⟨w, hw, rfl⟩) state hstate).2) response
    have hfound := hin.found (by rw [hpc]; rfl) (by simp [htask])
    exact (hfound state hstate').trans hstate.symm

/-- The run fetches, reaches its checkpoint and writes `paused`. -/
def writesPaused : List Action :=
  .deliver 0 :: advances 0 5 ++ executes 0 "fetch" ++ [.work 0 .consume] ++ executes 0 "review" ++
    [.work 0 .surface] ++ advances 0 1

/-- The pause is mirrored, answered, and the answer's worker is about to build its state. -/
def pausesAndResumes : List Action :=
  writesPaused ++ advances 0 1 ++ [.requestResume "yes" none, .deliver 0] ++ advances 1 4

/-- The state of the resume, with its mirror still there. -/
theorem resumes_same : ∃ t,
    runFrom (step ⟨chain, reviewFlow, "r1"⟩) (.triggered "f1" [] none) pausesAndResumes = some t ∧
      t.store.runState.isSome = true ∧ (t.workers.map Worker.pc).getLast? = some .seeding ∧
      Rebuilds ⟨chain, reviewFlow, "r1"⟩ t := by
  have hruns : (runFrom (step ⟨chain, reviewFlow, "r1"⟩) (.triggered "f1" [] none)
      pausesAndResumes).isSome = true := by decide +kernel
  have hseeding : ∀ t ∈ runFrom (step ⟨chain, reviewFlow, "r1"⟩) (.triggered "f1" [] none)
      pausesAndResumes, t.store.runState.isSome = true ∧
        (t.workers.map Worker.pc).getLast? = some .seeding := by decide +kernel
  obtain ⟨t, ht⟩ := Option.isSome_iff_exists.mp hruns
  exact ⟨t, ht, (hseeding t ht).1, (hseeding t ht).2,
    rebuilds_run ⟨chain, reviewFlow, "r1"⟩ "f1" [] none pausesAndResumes (by decide +kernel) ht⟩

/-- The answer's worker builds its state before the pause is mirrored. -/
def resumesEarly : List Action :=
  writesPaused ++ [.requestResume "yes" none, .deliver 0] ++ advances 1 4

/-- The current node a resume with that answer starts from. -/
def startsAt (mirror : Option Dict) (run : FlowRun) : Option Json :=
  (buildInitialState "r1" mirror run [("human_response", .str "yes")]).get "current_node"

/-- The mirror is still at the fetch where the worker is lost after it wrote `paused`, and where the
    resume overtakes it. -/
theorem stale_mirror :
    (∃ t, runFrom (step ⟨chain, reviewFlow, "r1"⟩) (.triggered "f1" [] none)
        (writesPaused ++ [.work 0 .crash]) = some t ∧ ¬ Rebuilds ⟨chain, reviewFlow, "r1"⟩ t) ∧
      ∃ t, runFrom (step ⟨chain, reviewFlow, "r1"⟩) (.triggered "f1" [] none) resumesEarly = some t ∧
        ¬ Rebuilds ⟨chain, reviewFlow, "r1"⟩ t := by
  constructor
  · have hruns : (runFrom (step ⟨chain, reviewFlow, "r1"⟩) (.triggered "f1" [] none)
        (writesPaused ++ [.work 0 .crash])).isSome = true := by decide +kernel
    have hlost : ∀ t ∈ runFrom (step ⟨chain, reviewFlow, "r1"⟩) (.triggered "f1" [] none)
        (writesPaused ++ [.work 0 .crash]), t.store.row.status = .paused ∧
          (∀ w ∈ t.workers, w.alive = true → w.pc ≠ .mirroring) ∧
          startsAt t.store.runState t.store.row ≠ startsAt none t.store.row := by decide +kernel
    obtain ⟨t, ht⟩ := Option.isSome_iff_exists.mp hruns
    obtain ⟨hpaused, hwrites, hnode⟩ := hlost t ht
    exact ⟨t, ht, fun hrebuilds =>
      hnode ((hrebuilds.paused hpaused hwrites "yes").fields "current_node" (by decide))⟩
  · have hruns : (runFrom (step ⟨chain, reviewFlow, "r1"⟩) (.triggered "f1" [] none)
        resumesEarly).isSome = true := by decide +kernel
    have hearly : ∀ t ∈ runFrom (step ⟨chain, reviewFlow, "r1"⟩) (.triggered "f1" [] none)
        resumesEarly, ∃ w ∈ t.workers, w.alive = true ∧ w.pc = .seeding ∧
          w.task = .resume 0 "yes" none ∧
          startsAt t.store.runState w.seen ≠ startsAt none w.seen := by decide +kernel
    obtain ⟨t, ht⟩ := Option.isSome_iff_exists.mp hruns
    obtain ⟨w, hw, halive, hpc, htask, hnode⟩ := hearly t ht
    exact ⟨t, ht, fun hrebuilds => hnode
      ((hrebuilds.resumed w hw halive hpc 0 "yes" none htask).fields "current_node" (by decide))⟩

end LunaCore.Flow.Rebuilding
