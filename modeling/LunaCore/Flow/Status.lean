import LunaCore.Flow.Runner
import LunaCore.Schemes.Parties

/-! Are `completed` and `failed` final?

    Every writer of the status writes it without looking: `_execute` writes `running`, `paused`,
    `completed` and `failed`, the abort endpoint writes `failed`. `FlowRunner.run` takes a run
    whatever its status is, and an abort reaches a worker only through a Redis key it reads between
    two updates. A run stays ended when its steps are calm: a task goes to a worker only where it
    may (a run task on a run that has not ended, and no task while another worker may still write),
    an abort lands only on a run whose workers are bound to fail it, and the abort key stays until
    they have read it. -/

namespace LunaCore.Flow
open LunaCore.Values LunaCore.Schemes

/-- Once the row holds `completed` or `failed`, the step neither changes its status nor starts a
    node. -/
def Absorbing (s : State) (a : Action) (t : State) : Prop :=
  s.store.row.status.terminal = true →
    t.store.row.status = s.store.row.status ∧ ∀ i id, a ≠ .work i (.startNode id)

/-- A worker that may still write the status: it is alive and has not written its last one. -/
def Worker.Busy (w : Worker) : Prop := w.alive = true ∧ w.pc ≠ .mirroring ∧ w.pc ≠ .cleaning

/-- The worker is on its way to writing `failed`. -/
def Pc.fails : Pc → Bool
  | .reporting .aborted | .reporting (.failed _) | .settling .aborted | .settling (.failed _) => true
  | _ => false

/-- The worker is in the stream and bound to read the abort key next: the key is there, all nodes of
    the superstep have started, one of them at least is to be heard of, and none is a checkpoint. -/
structure Doomed (sys : System) (abortKey : Bool) (w : Worker) : Prop where
  streaming : w.pc = .streaming
  key : abortKey = true
  started : ∀ id ∈ tasks sys w, id ∈ w.begun
  begun : w.begun ≠ []
  raising : ∀ e ∈ w.raising, e.2 ≠ .checkpoint
  inflight : ∀ e ∈ w.inflight, sys.isCheckpoint e.1 = false

/-- The worker will write `failed`, or is lost before. -/
def Resigned (sys : System) (abortKey : Bool) (w : Worker) : Prop :=
  w.pc.fails = true ∨ Doomed sys abortKey w

/-- A task goes to a worker only where no other may still write the status, a run task only on a run
    that has not ended. An abort writes `failed` only on a run that has not completed and whose
    workers are bound to fail it. The abort key does not expire on an ended run while a worker is in
    the stream. -/
def Calm (sys : System) (s : State) (a : Action) : Prop :=
  match a with
  | .deliver k => ∀ task ∈ s.store.queue[k]?,
      (if task = .run then s.store.row.status.terminal = false ∧ ∀ w ∈ s.workers, ¬ w.Busy
        else s.store.row.status = .paused → ∀ w ∈ s.workers, ¬ w.Busy)
  | .advanceAbort k _ => ∀ a ∈ s.aborts[k]?, a.stage = .settling →
      s.store.row.status ≠ .completed ∧ ∀ w ∈ s.workers, w.Busy → Resigned sys s.store.abortKey w
  | .expireAbortKey => s.store.row.status.terminal = true →
      ∀ w ∈ s.workers, w.Busy → w.pc ≠ .streaming
  | _ => True

instance (w : Worker) : Decidable w.Busy := inferInstanceAs (Decidable (_ ∧ _ ∧ _))

instance (sys : System) (abortKey : Bool) (w : Worker) : Decidable (Doomed sys abortKey w) :=
  decidable_of_iff
    (w.pc = .streaming ∧ abortKey = true ∧ (∀ id ∈ tasks sys w, id ∈ w.begun) ∧ w.begun ≠ [] ∧
      (∀ e ∈ w.raising, e.2 ≠ .checkpoint) ∧ ∀ e ∈ w.inflight, sys.isCheckpoint e.1 = false)
    ⟨fun ⟨h₁, h₂, h₃, h₄, h₅, h₆⟩ => ⟨h₁, h₂, h₃, h₄, h₅, h₆⟩,
      fun ⟨h₁, h₂, h₃, h₄, h₅, h₆⟩ => ⟨h₁, h₂, h₃, h₄, h₅, h₆⟩⟩

instance (sys : System) (abortKey : Bool) (w : Worker) : Decidable (Resigned sys abortKey w) :=
  inferInstanceAs (Decidable (_ ∨ _))

instance (sys : System) (s : State) : ∀ a, Decidable (Calm sys s a)
  | .deliver k => inferInstanceAs (Decidable (∀ task ∈ s.store.queue[k]?, if task = .run then
      s.store.row.status.terminal = false ∧ ∀ w ∈ s.workers, ¬ w.Busy
      else s.store.row.status = .paused → ∀ w ∈ s.workers, ¬ w.Busy))
  | .advanceAbort k _ => inferInstanceAs (Decidable (∀ a ∈ s.aborts[k]?, a.stage = .settling →
      s.store.row.status ≠ .completed ∧ ∀ w ∈ s.workers, w.Busy → Resigned sys s.store.abortKey w))
  | .expireAbortKey => inferInstanceAs (Decidable (s.store.row.status.terminal = true →
      ∀ w ∈ s.workers, w.Busy → w.pc ≠ .streaming))
  | .requestResume .. | .requestAbort | .expireRunState | .work .. => isTrue trivial

variable {sys : System}

/-! ### One worker -/

/-- What the writes of a worker do to a run that has not ended: it has not ended after, or the
    worker has written its last status. The worker's copy shows no ended run either. -/
structure StaysOpen (s : Store) (r : Store × Worker) : Prop where
  key : r.1.abortKey = s.abortKey
  row : (r.1.row.status.terminal = false ∧ r.2.pc ≠ .cleaning ∧ r.2.seen.status.terminal = false) ∨
    (r.1.row.status.terminal = true ∧ r.2.pc = .cleaning)

theorem setRunStatus_open {seen row : FlowRun} {status : FlowRunStatus} {state : Option Dict}
    {now : String} (hrow : row.status.terminal = false) (hstatus : status.terminal = false) :
    (setRunStatus seen row status state now).status.terminal = false := by
  rw [setRunStatus_status]
  split
  · exact hrow
  · exact hstatus

theorem setRunStatus_ends {seen row : FlowRun} {status : FlowRunStatus} {state : Option Dict}
    {now : String} (hseen : seen.status.terminal = false) (hstatus : status.terminal = true) :
    (setRunStatus seen row status state now).status = status := by
  rw [setRunStatus_status, if_neg]
  rintro rfl
  exact absurd hstatus (by simp [hseen])

theorem setRunStatus_failed {seen row : FlowRun} {state : Option Dict} {now : String}
    (hrow : row.status = .failed) : (setRunStatus seen row .failed state now).status = .failed := by
  rw [setRunStatus_status]
  split
  · exact hrow
  · rfl

theorem Ending.status_terminal (e : Ending) : e.status.terminal = true := by cases e <;> rfl

theorem advance_open {s : Store} {w : Worker} {now : String} {r : Store × Worker}
    (hbusy : w.Busy) (hrow : s.row.status.terminal = false) (hseen : w.seen.status.terminal = false)
    (h : advance sys s w now = some r) : StaysOpen s r := by
  rw [advance] at h
  split at h
  case h_3 hpc =>
    split at h
    · obtain rfl := Option.some.inj h
      exact ⟨rfl, .inl ⟨hrow, by simp [hpc], hseen⟩⟩
    · obtain rfl := Option.some.inj h
      exact ⟨rfl, .inl ⟨setRunStatus_open hrow rfl, by simp, hseen⟩⟩
  case h_4 =>
    obtain rfl := Option.some.inj h
    refine ⟨rfl, .inl ⟨hrow, ?_, hrow⟩⟩
    dsimp only
    split <;> simp
  case h_8 =>
    obtain rfl := Option.some.inj h
    exact ⟨rfl, .inl ⟨setRunStatus_open hrow rfl, by simp, hseen⟩⟩
  case h_9 hpc => exact absurd hpc hbusy.2.1
  case h_11 e _ =>
    obtain rfl := Option.some.inj h
    refine ⟨rfl, .inr ⟨?_, rfl⟩⟩
    exact (setRunStatus_ends hseen e.status_terminal).symm ▸ e.status_terminal
  case h_12 hpc => exact absurd hpc hbusy.2.2
  case h_13 => cases h
  all_goals
    obtain rfl := Option.some.inj h
    exact ⟨rfl, .inl ⟨hrow, by simp, hseen⟩⟩

theorem workerStep_open {s : Store} {w : Worker} {a : WorkerAction} {r : Store × Worker}
    (hbusy : w.Busy) (hrow : s.row.status.terminal = false) (hseen : w.seen.status.terminal = false)
    (h : workerStep sys s w a = some r) : StaysOpen s r := by
  rcases workerStep_frame h with ⟨now, rfl, hadvance⟩ | hframe
  · exact advance_open hbusy hrow hseen hadvance
  · refine ⟨hframe.abortKey, .inl ⟨hframe.row ▸ hrow, ?_, ?_⟩⟩
    · rcases hframe.pc with hpc | ⟨_, ⟨node, hpc⟩ | ⟨e, hpc⟩⟩
      · exact hpc ▸ hbusy.2.2
      · simp [hpc]
      · simp [hpc]
    · rcases hframe.seen with heq | heq
      · exact heq ▸ hseen
      · exact heq ▸ hrow

/-- What a resigned worker does to a failed run: it stays failed, no node starts, and the worker is
    resigned still or has written its last status. -/
structure StaysFailed (sys : System) (s : Store) (a : WorkerAction) (r : Store × Worker) : Prop where
  key : r.1.abortKey = s.abortKey
  row : r.1.row.status = .failed
  idle : ∀ id, a ≠ .startNode id
  worker : r.2.alive = true → r.2.pc = .cleaning ∨ Resigned sys s.abortKey r.2

theorem fails_cases {pc : Pc} (h : pc.fails = true) :
    ∃ e : Ending, e.status = .failed ∧ (pc = .reporting e ∨ pc = .settling e) := by
  cases pc with
  | reporting e => cases e with
    | completed => cases h
    | aborted => exact ⟨.aborted, rfl, .inl rfl⟩
    | failed f => exact ⟨.failed f, rfl, .inl rfl⟩
  | settling e => cases e with
    | completed => cases h
    | aborted => exact ⟨.aborted, rfl, .inr rfl⟩
    | failed f => exact ⟨.failed f, rfl, .inr rfl⟩
  | _ => cases h

theorem fails_of_ending {e : Ending} (h : e.status = .failed) :
    (Pc.reporting e).fails = true ∧ (Pc.settling e).fails = true := by
  cases e with
  | completed => cases h
  | aborted => exact ⟨rfl, rfl⟩
  | failed f => exact ⟨rfl, rfl⟩

/-- A worker that ends the run as failed goes on to do so. -/
theorem fails_step {s : Store} {w : Worker} {a : WorkerAction} {r : Store × Worker}
    (hrow : s.row.status = .failed) (hpc : w.pc.fails = true)
    (h : workerStep sys s w a = some r) : StaysFailed sys s a r := by
  obtain ⟨e, he, hat⟩ := fails_cases hpc
  have hstream : w.pc ≠ .streaming := by rcases hat with hat | hat <;> simp [hat]
  rcases workerStep_frame h with ⟨now, rfl, hadvance⟩ | hframe
  · refine ⟨?_, ?_, by simp, fun _ => ?_⟩ <;>
      rcases hat with hat | hat <;>
      simp only [advance, hat] at hadvance <;>
      obtain rfl := Option.some.inj hadvance
    · rfl
    · rfl
    · exact hrow
    · rw [he]
      exact setRunStatus_failed hrow
    · exact .inr (.inl (fails_of_ending he).2)
    · exact .inl rfl
  · refine ⟨hframe.abortKey, hframe.row ▸ hrow, ?_, fun _ => ?_⟩
    · rintro id rfl
      simp [workerStep, startNode, hstream] at h
    · rcases hframe.pc with heq | ⟨hs, _⟩
      · exact .inr (.inl (heq ▸ hpc))
      · exact absurd hs hstream

theorem mem_begun {w : Worker} {id : String} : id ∈ w.begun ↔
    (∃ e ∈ w.inflight, e.1 = id) ∨ (∃ u ∈ w.yielded, u.1 = id) ∨ ∃ e ∈ w.raising, e.1 = id := by
  simp only [Worker.begun, List.mem_append, List.mem_map, or_assoc]

/-- Where one node of a doomed worker's superstep is out of flight and heard of instead, the worker
    is doomed still. -/
theorem Doomed.land {w w' : Worker} {abortKey : Bool} {e : String × Dict}
    (hw : Doomed sys abortKey w) (hpc : w'.pc = w.pc) (htasks : tasks sys w' = tasks sys w)
    (hinflight : w'.inflight = w.inflight.erase e) (hyielded : ∀ u ∈ w.yielded, u ∈ w'.yielded)
    (hraising : ∀ x ∈ w.raising, x ∈ w'.raising) (he : e.1 ∈ w'.begun)
    (hfailures : ∀ x ∈ w'.raising, x.2 ≠ .checkpoint) : Doomed sys abortKey w' := by
  have hbegun : ∀ id ∈ w.begun, id ∈ w'.begun := by
    intro id hid
    rcases mem_begun.mp hid with ⟨f, hf, rfl⟩ | ⟨u, hu, rfl⟩ | ⟨x, hx, rfl⟩
    · by_cases hfe : f = e
      · exact hfe ▸ he
      · exact mem_begun.mpr (.inl ⟨f, hinflight ▸ (List.mem_erase_of_ne hfe).mpr hf, rfl⟩)
    · exact mem_begun.mpr (.inr (.inl ⟨u, hyielded u hu, rfl⟩))
    · exact mem_begun.mpr (.inr (.inr ⟨x, hraising x hx, rfl⟩))
  exact ⟨hpc.trans hw.streaming, hw.key, fun id hid => hbegun id (hw.started id (htasks ▸ hid)),
    List.ne_nil_of_mem he, hfailures,
    fun f hf => hw.inflight f (List.mem_of_mem_erase (hinflight ▸ hf))⟩

/-- A node of a doomed worker's superstep that ends leaves it doomed. -/
theorem doomed_finishNode {s : Store} {w : Worker} {id : String} {reply : Except Failure Dict}
    {r : Store × Worker} {abortKey : Bool} (hw : Doomed sys abortKey w)
    (h : finishNode sys s w id reply = some r) : Doomed sys abortKey r.2 := by
  obtain ⟨e, node, hpc, he, rfl, hid, hnode, rfl⟩ := finishNode_cases h
  have hplain : node.type ≠ .humanCheckpoint := by
    simpa [isCheckpoint_eq hnode] using hw.inflight e he
  rw [if_neg hplain]
  rw [completeNode]
  split
  case h_1 output _ =>
    refine hw.land rfl rfl rfl (fun u hu => List.mem_append_left _ hu) (fun _ hx => hx) ?_ hw.raising
    exact mem_begun.mpr (.inr (.inl ⟨(node.id, nodeUpdate node e.2 output), by simp, hid⟩))
  case h_2 f _ =>
    refine hw.land rfl rfl rfl (fun _ hu => hu) (fun x hx => List.mem_append_left _ hx) ?_ ?_
    · exact mem_begun.mpr (.inr (.inr ⟨(node.id, .failure (nodeFailure node f)), by simp, hid⟩))
    · intro x hx
      rcases List.mem_append.mp hx with hx | hx
      · exact hw.raising x hx
      · simp [List.mem_singleton.mp hx]

/-- A doomed worker on a failed run: it is doomed still, or goes to write `failed`. -/
theorem doomed_step {s : Store} {w : Worker} {a : WorkerAction} {r : Store × Worker}
    (hrow : s.row.status = .failed) (hw : Doomed sys s.abortKey w)
    (h : workerStep sys s w a = some r) : StaysFailed sys s a r := by
  have hpc := hw.streaming
  have hnostart : ∀ id, a ≠ .startNode id := by
    rintro id rfl
    simp only [workerStep, startNode] at h
    split at h
    case isFalse => cases h
    case isTrue hcond => exact hcond.2.2 (hw.started id hcond.2.1)
  have hframe : StreamFrame s w r := by
    rcases workerStep_frame h with ⟨now, _, hadvance⟩ | hframe
    · simp [advance, hpc] at hadvance
    · exact hframe
  refine ⟨hframe.abortKey, hframe.row ▸ hrow, hnostart, fun halive => .inr ?_⟩
  cases a with
  | advance now => simp [workerStep, advance, hpc] at h
  | startNode id => exact absurd rfl (hnostart id)
  | finishNode id reply => exact .inr (doomed_finishNode hw h)
  | consume =>
    simp only [workerStep, consume] at h
    split at h
    case h_2 => cases h
    case h_1 =>
      rw [if_pos hw.key] at h
      obtain rfl := Option.some.inj h
      exact .inl rfl
  | surface =>
    simp only [workerStep, surface] at h
    split at h
    case h_1 hraising => exact absurd rfl (hw.raising _ (hraising ▸ List.mem_cons_self))
    case h_2 =>
      obtain rfl := Option.some.inj h
      exact .inl rfl
    case h_3 => cases h
  | endStream => simp [workerStep, hw.begun] at h
  | fault f =>
    simp only [workerStep, if_pos hpc] at h
    obtain rfl := Option.some.inj h
    exact .inl rfl
  | reload =>
    obtain rfl := Option.some.inj h
    exact .inr ⟨hpc, hw.key, hw.started, hw.begun, hw.raising, hw.inflight⟩
  | redeliver =>
    obtain rfl := Option.some.inj h
    exact .inr hw
  | crash =>
    obtain rfl := Option.some.inj h
    cases halive

theorem resigned_step {s : Store} {w : Worker} {a : WorkerAction} {r : Store × Worker}
    (hrow : s.row.status = .failed) (hw : Resigned sys s.abortKey w)
    (h : workerStep sys s w a = some r) : StaysFailed sys s a r :=
  hw.elim (fun hpc => fails_step hrow hpc h) fun hdoomed => doomed_step hrow hdoomed h

/-- What a worker does that has written its last status: the row stays, no node starts, it does not
    become busy, and only clean-up takes the abort key. -/
structure StaysDone (s : Store) (w : Worker) (a : WorkerAction) (r : Store × Worker) : Prop where
  row : r.1.row = s.row
  idle : ∀ id, a ≠ .startNode id
  worker : r.2.pc = w.pc
  key : w.pc = .mirroring → r.1.abortKey = s.abortKey

theorem done_step {s : Store} {w : Worker} {a : WorkerAction} {r : Store × Worker}
    (hw : w.pc = .mirroring ∨ w.pc = .cleaning) (h : workerStep sys s w a = some r) :
    StaysDone s w a r := by
  have hstream : w.pc ≠ .streaming := by rcases hw with hw | hw <;> simp [hw]
  rcases workerStep_frame h with ⟨now, rfl, hadvance⟩ | hframe
  · rcases hw with hw | hw <;>
    · simp only [advance, hw] at hadvance
      obtain rfl := Option.some.inj hadvance
      exact ⟨rfl, by simp, by simp [hw], by simp [hw]⟩
  · refine ⟨hframe.row, ?_, ?_, fun _ => hframe.abortKey⟩
    · rintro id rfl
      simp [workerStep, startNode, hstream] at h
    · exact hframe.pc.resolve_right fun hs => hstream hs.1

/-! ### The run -/

/-- What holds of a run whose steps are calm. -/
structure Settled (sys : System) (s : State) : Prop where
  one : ∀ (i j : ℕ) (v w : Worker), s.workers[i]? = some v → s.workers[j]? = some w →
    v.Busy → w.Busy → i = j
  ended : s.store.row.status.terminal = true → ∀ w ∈ s.workers, w.Busy →
    s.store.row.status = .failed ∧ Resigned sys s.store.abortKey w
  cleaning : ∀ w ∈ s.workers, w.alive = true → w.pc = .cleaning →
    s.store.row.status.terminal = true ∧ ∀ v ∈ s.workers, ¬ v.Busy
  copies : s.store.row.status.terminal = false → ∀ w ∈ s.workers, w.Busy →
    w.seen.status.terminal = false
  aborts : ∀ a ∈ s.aborts, a.seen.status.terminal = false

theorem busy_or_done {w : Worker} (h : w.alive = true) :
    w.Busy ∨ (¬ w.Busy ∧ (w.pc = .mirroring ∨ w.pc = .cleaning)) := by
  by_cases hm : w.pc = .mirroring
  · exact .inr ⟨fun hb => hb.2.1 hm, .inl hm⟩
  · by_cases hc : w.pc = .cleaning
    · exact .inr ⟨fun hb => hb.2.2 hc, .inr hc⟩
    · exact .inl ⟨h, hm, hc⟩

theorem mem_set_cases {β : Type} {l : List β} {i : ℕ} {x v : β} (h : v ∈ l.set i x) :
    v = x ∨ ∃ k, k ≠ i ∧ l[k]? = some v := by
  obtain ⟨k, hk⟩ := List.mem_iff_getElem?.mp h
  rcases moved_cases hk with ⟨_, heq⟩ | ⟨hne, hold⟩
  · exact .inl heq
  · exact .inr ⟨k, hne.symm, hold⟩

/-- At most one worker is busy after a step that makes none busy. -/
theorem Settled.one_set {s : State} (hs : Settled sys s) {i : ℕ} {w w' : Worker}
    (hw : s.workers[i]? = some w) (hbusy : w'.Busy → w.Busy) :
    ∀ (j k : ℕ) (u v : Worker), (s.workers.set i w')[j]? = some u →
      (s.workers.set i w')[k]? = some v → u.Busy → v.Busy → j = k :=
  one_moved hs.one fun hb j v hv hvb => hs.one i j w v hw hv (hbusy hb) hvb

/-- Beside a busy worker no other is busy. -/
theorem Settled.others {s : State} (hs : Settled sys s) {i k : ℕ} {w v : Worker}
    (hw : s.workers[i]? = some w) (hbusy : w.Busy) (hk : k ≠ i) (hv : s.workers[k]? = some v) :
    ¬ v.Busy :=
  fun hvb => hk (hs.one k i v w hv hw hvb hbusy)

/-- Beside a busy worker none cleans up. -/
theorem Settled.no_cleaning {s : State} (hs : Settled sys s) {w : Worker} (hw : w ∈ s.workers)
    (hbusy : w.Busy) {v : Worker} (hv : v ∈ s.workers) (halive : v.alive = true) :
    v.pc ≠ .cleaning :=
  fun hpc => (hs.cleaning v hv halive hpc).2 w hw hbusy

theorem settled_done {s : State} (hs : Settled sys s) {i : ℕ} {w : Worker} {a : WorkerAction}
    {r : Store × Worker} (hw : s.workers[i]? = some w) (halive : w.alive = true)
    (hdone : w.pc = .mirroring ∨ w.pc = .cleaning) (hr : StaysDone s.store w a r) :
    Settled sys { s with store := r.1, workers := s.workers.set i r.2 } := by
  have hmem : w ∈ s.workers := List.mem_of_getElem? hw
  have hidle : ¬ r.2.Busy := fun hb => by
    rcases hdone with hd | hd
    · exact hb.2.1 (hr.worker.trans hd)
    · exact hb.2.2 (hr.worker.trans hd)
  refine ⟨hs.one_set hw fun hb => absurd hb hidle, fun hrow v hv hvb => ?_,
    fun v hv hva hvc => ?_, fun hrow v hv hvb => ?_, hs.aborts⟩
  · rw [hr.row] at hrow ⊢
    rcases mem_set_cases hv with rfl | ⟨k, _, hvk⟩
    · exact absurd hvb hidle
    · have hvm := List.mem_of_getElem? hvk
      obtain ⟨hfailed, hres⟩ := hs.ended hrow v hvm hvb
      rcases hdone with hd | hd
      · exact ⟨hfailed, (hr.key hd).symm ▸ hres⟩
      · exact absurd hvb ((hs.cleaning w hmem halive hd).2 v hvm)
  · have hback : s.store.row.status.terminal = true ∧ ∀ u ∈ s.workers, ¬ u.Busy := by
      rcases mem_set_cases hv with rfl | ⟨k, _, hvk⟩
      · exact hs.cleaning w hmem halive (hr.worker.symm.trans hvc)
      · exact hs.cleaning v (List.mem_of_getElem? hvk) hva hvc
    refine ⟨hr.row.symm ▸ hback.1, fun u hu => ?_⟩
    rcases mem_set_cases hu with rfl | ⟨k, _, huk⟩
    · exact hidle
    · exact hback.2 u (List.mem_of_getElem? huk)
  · rw [hr.row] at hrow
    rcases mem_set_cases hv with rfl | ⟨k, _, hvk⟩
    · exact absurd hvb hidle
    · exact hs.copies hrow v (List.mem_of_getElem? hvk) hvb

theorem settled_open {s : State} (hs : Settled sys s) {i : ℕ} {w : Worker} {r : Store × Worker}
    (hw : s.workers[i]? = some w) (hbusy : w.Busy) (hrow : s.store.row.status.terminal = false)
    (hr : StaysOpen s.store r) :
    Settled sys { s with store := r.1, workers := s.workers.set i r.2 } := by
  have hmem : w ∈ s.workers := List.mem_of_getElem? hw
  have hothers : r.2.pc = .cleaning → ∀ v ∈ s.workers.set i r.2, ¬ v.Busy := by
    intro hpc v hv
    rcases mem_set_cases hv with rfl | ⟨k, hk, hvk⟩
    · exact fun hb => hb.2.2 hpc
    · exact hs.others hw hbusy hk hvk
  refine ⟨hs.one_set hw fun _ => hbusy, fun hrow' v hv hvb => ?_, fun v hv hva hvc => ?_,
    fun hrow' v hv hvb => ?_, hs.aborts⟩
  · rcases hr.row with ⟨hopen, _⟩ | ⟨_, hpc⟩
    · exact absurd hrow' (by simp [hopen])
    · exact absurd hvb (hothers hpc v hv)
  · rcases mem_set_cases hv with rfl | ⟨k, _, hvk⟩
    · rcases hr.row with ⟨_, hpc, _⟩ | ⟨hended, hpc⟩
      · exact absurd hvc hpc
      · exact ⟨hended, hothers hpc⟩
    · exact absurd hvc (hs.no_cleaning hmem hbusy (List.mem_of_getElem? hvk) hva)
  · rcases mem_set_cases hv with rfl | ⟨k, _, hvk⟩
    · rcases hr.row with ⟨_, _, hseen⟩ | ⟨hended, _⟩
      · exact hseen
      · exact absurd hended (by simp [hrow'])
    · exact hs.copies hrow v (List.mem_of_getElem? hvk) hvb

theorem settled_failed {s : State} (hs : Settled sys s) {i : ℕ} {w : Worker} {a : WorkerAction}
    {r : Store × Worker} (hw : s.workers[i]? = some w) (hbusy : w.Busy)
    (hrow : s.store.row.status.terminal = true) (hr : StaysFailed sys s.store a r) :
    Settled sys { s with store := r.1, workers := s.workers.set i r.2 } := by
  have hmem : w ∈ s.workers := List.mem_of_getElem? hw
  have hended : r.1.row.status.terminal = true := by simp [hr.row, FlowRunStatus.terminal]
  refine ⟨hs.one_set hw fun _ => hbusy, fun _ v hv hvb => ⟨hr.row, ?_⟩, fun v hv hva hvc => ?_,
    fun hopen => absurd hopen (by simp [hended]), hs.aborts⟩
  · dsimp only
    rw [hr.key]
    rcases mem_set_cases hv with rfl | ⟨k, _, hvk⟩
    · exact (hr.worker hvb.1).resolve_left hvb.2.2
    · exact (hs.ended hrow v (List.mem_of_getElem? hvk) hvb).2
  · rcases mem_set_cases hv with rfl | ⟨k, _, hvk⟩
    · refine ⟨hended, fun u hu => ?_⟩
      rcases mem_set_cases hu with rfl | ⟨k, hk, huk⟩
      · exact fun hb => hb.2.2 hvc
      · exact hs.others hw hbusy hk huk
    · exact absurd hvc (hs.no_cleaning hmem hbusy (List.mem_of_getElem? hvk) hva)

theorem settled_work {s t : State} {i : ℕ} {a : WorkerAction} (hs : Settled sys s)
    (h : step sys s (.work i a) = some t) : Settled sys t ∧ Absorbing s (.work i a) t := by
  obtain ⟨w, r, hw, halive, hr, rfl⟩ := work_cases h
  have hmem : w ∈ s.workers := List.mem_of_getElem? hw
  rcases busy_or_done halive with hbusy | ⟨_, hdone⟩
  · cases hrow : s.store.row.status.terminal with
    | false =>
      have hopen := workerStep_open hbusy hrow (hs.copies hrow w hmem hbusy) hr
      exact ⟨settled_open hs hw hbusy hrow hopen, fun hended => absurd hended (by simp [hrow])⟩
    | true =>
      obtain ⟨hfailed, hres⟩ := hs.ended hrow w hmem hbusy
      have hstays := resigned_step hfailed hres hr
      refine ⟨settled_failed hs hw hbusy hrow hstays, fun _ => ⟨hstays.row.trans hfailed.symm, ?_⟩⟩
      rintro j id ⟨⟩
      exact hstays.idle id rfl
  · have hstays := done_step hdone hr
    refine ⟨settled_done hs hw halive hdone hstays, fun _ => ⟨congrArg _ hstays.row, ?_⟩⟩
    rintro j id ⟨⟩
    exact hstays.idle id rfl

/-- A task goes to a new worker where no other is busy and the run has not ended. -/
theorem settled_deliver {s : State} (hs : Settled sys s) {store : Store} {w : Worker}
    (hstore : store.row = s.store.row) (hrow : s.store.row.status.terminal = false)
    (hidle : ∀ v ∈ s.workers, ¬ v.Busy) (hseen : w.seen = s.store.row) (hpc : w.pc ≠ .cleaning) :
    Settled sys { s with store := store, workers := s.workers ++ [w] } := by
  have hlast : ∀ (i : ℕ) (v : Worker), (s.workers ++ [w])[i]? = some v → v.Busy →
      i = s.workers.length := by
    intro i v hv hvb
    rcases joined_cases hv with hv | ⟨heq, -⟩
    · exact absurd hvb (hidle v (List.mem_of_getElem? hv))
    · exact heq
  refine ⟨fun i j u v hu hv hub hvb => (hlast i u hu hub).trans (hlast j v hv hvb).symm,
    fun hended => ?_, fun v hv hva hvc => ?_, fun _ v hv hvb => ?_, hs.aborts⟩
  · rw [hstore] at hended
    exact absurd hended (by simp [hrow])
  · rcases List.mem_append.mp hv with hv | hv
    · exact absurd (hs.cleaning v hv hva hvc).1 (by simp [hrow])
    · exact absurd hvc (List.mem_singleton.mp hv ▸ hpc)
  · rcases List.mem_append.mp hv with hv | hv
    · exact absurd hvb (hidle v hv)
    · rw [List.mem_singleton.mp hv, hseen]
      exact hrow

/-- A change of the store that touches neither row nor abort key. -/
theorem Settled.frame {s : State} (hs : Settled sys s) {store : Store} {aborts : List Abort}
    {requests : ℕ} (hrow : store.row = s.store.row) (hkey : store.abortKey = s.store.abortKey)
    (haborts : ∀ a ∈ aborts, a.seen.status.terminal = false) :
    Settled sys ⟨store, s.workers, aborts, requests⟩ :=
  ⟨hs.one, hrow ▸ hkey ▸ hs.ended, hrow ▸ hs.cleaning, hrow ▸ hs.copies, haborts⟩

/-- Setting the abort key dooms whom it doomed before. -/
theorem Resigned.set {w : Worker} {abortKey : Bool} (h : Resigned sys abortKey w) :
    Resigned sys true w :=
  h.imp_right fun hw => ⟨hw.streaming, rfl, hw.started, hw.begun, hw.raising, hw.inflight⟩

theorem settled_abort {s t : State} {k : ℕ} {now : String} (hs : Settled sys s)
    (hcalm : Calm sys s (.advanceAbort k now)) (h : step sys s (.advanceAbort k now) = some t) :
    Settled sys t ∧ Absorbing s (.advanceAbort k now) t := by
  obtain ⟨a, r, ha, hr, rfl⟩ := abort_cases h
  have hseen : a.seen.status.terminal = false := hs.aborts a (List.mem_of_getElem? ha)
  have haborts : ∀ stage, ∀ b ∈ s.aborts.set k { a with stage := stage },
      b.seen.status.terminal = false := by
    intro stage b hb
    rcases List.mem_or_eq_of_mem_set hb with hb | rfl
    · exact hs.aborts b hb
    · exact hseen
  rw [advanceAbort] at hr
  split at hr
  · obtain rfl := Option.some.inj hr
    exact ⟨⟨hs.one, fun hended w hw hb => (hs.ended hended w hw hb).imp_right Resigned.set,
      hs.cleaning, hs.copies, haborts _⟩, fun _ => ⟨rfl, by simp⟩⟩
  · obtain rfl := Option.some.inj hr
    exact ⟨hs.frame rfl rfl (haborts _), fun _ => ⟨rfl, by simp⟩⟩
  case h_3 hstage =>
    -- the abort writes `failed`: its copy showed no ended run, so the write is sent
    obtain rfl := Option.some.inj hr
    obtain ⟨hcompleted, hresigned⟩ := hcalm a ha hstage
    have hfailed :
        (setRunStatus a.seen s.store.row .failed (some a.seen.state) now).status = .failed :=
      setRunStatus_ends hseen rfl
    refine ⟨⟨hs.one, fun _ w hw hb => ⟨hfailed, hresigned w hw hb⟩,
      fun w hw hwa hwc => ⟨congrArg FlowRunStatus.terminal hfailed, (hs.cleaning w hw hwa hwc).2⟩,
      fun hopen => absurd hopen (by simp [hfailed, FlowRunStatus.terminal]), haborts _⟩,
      fun hended => ⟨hfailed.trans ?_, by simp⟩⟩
    cases hst : s.store.row.status <;> simp_all [FlowRunStatus.terminal]
  · cases hr

/-- STEP LEMMA: a calm step keeps the run settled, and ended where it has ended. -/
theorem settled_step (s : State) (a : Action) (t : State) (hs : Settled sys s) (hcalm : Calm sys s a)
    (h : step sys s a = some t) : Settled sys t ∧ Absorbing s a t := by
  cases a with
  | requestResume response metadata =>
    obtain rfl := Option.some.inj h
    exact ⟨hs.frame rfl rfl hs.aborts, fun _ => ⟨rfl, by simp⟩⟩
  | requestAbort =>
    simp only [step] at h
    split at h
    · obtain rfl := Option.some.inj h
      exact ⟨hs, fun _ => ⟨rfl, by simp⟩⟩
    case isFalse hopen =>
      obtain rfl := Option.some.inj h
      refine ⟨hs.frame rfl rfl fun a ha => ?_, fun _ => ⟨rfl, by simp⟩⟩
      rcases List.mem_append.mp ha with ha | ha
      · exact hs.aborts a ha
      · rw [List.mem_singleton.mp ha]
        simpa using hopen
  | advanceAbort k now => exact settled_abort hs hcalm h
  | expireAbortKey =>
    obtain rfl := Option.some.inj h
    refine ⟨⟨hs.one, fun hended w hw hb => ?_, hs.cleaning, hs.copies, hs.aborts⟩,
      fun _ => ⟨rfl, by simp⟩⟩
    obtain ⟨hfailed, hres⟩ := hs.ended hended w hw hb
    exact ⟨hfailed, .inl (hres.resolve_right fun hd => hcalm hended w hw hb hd.streaming)⟩
  | expireRunState =>
    obtain rfl := Option.some.inj h
    exact ⟨hs.frame rfl rfl hs.aborts, fun _ => ⟨rfl, by simp⟩⟩
  | deliver k =>
    rcases deliver_cases h with ⟨htask, rfl⟩ | ⟨_, _, _, htask, hpaused, rfl⟩ |
      ⟨_, _, _, _, _, _, rfl⟩
    · have hok := hcalm _ htask
      rw [if_pos rfl] at hok
      exact ⟨settled_deliver hs rfl hok.1 hok.2 rfl (by simp [Worker.fresh]), fun _ => ⟨rfl, by simp⟩⟩
    · have hok := hcalm _ htask
      rw [if_neg (by simp)] at hok
      exact ⟨settled_deliver hs rfl (by simp [hpaused, FlowRunStatus.terminal]) (hok hpaused) rfl
        (by simp [Worker.fresh]), fun _ => ⟨rfl, by simp⟩⟩
    · exact ⟨hs.frame rfl rfl hs.aborts, fun _ => ⟨rfl, by simp⟩⟩
  | work i a => exact settled_work hs h

theorem settled_triggered (flowId : String) (trigger : Dict) (createdAt : Option String) :
    Settled sys (.triggered flowId trigger createdAt) := by
  constructor <;> simp [State.triggered, State.idle]

/-- A run whose steps are calm never leaves `completed` or `failed`, and starts no node there. -/
theorem absorbing_run (flowId : String) (trigger : Dict) (createdAt : Option String)
    (as : List Action)
    (h : Guarded (step sys) (Calm sys) (.triggered flowId trigger createdAt) as) :
    EveryStep (step sys) Absorbing (.triggered flowId trigger createdAt) as :=
  everyStep_of_guarded (fun s a t hs hok ht => (settled_step s a t hs hok ht).1)
    (fun s a t hs hok ht => (settled_step s a t hs hok ht).2)
    (settled_triggered flowId trigger createdAt) h

/-- The three statements of an abort behind its check. -/
def aborts (k : ℕ) : List Action := List.replicate 3 (.advanceAbort k "now")

/-- An abort while the fetch is in flight: the worker reads the key when the fetch is done. -/
def abortInFlight : List Action :=
  [.deliver 0] ++ advances 0 5 ++ [.work 0 (.startNode "fetch"), .requestAbort] ++ aborts 0 ++
    [.work 0 (.finishNode "fetch" (.ok [])), .work 0 .consume] ++ advances 0 3

theorem absorbing_run_abortInFlight :
    EveryStep (step ⟨chain, reviewFlow, "r1"⟩) Absorbing (.triggered "f1" [] none) abortInFlight :=
  absorbing_run "f1" [] none abortInFlight (by decide +kernel)

/-- An abort before any worker took the run, and the worker that takes it all the same. -/
def abortPending : List Action := [.requestAbort] ++ aborts 0 ++ [.deliver 0]

/-- What that worker goes on to do, after it has written `running`. -/
def goesOn : List Action :=
  advances 0 4 ++ [.expireAbortKey] ++ executes 0 "fetch" ++ [.work 0 .consume] ++
    executes 0 "review" ++ [.work 0 .surface] ++ advances 0 2

/-- The run aborted while it was pending is set running, executed and paused. -/
theorem aborted_goes_on :
    ¬ EveryStep (step ⟨chain, reviewFlow, "r1"⟩) Absorbing (.triggered "f1" [] none)
        (abortPending ++ .work 0 (.advance "now") :: goesOn) ∧
      (runFrom (step ⟨chain, reviewFlow, "r1"⟩) (.triggered "f1" [] none) abortPending).map
        (fun s => s.store.row.status) = some .failed ∧
      (runFrom (step ⟨chain, reviewFlow, "r1"⟩) (.triggered "f1" [] none)
        (abortPending ++ .work 0 (.advance "now") :: goesOn)).map
        (fun s => s.store.row.status) = some .paused := by
  refine ⟨fun h => ?_, by decide +kernel, by decide +kernel⟩
  have hmark := EveryStep.at h (rfl : runFrom _ _ abortPending = some _) rfl
  exact absurd (hmark (by decide +kernel)).1 (by decide +kernel)

end LunaCore.Flow
