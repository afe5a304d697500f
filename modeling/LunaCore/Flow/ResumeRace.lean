import LunaCore.Flow.Runner

/-! How many resume requests get through to one pause.

    `FlowRunner.resume` reads the row, refuses it unless it is `paused`, saves the answer and emits
    `human_response`, each with a commit of its own, and only then `_execute` writes `running`.
    Between the read and that write the row still says `paused`, and the resume task of another
    request passes the same check. The exact condition is that none does: no resume task reads
    `paused` while a worker of another request that read the same pause is short of its write. -/

namespace LunaCore.Flow
open LunaCore.Values LunaCore.Schemes

/-- The request a resume task came from. -/
def Task.request : Task → Option ℕ
  | .run => none
  | .resume request .. => some request

/-- The statements of `resume` before the row says `running`. -/
def Pc.unmarked : Pc → Bool
  | .saving | .answering | .marking => true
  | _ => false

/-- The worker passed the paused check of the pause the run is in, for another request. -/
def Worker.Rivals (s : State) (request : ℕ) (w : Worker) : Prop :=
  w.task.request.isSome ∧ w.task.request ≠ some request ∧ w.pause = s.store.pauses.length

instance (s : State) (request : ℕ) (w : Worker) : Decidable (w.Rivals s request) :=
  inferInstanceAs (Decidable (_ ∧ _ ∧ _))

/-- A resume task that a worker takes either is the first of its pause to pass the check, or fails:
    no worker goes on with it, and row, transcript and event log are as they were. -/
structure FirstOrFails (s : State) (request : ℕ) (t : State) : Prop where
  first : s.store.row.status = .paused → ∀ w ∈ s.workers, ¬ w.Rivals s request
  fails : s.store.row.status ≠ .paused → t.workers = s.workers ∧ t.store.row = s.store.row ∧
    t.store.messages = s.store.messages ∧ t.store.events = s.store.events

/-- At most one resume request starts an execution for a pause. -/
def AtMostOne (s : State) (a : Action) (t : State) : Prop :=
  match a with
  | .deliver k => ∀ task ∈ s.store.queue[k]?, ∀ request ∈ task.request, FirstOrFails s request t
  | _ => True

/-- No resume task reads `paused` while a worker of another request that read the same pause has not
    written `running` (it is on its way there, or was lost on it). -/
def NoneBetween (s : State) (a : Action) : Prop :=
  match a with
  | .deliver k => ∀ task ∈ s.store.queue[k]?, ∀ request ∈ task.request,
      s.store.row.status = .paused → ∀ w ∈ s.workers, w.Rivals s request → w.pc.unmarked = false
  | _ => True

instance (s : State) : ∀ a, Decidable (NoneBetween s a)
  | .deliver k => inferInstanceAs (Decidable (∀ task ∈ s.store.queue[k]?, ∀ request ∈ task.request,
      _ → ∀ w ∈ s.workers, _ → _))
  | .requestResume .. | .requestAbort | .advanceAbort .. | .expireAbortKey | .expireRunState
  | .work .. => isTrue trivial

variable {sys : System}

/-- A resume worker of the pause a paused run is in has not written `running`, and its session's
    copy says `paused`. -/
structure Waiting (s : Store) (w : Worker) : Prop where
  counted : w.pause ≤ s.pauses.length
  unmarked : w.task.request.isSome → s.row.status = .paused → w.pause = s.pauses.length →
    w.pc.unmarked = true ∧ w.seen.status = .paused

/-- Every worker waits so. -/
def AllWaiting (s : State) : Prop := ∀ w ∈ s.workers, Waiting s.store w

/-- A row that is paused after a write of another status was paused before. -/
theorem paused_before {seen row : FlowRun} {status : FlowRunStatus} {state : Option Dict}
    {now : String} (hne : status ≠ .paused)
    (h : (setRunStatus seen row status state now).status = .paused) :
    status = seen.status ∧ row.status = .paused := by
  rw [setRunStatus_status] at h
  split at h
  case isTrue heq => exact ⟨heq, h⟩
  case isFalse => exact absurd h hne

/-- What a worker's step does to the pauses: it adds one, or it makes no run paused and takes no
    waiting worker of a still paused run past its write. -/
structure Holds (s : Store) (w : Worker) (r : Store × Worker) : Prop where
  task : r.2.task = w.task
  pause : r.2.pause = w.pause
  pauses : (∃ node, r.1.pauses = node :: s.pauses) ∨
    (r.1.pauses = s.pauses ∧ (r.1.row.status = .paused → s.row.status = .paused ∧
      (w.pc.unmarked = true → w.seen.status = .paused →
        r.2.pc.unmarked = true ∧ r.2.seen.status = .paused)))

theorem advance_holds {s : Store} {w : Worker} {now : String} {r : Store × Worker}
    (h : advance sys s w now = some r) : Holds s w r := by
  rw [advance] at h
  split at h
  case h_3 hpc =>
    split at h
    · obtain rfl := Option.some.inj h
      exact ⟨rfl, rfl, .inr ⟨rfl, fun hpaused => ⟨hpaused, fun hu hp => ⟨hu, hp⟩⟩⟩⟩
    · obtain rfl := Option.some.inj h
      refine ⟨rfl, rfl, .inr ⟨rfl, fun hpaused => ?_⟩⟩
      obtain ⟨hseen, hrow⟩ := paused_before (by simp) hpaused
      exact ⟨hrow, fun _ hp => absurd (hseen.trans hp) (by simp)⟩
  case h_8 =>
    obtain rfl := Option.some.inj h
    exact ⟨rfl, rfl, .inl ⟨_, rfl⟩⟩
  case h_11 e hpc =>
    obtain rfl := Option.some.inj h
    refine ⟨rfl, rfl, .inr ⟨rfl, fun hpaused => ?_⟩⟩
    have hne : e.status ≠ .paused := by cases e <;> simp [Ending.status]
    exact ⟨(paused_before hne hpaused).2, by simp [hpc, Pc.unmarked]⟩
  case h_13 => cases h
  all_goals
    rename_i hpc
    obtain rfl := Option.some.inj h
    exact ⟨rfl, rfl, .inr ⟨rfl, fun hpaused => ⟨hpaused, by simp_all [Pc.unmarked]⟩⟩⟩

/-- STEP LEMMA of one worker. -/
theorem workerStep_holds {s : Store} {w : Worker} {a : WorkerAction} {r : Store × Worker}
    (h : workerStep sys s w a = some r) : Holds s w r := by
  rcases workerStep_frame h with ⟨now, rfl, hadvance⟩ | hframe
  · exact advance_holds hadvance
  · refine ⟨hframe.task, hframe.pause, .inr ⟨hframe.pauses, fun hpaused => ?_⟩⟩
    have hrow : s.row.status = .paused := hframe.row ▸ hpaused
    refine ⟨hrow, fun hu hp => ⟨?_, ?_⟩⟩
    · rcases hframe.pc with hpc | ⟨hpc, _⟩
      · exact hpc ▸ hu
      · simp [hpc, Pc.unmarked] at hu
    · -- a copy loaded again is the row, which says `paused`
      rcases hframe.seen with hseen | hseen
      · exact hseen ▸ hp
      · exact hseen ▸ hrow

/-- A worker who does not move waits on, whatever another's step does. -/
theorem Waiting.other {s : Store} {v w : Worker} {r : Store × Worker} (hv : Waiting s v)
    (h : Holds s w r) : Waiting r.1 v := by
  rcases h.pauses with ⟨node, hnode⟩ | ⟨hsame, hback⟩
  · -- the run was paused again: the worker answers an earlier pause
    have hlt : v.pause < r.1.pauses.length := by
      rw [hnode, List.length_cons]
      exact Nat.lt_succ_of_le hv.counted
    exact ⟨le_of_lt hlt, fun _ _ heq => absurd heq (Nat.ne_of_lt hlt)⟩
  · exact ⟨hsame ▸ hv.counted, fun hreq hpaused heq =>
      hv.unmarked hreq (hback hpaused).1 (hsame ▸ heq)⟩

theorem Waiting.self {s : Store} {w : Worker} {r : Store × Worker} (hw : Waiting s w)
    (h : Holds s w r) : Waiting r.1 r.2 := by
  rcases h.pauses with ⟨node, hnode⟩ | ⟨hsame, hback⟩
  · have hlt : r.2.pause < r.1.pauses.length := by
      rw [hnode, List.length_cons, h.pause]
      exact Nat.lt_succ_of_le hw.counted
    exact ⟨le_of_lt hlt, fun _ _ heq => absurd heq (Nat.ne_of_lt hlt)⟩
  · refine ⟨hsame ▸ h.pause ▸ hw.counted, fun hreq hpaused heq => ?_⟩
    obtain ⟨hrow, hmove⟩ := hback hpaused
    obtain ⟨hu, hp⟩ := hw.unmarked (h.task ▸ hreq) hrow (h.pause ▸ hsame ▸ heq)
    exact hmove hu hp

/-- STEP LEMMA of the run: the workers keep waiting. -/
theorem step_waiting (s : State) (a : Action) (t : State) (hs : AllWaiting s)
    (_ : NoneBetween s a) (h : step sys s a = some t) : AllWaiting t := by
  cases a with
  | requestResume response metadata =>
    obtain rfl := Option.some.inj h
    exact fun w hw => ⟨(hs w hw).counted, (hs w hw).unmarked⟩
  | requestAbort =>
    simp only [step] at h
    split at h
    · exact Option.some.inj h ▸ hs
    · exact Option.some.inj h ▸ hs
  | advanceAbort k now =>
    obtain ⟨a, r, _, hr, rfl⟩ := abort_cases h
    intro w hw
    rw [advanceAbort] at hr
    split at hr
    · obtain rfl := Option.some.inj hr
      exact ⟨(hs w hw).counted, (hs w hw).unmarked⟩
    · obtain rfl := Option.some.inj hr
      exact ⟨(hs w hw).counted, (hs w hw).unmarked⟩
    · obtain rfl := Option.some.inj hr
      exact ⟨(hs w hw).counted, fun hreq hpaused heq =>
        (hs w hw).unmarked hreq (paused_before (by simp) hpaused).2 heq⟩
    · cases hr
  | expireAbortKey =>
    obtain rfl := Option.some.inj h
    exact fun w hw => ⟨(hs w hw).counted, (hs w hw).unmarked⟩
  | expireRunState =>
    obtain rfl := Option.some.inj h
    exact fun w hw => ⟨(hs w hw).counted, (hs w hw).unmarked⟩
  | deliver k =>
    rcases deliver_cases h with ⟨_, rfl⟩ | ⟨_, _, _, _, hpaused, rfl⟩ | ⟨_, _, _, _, _, _, rfl⟩
    · intro w hw
      rcases List.mem_append.mp hw with hw | hw
      · exact ⟨(hs w hw).counted, (hs w hw).unmarked⟩
      · obtain rfl := List.mem_singleton.mp hw
        exact ⟨Nat.zero_le _, fun hreq => by simp [Worker.fresh, Task.request] at hreq⟩
    · intro w hw
      rcases List.mem_append.mp hw with hw | hw
      · exact ⟨(hs w hw).counted, (hs w hw).unmarked⟩
      · obtain rfl := List.mem_singleton.mp hw
        exact ⟨le_refl _, fun _ _ _ => ⟨rfl, hpaused⟩⟩
    · exact fun w hw => ⟨(hs w hw).counted, (hs w hw).unmarked⟩
  | work i a =>
    obtain ⟨w, r, hw, _, hr, rfl⟩ := work_cases h
    have hholds := workerStep_holds hr
    intro v hv
    rcases List.mem_or_eq_of_mem_set hv with hv | rfl
    · exact (hs v hv).other hholds
    · exact (hs w (List.mem_of_getElem? hw)).self hholds

/-- A step lets at most one request through just when none is between its read and its write. -/
theorem atMostOne_step (s : State) (a : Action) (t : State) (hs : AllWaiting s)
    (h : step sys s a = some t) : AtMostOne s a t ↔ NoneBetween s a := by
  cases a with
  | deliver k =>
    refine forall_congr' fun task => forall_congr' fun htask => forall_congr' fun request =>
      forall_congr' fun hrequest => ?_
    constructor
    · intro hfirst hpaused w hw hrivals
      exact absurd hrivals (hfirst.first hpaused w hw)
    · intro hbetween
      refine ⟨fun hpaused w hw hrivals => ?_, fun hne => ?_⟩
      · have hu := ((hs w hw).unmarked hrivals.1 hpaused hrivals.2.2).1
        exact absurd (hbetween hpaused w hw hrivals) (by simp [hu])
      · rcases deliver_cases h with ⟨hrun, _⟩ | ⟨_, _, _, _, hpaused, _⟩ | ⟨_, _, _, _, _, _, rfl⟩
        · obtain rfl := Option.some.inj (hrun.symm.trans htask)
          cases hrequest
        · exact absurd hpaused hne
        · exact ⟨rfl, rfl, rfl, rfl⟩
  | _ => rfl

/-- EXACT CONDITION: whatever a run nobody works on holds, each of its pauses lets at most one
    resume request through, and the others fail without a trace, just when no resume task reads
    `paused` between another's read of it and that one's write of `running`. -/
theorem atMostOne_iff (row : FlowRun) (messages : List AgentMessage) (events : List RunEvent)
    (runState : Option Dict) (abortKey : Bool) (queue : List Task) (requests : ℕ)
    (as : List Action) :
    EveryStep (step sys) AtMostOne
        (.idle row messages events runState abortKey queue requests) as ↔
      Guarded (step sys) NoneBetween
        (.idle row messages events runState abortKey queue requests) as :=
  everyStep_iff_guarded step_waiting atMostOne_step (by simp [AllWaiting, State.idle])

/-! ### Two answers to one pause -/

/-- A run paused at a review. -/
def pausedRun : FlowRun :=
  ⟨"f1", .paused, [], [("current_node", .str "review")], none, none, none⟩

/-- Two people answer, and a worker takes the first answer. -/
def firstTaken : List Action := [.requestResume "yes" none, .requestResume "no" none, .deliver 0]

/-- Both workers save and emit, each at its first statement still. -/
def bothSave : List Action := advances 0 1 ++ advances 1 1 ++ advances 0 1 ++ advances 1 1

/-- The second answer is taken before the first has written `running`: both pass the check, and both
    are in the transcript and the event log. -/
theorem both_pass :
    ¬ EveryStep (step ⟨chain, reviewFlow, "r1"⟩) AtMostOne (.idle pausedRun [] [] none false [] 0)
        (firstTaken ++ .deliver 0 :: bothSave) ∧
      ∃ s, runFrom (step ⟨chain, reviewFlow, "r1"⟩) (.idle pausedRun [] [] none false [] 0)
          (firstTaken ++ .deliver 0 :: bothSave) = some s ∧
        s.store.messages.map AgentMessage.role = [.user, .user] ∧
        s.store.events.map RunEvent.type = [.humanResponse, .humanResponse] := by
  refine ⟨fun h => ?_, _, rfl, rfl, rfl⟩
  have hsecond := EveryStep.at h (rfl : runFrom _ _ firstTaken = some _) rfl
  have hfirst := (hsecond _ rfl 1 rfl).first rfl _ (List.mem_singleton.mpr rfl)
  exact hfirst (by decide +kernel)

end LunaCore.Flow
