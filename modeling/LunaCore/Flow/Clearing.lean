import LunaCore.Flow.Runner

/-! Clearing a run while a worker is still on it.

    `clear_run_data` reads the row and goes on if the run is terminal and has not been cleared; its
    two DELETEs take the rows they find, and its commit puts them through with `cleared_at` and the
    marker, which has sequence 1:

        check ─ DELETE events ─ DELETE messages ─ commit (marker)
                      │ rows stored from here on stay

    The abort endpoint makes the row terminal while a worker executes, and nothing a worker stores
    asks whether the run was cleared. Two markers collide on their sequence, unless the second
    clear's DELETE has found the first. -/

namespace LunaCore.Flow.Clearing
open LunaCore.Values LunaCore.Schemes

/-- A row of `run_events`: the marker, an event of the run, or one that a node emits while its
    handler runs. -/
inductive EventRow where
  | runCleared
  | run (e : RunEvent)
  | node (eventType nodeId : String) (payload : Dict)
  deriving DecidableEq

/-- Where a clear request stands: how many rows its DELETEs found, and after how many markers. -/
inductive Clear where
  | deletingEvents
  | deletingMessages (events markers : ℕ)
  | committing (events messages markers : ℕ)
  | done
  deriving DecidableEq

/-- The run, its tables, how many markers were committed (`cleared_at` is set with the first), and
    the clear requests. -/
structure State where
  run : Flow.State
  events : List EventRow
  messages : List AgentMessage
  markers : ℕ
  clears : List Clear

inductive Action where
  | run (a : Flow.Action)
  | nodeEmits (i : ℕ) (eventType nodeId : String) (payload : Dict)
  | nodeSaves (i : ℕ) (message : AgentMessage)
  | requestClear
  | advanceClear (k : ℕ)

/-- `create_flow_run` and the task the trigger endpoint enqueues for it. -/
def State.triggered (flowId : String) (trigger : Dict) (createdAt : Option String) : State :=
  ⟨.triggered flowId trigger createdAt, [], [], 0, []⟩

/-- A node's handler is running. -/
def Worker.inNode (w : Worker) : Bool := w.alive && !w.inflight.isEmpty

/-- `clear_run_data` behind its checks, one statement at a time. -/
def advanceClear (s : State) (k : ℕ) : Clear → Option State
  | .deletingEvents =>
    some { s with clears := s.clears.set k (.deletingMessages s.events.length s.markers) }
  | .deletingMessages events markers =>
    some { s with clears := s.clears.set k (.committing events s.messages.length markers) }
  | .committing events messages markers =>
    if markers = s.markers then
      some { s with
        events := .runCleared :: s.events.drop events
        messages := s.messages.drop messages
        markers := s.markers + 1
        clears := s.clears.set k .done }
    -- the marker collides with one committed meanwhile, and all is rolled back
    else some { s with clears := s.clears.set k .done }
  | .done => none

variable (sys : System)

/-- One step of the run, of a node's handler or of a clear request. What the run stores goes into
    the tables. -/
def step (s : State) : Action → Option State
  | .run a => (Flow.step sys s.run a).map fun run =>
      { s with
        run := run
        events := s.events ++
          (run.store.events.drop s.run.store.events.length).map EventRow.run
        messages := s.messages ++ run.store.messages.drop s.run.store.messages.length }
  | .nodeEmits i eventType nodeId payload =>
    if (s.run.workers[i]?).any Worker.inNode then
      some { s with events := s.events ++ [.node eventType nodeId payload] }
    else none
  | .nodeSaves i message =>
    if (s.run.workers[i]?).any Worker.inNode then
      some { s with messages := s.messages ++ [message] }
    else none
  | .requestClear =>
    if s.run.store.row.status.terminal ∧ s.markers = 0 then
      some { s with clears := s.clears ++ [.deletingEvents] }
    else some s
  | .advanceClear k => (s.clears[k]?).bind (advanceClear s k)

/-! ### What is asked of a cleared run -/

/-- A cleared run has the marker for its events and no messages. -/
def StaysCleared (s : State) : Prop :=
  s.markers ≠ 0 → s.events = [.runCleared] ∧ s.messages = []

/-- The worker is at a statement that stores an event or a message. -/
def stores (w : Worker) : WorkerAction → Bool
  | .advance _ => match w.pc with
    | .saving | .answering | .announcing | .reporting _ => true
    | _ => false
  | .startNode _ | .finishNode _ _ => true
  | _ => false

/-- A worker, or an abort request behind its check, is at a statement that stores. -/
def runStores (s : Flow.State) : Flow.Action → Bool
  | .work i a => (s.workers[i]?).any fun w => stores w a
  | .advanceAbort k _ => (s.aborts[k]?).any fun a => a.stage = .reporting
  | _ => false

/-- Nothing was stored since the DELETEs of a clear that is about to commit. -/
def NothingSince (s : State) : Clear → Prop
  | .committing events messages markers =>
    markers = s.markers → s.events.length = events ∧ s.messages.length = messages
  | _ => True

/-- Once the run is cleared nobody is at a statement that stores, nor was between the DELETEs of a
    clear and its commit. -/
def NobodyStores (s : State) : Action → Prop
  | .run a => s.markers ≠ 0 → runStores s.run a = false
  | .nodeEmits _ _ _ _ | .nodeSaves _ _ => s.markers = 0
  | .advanceClear k => ∀ c ∈ s.clears[k]?, NothingSince s c
  | .requestClear => True

instance (s : State) : DecidablePred (NothingSince s)
  | .committing _ _ _ => inferInstanceAs (Decidable (_ → _ ∧ _))
  | .deletingEvents | .deletingMessages _ _ | .done => isTrue trivial

instance (s : State) : DecidablePred (NobodyStores s)
  | .run a => inferInstanceAs (Decidable (_ → runStores s.run a = false))
  | .nodeEmits _ _ _ _ => inferInstanceAs (Decidable (s.markers = 0))
  | .nodeSaves _ _ => inferInstanceAs (Decidable (s.markers = 0))
  | .advanceClear k => inferInstanceAs (Decidable (∀ c ∈ s.clears[k]?, NothingSince s c))
  | .requestClear => isTrue trivial

variable {sys}

/-! ### What a step of the run stores -/

/-- The step appended to the logs, and appended nothing just when `b` says so. -/
structure Appends (s t : Store) (b : Bool) : Prop where
  events : ∃ es, t.events = s.events ++ es
  messages : ∃ ms, t.messages = s.messages ++ ms
  nothing : b = false ↔ t.events = s.events ∧ t.messages = s.messages

theorem Appends.none {s t : Store} (hevents : t.events = s.events)
    (hmessages : t.messages = s.messages) : Appends s t false :=
  ⟨⟨[], by simp [hevents]⟩, ⟨[], by simp [hmessages]⟩, by simp [hevents, hmessages]⟩

theorem Appends.event {s t : Store} (e : RunEvent) (hevents : t.events = s.events ++ [e])
    (hmessages : t.messages = s.messages) : Appends s t true :=
  ⟨⟨[e], hevents⟩, ⟨[], by simp [hmessages]⟩, by simp [hevents]⟩

theorem Appends.message {s t : Store} (m : AgentMessage) (hevents : t.events = s.events)
    (hmessages : t.messages = s.messages ++ [m]) : Appends s t true :=
  ⟨⟨[], by simp [hevents]⟩, ⟨[m], hmessages⟩, by simp [hmessages]⟩

theorem appends_advance {s : Store} {w : Worker} {now : String} {r : Store × Worker}
    (h : advance sys s w now = some r) : Appends s r.1 (stores w (.advance now)) := by
  rw [advance] at h
  split at h
  case h_1 hpc _ =>
    obtain rfl := Option.some.inj h
    simp only [stores, hpc]
    exact .message _ rfl rfl
  case h_2 hpc _ =>
    obtain rfl := Option.some.inj h
    simp only [stores, hpc]
    exact .event _ rfl rfl
  case h_3 hpc =>
    simp only [stores, hpc]
    split at h
    · obtain rfl := Option.some.inj h
      exact .none rfl rfl
    · obtain rfl := Option.some.inj h
      exact .none rfl rfl
  case h_5 hpc =>
    obtain rfl := Option.some.inj h
    simp only [stores, hpc]
    exact .event _ rfl rfl
  case h_10 hpc =>
    obtain rfl := Option.some.inj h
    simp only [stores, hpc]
    exact .event _ rfl rfl
  case h_13 => cases h
  all_goals
    obtain rfl := Option.some.inj h
    simp only [stores, *]
    exact .none rfl rfl

theorem appends_worker {s : Store} {w : Worker} {a : WorkerAction} {r : Store × Worker}
    (h : workerStep sys s w a = some r) : Appends s r.1 (stores w a) := by
  cases a with
  | advance now => exact appends_advance h
  | startNode id =>
    simp only [workerStep, startNode] at h
    split at h
    · obtain ⟨node, _, rfl⟩ := Option.map_eq_some_iff.mp h
      exact .event _ rfl rfl
    · cases h
  | finishNode id reply =>
    obtain ⟨e, node, _, _, _, _, _, rfl⟩ := finishNode_cases h
    split
    · exact .event _ rfl rfl
    · rw [completeNode]
      split
      · exact .event _ rfl rfl
      · exact .event _ rfl rfl
  | consume =>
    simp only [workerStep, consume] at h
    split at h
    · split at h
      · obtain rfl := Option.some.inj h
        exact .none rfl rfl
      · obtain rfl := Option.some.inj h
        exact .none rfl rfl
    · cases h
  | surface =>
    simp only [workerStep, surface] at h
    split at h
    · obtain rfl := Option.some.inj h
      exact .none rfl rfl
    · obtain rfl := Option.some.inj h
      exact .none rfl rfl
    · cases h
  | endStream =>
    simp only [workerStep] at h
    split at h
    · obtain rfl := Option.some.inj h
      exact .none rfl rfl
    · cases h
  | fault f =>
    simp only [workerStep] at h
    split at h
    · obtain rfl := Option.some.inj h
      exact .none rfl rfl
    · obtain rfl := Option.some.inj h
      exact .none rfl rfl
  | reload | redeliver | crash =>
    obtain rfl := Option.some.inj h
    exact .none rfl rfl

/-- A step of the run stores something just when its party is at a statement that does. -/
theorem appends_step {s t : Flow.State} {a : Flow.Action} (h : Flow.step sys s a = some t) :
    Appends s.store t.store (runStores s a) := by
  cases a with
  | requestResume response metadata =>
    obtain rfl := Option.some.inj h
    exact .none rfl rfl
  | requestAbort =>
    simp only [Flow.step] at h
    split at h
    · obtain rfl := Option.some.inj h
      exact .none rfl rfl
    · obtain rfl := Option.some.inj h
      exact .none rfl rfl
  | advanceAbort k now =>
    obtain ⟨abort, r, habort, hr, rfl⟩ := abort_cases h
    simp only [runStores, habort, Option.any_some]
    rw [advanceAbort] at hr
    split at hr
    case h_4 => cases hr
    case h_2 hstage =>
      obtain rfl := Option.some.inj hr
      rw [hstage]
      exact .event _ rfl rfl
    all_goals
      obtain rfl := Option.some.inj hr
      simp only [*]
      exact .none rfl rfl
  | expireAbortKey | expireRunState =>
    obtain rfl := Option.some.inj h
    exact .none rfl rfl
  | deliver k =>
    rcases deliver_cases h with ⟨_, rfl⟩ | ⟨_, _, _, _, _, rfl⟩ | ⟨_, _, _, _, _, _, rfl⟩
    all_goals exact .none rfl rfl
  | work i a =>
    obtain ⟨w, r, hw, _, hr, rfl⟩ := work_cases h
    simp only [runStores, hw, Option.any_some]
    exact appends_worker hr

/-! ### The clear requests -/

/-- What a clear's DELETEs found is still there, unless another clear committed since. -/
def Clear.Fits (events : List EventRow) (messages : List AgentMessage) (now : ℕ) : Clear → Prop
  | .deletingMessages found markers => markers ≤ now ∧ (markers = now → found ≤ events.length)
  | .committing found found' markers =>
    markers ≤ now ∧ (markers = now → found ≤ events.length ∧ found' ≤ messages.length)
  | _ => True

structure Inv (s : State) : Prop where
  cleared : StaysCleared s
  fits : ∀ c ∈ s.clears, c.Fits s.events s.messages s.markers

theorem Clear.Fits.append {events : List EventRow} {messages : List AgentMessage} {now : ℕ}
    {c : Clear} (h : c.Fits events messages now) (es : List EventRow) (ms : List AgentMessage) :
    c.Fits (events ++ es) (messages ++ ms) now := by
  cases c with
  | deletingEvents | done => trivial
  | deletingMessages found markers =>
    refine ⟨h.1, fun heq => ?_⟩
    have := h.2 heq
    rw [List.length_append]
    omega
  | committing found found' markers =>
    refine ⟨h.1, fun heq => ?_⟩
    have := h.2 heq
    rw [List.length_append, List.length_append]
    omega

/-- After another commit nothing is asked of what was found. -/
theorem Clear.Fits.overtaken {events events' : List EventRow} {messages messages' : List AgentMessage}
    {now : ℕ} {c : Clear} (h : c.Fits events messages now) : c.Fits events' messages' (now + 1) := by
  cases c with
  | deletingEvents | done => trivial
  | deletingMessages found markers =>
    have hle : markers ≤ now := h.1
    exact ⟨by omega, fun heq => by omega⟩
  | committing found found' markers =>
    have hle : markers ≤ now := h.1
    exact ⟨by omega, fun heq => by omega⟩

theorem inv_triggered (flowId : String) (trigger : Dict) (createdAt : Option String) :
    Inv (.triggered flowId trigger createdAt) :=
  ⟨fun h => absurd rfl h, fun _ hc => absurd hc List.not_mem_nil⟩

/-- Rows come in: a cleared run stays so just when there are none. -/
theorem staysCleared_append {s : State} (hs : StaysCleared s) (run : Flow.State)
    (es : List EventRow) (ms : List AgentMessage) :
    StaysCleared { s with run := run, events := s.events ++ es, messages := s.messages ++ ms } ↔
      (s.markers ≠ 0 → es = [] ∧ ms = []) := by
  refine forall_congr' fun hmarkers => ?_
  obtain ⟨hevents, hmessages⟩ := hs hmarkers
  simp [hevents, hmessages]

theorem inv_append {s : State} (hs : Inv s) (run : Flow.State) (es : List EventRow)
    (ms : List AgentMessage) (hnone : s.markers ≠ 0 → es = [] ∧ ms = []) :
    Inv { s with run := run, events := s.events ++ es, messages := s.messages ++ ms } :=
  ⟨(staysCleared_append hs.cleared run es ms).mpr hnone,
    fun c hc => (hs.fits c hc).append es ms⟩

/-- A clear goes on without touching the tables. -/
theorem inv_goes {s : State} (hs : Inv s) (k : ℕ) {c : Clear}
    (hc : c.Fits s.events s.messages s.markers) : Inv { s with clears := s.clears.set k c } := by
  refine ⟨hs.cleared, fun d hd => ?_⟩
  rcases List.mem_or_eq_of_mem_set hd with hold | rfl
  · exact hs.fits d hold
  · exact hc

/-- A clear's statement, taken from where it stands: the tables stay, or are purged. -/
theorem advanceClear_cases {s t : State} {k : ℕ} {c : Clear} (hs : Inv s)
    (hfits : c.Fits s.events s.messages s.markers) (h : advanceClear s k c = some t) :
    (NothingSince s c ∧ Inv t) ∨
      ∃ events messages, c = .committing events messages s.markers ∧
        events ≤ s.events.length ∧ messages ≤ s.messages.length ∧
        t = { s with
          events := .runCleared :: s.events.drop events
          messages := s.messages.drop messages
          markers := s.markers + 1
          clears := s.clears.set k .done } := by
  cases c with
  | deletingEvents =>
    obtain rfl := Option.some.inj h
    exact .inl ⟨trivial, inv_goes hs k ⟨le_rfl, fun _ => le_rfl⟩⟩
  | deletingMessages events markers =>
    obtain rfl := Option.some.inj h
    exact .inl ⟨trivial, inv_goes hs k ⟨hfits.1, fun heq => ⟨hfits.2 heq, le_rfl⟩⟩⟩
  | committing events messages markers =>
    simp only [advanceClear] at h
    split at h
    case isTrue heq =>
      obtain rfl := Option.some.inj h
      subst heq
      exact .inr ⟨events, messages, rfl, (hfits.2 rfl).1, (hfits.2 rfl).2, rfl⟩
    case isFalse hne =>
      obtain rfl := Option.some.inj h
      exact .inl ⟨fun heq => absurd heq hne, inv_goes hs k trivial⟩
  | done => cases h

/-- A purge leaves the marker alone just when nothing was stored since the DELETEs. -/
theorem staysCleared_purge {s : State} {k events messages : ℕ} (hevents : events ≤ s.events.length)
    (hmessages : messages ≤ s.messages.length) :
    StaysCleared { s with
        events := .runCleared :: s.events.drop events
        messages := s.messages.drop messages
        markers := s.markers + 1
        clears := s.clears.set k .done } ↔
      NothingSince s (.committing events messages s.markers) := by
  constructor
  · intro hcleared _
    obtain ⟨hmarker, hnone⟩ := hcleared (Nat.succ_ne_zero _)
    have hlength := List.drop_eq_nil_iff.mp (List.cons.inj hmarker).2
    have hlength' := List.drop_eq_nil_iff.mp hnone
    omega
  · intro hsince _
    obtain ⟨hlength, hlength'⟩ := hsince rfl
    exact ⟨congrArg _ (List.drop_eq_nil_iff.mpr (by omega)),
      List.drop_eq_nil_iff.mpr (by omega)⟩

/-! ### The run -/

/-- Rows come in, and none where nobody stores; or a clear is requested, or goes on. -/
theorem clearing_cases {s t : State} {a : Action} (h : step sys s a = some t) :
    (∃ run es ms,
      t = { s with run := run, events := s.events ++ es, messages := s.messages ++ ms } ∧
      (NobodyStores s a ↔ (s.markers ≠ 0 → es = [] ∧ ms = []))) ∨
    (a = .requestClear ∧ (t = { s with clears := s.clears ++ [.deletingEvents] } ∨ t = s)) ∨
    ∃ k c, a = .advanceClear k ∧ s.clears[k]? = some c ∧ advanceClear s k c = some t := by
  cases a with
  | run a =>
    obtain ⟨run, hrun, rfl⟩ := Option.map_eq_some_iff.mp h
    refine .inl ⟨run, _, _, rfl, forall_congr' fun _ => ?_⟩
    obtain ⟨⟨es, hes⟩, ⟨ms, hms⟩, hnothing⟩ := appends_step hrun
    rw [hnothing, hes, hms]
    simp
  | nodeEmits i eventType nodeId payload =>
    simp only [step] at h
    split at h
    case isFalse => cases h
    case isTrue =>
      obtain rfl := Option.some.inj h
      exact .inl ⟨s.run, [.node eventType nodeId payload], [], by simp, by simp [NobodyStores]⟩
  | nodeSaves i message =>
    simp only [step] at h
    split at h
    case isFalse => cases h
    case isTrue =>
      obtain rfl := Option.some.inj h
      exact .inl ⟨s.run, [], [message], by simp, by simp [NobodyStores]⟩
  | requestClear =>
    simp only [step] at h
    split at h
    · exact .inr (.inl ⟨rfl, .inl (Option.some.inj h).symm⟩)
    · exact .inr (.inl ⟨rfl, .inr (Option.some.inj h).symm⟩)
  | advanceClear k =>
    obtain ⟨c, hc, hstep⟩ := Option.bind_eq_some_iff.mp h
    exact .inr (.inr ⟨k, c, rfl, hc, hstep⟩)

theorem inv_step (s : State) (a : Action) (t : State) (hs : Inv s) (hok : NobodyStores s a)
    (h : step sys s a = some t) : Inv t := by
  obtain ⟨run, es, ms, rfl, hnobody⟩ | ⟨rfl, rfl | rfl⟩ | ⟨k, c, rfl, hc, hstep⟩ :=
    clearing_cases h
  · exact inv_append hs run es ms (hnobody.mp hok)
  · refine ⟨hs.cleared, fun c hc => ?_⟩
    rcases List.mem_append.mp hc with hold | hnew
    · exact hs.fits c hold
    · rw [List.mem_singleton.mp hnew]
      trivial
  · exact hs
  · rcases advanceClear_cases hs (hs.fits c (List.mem_of_getElem? hc)) hstep with
      ⟨_, hinv⟩ | ⟨events, messages, rfl, hevents, hmessages, rfl⟩
    · exact hinv
    · refine ⟨(staysCleared_purge hevents hmessages).mpr (hok _ hc), fun d hd => ?_⟩
      rcases List.mem_or_eq_of_mem_set hd with hold | rfl
      · exact (hs.fits d hold).overtaken
      · trivial

/-- A step leaves a cleared run as it is just when nobody stores. -/
theorem staysCleared_step (s : State) (a : Action) (t : State) (hs : Inv s)
    (h : step sys s a = some t) : StaysCleared t ↔ NobodyStores s a := by
  obtain ⟨run, es, ms, rfl, hnobody⟩ | ⟨rfl, -⟩ | ⟨k, c, rfl, hc, hstep⟩ := clearing_cases h
  · rw [staysCleared_append hs.cleared, hnobody]
  · exact iff_of_true (inv_step s .requestClear t hs trivial h).cleared trivial
  · have hat : NobodyStores s (.advanceClear k) ↔ NothingSince s c :=
      ⟨fun h => h c hc, fun h d hd => Option.some.inj (hc.symm.trans hd) ▸ h⟩
    rw [hat]
    rcases advanceClear_cases hs (hs.fits c (List.mem_of_getElem? hc)) hstep with
      ⟨hsince, hinv⟩ | ⟨events, messages, rfl, hevents, hmessages, rfl⟩
    · exact ⟨fun _ => hsince, fun _ => hinv.cleared⟩
    · exact staysCleared_purge hevents hmessages

/-- EXACT CONDITION: whatever workers, abort requests and clear requests do in whatever order, a
    cleared run keeps the marker for its events and no messages just when, from the DELETEs of the
    clear on, no worker and no abort request is at a statement that stores. -/
theorem staysCleared_iff (sys : System) (flowId : String) (trigger : Dict)
    (createdAt : Option String) (as : List Action) :
    EveryStep (step sys) (fun _ _ t => StaysCleared t) (.triggered flowId trigger createdAt) as ↔
      Guarded (step sys) NobodyStores (.triggered flowId trigger createdAt) as :=
  everyStep_iff_guarded inv_step staysCleared_step (inv_triggered flowId trigger createdAt)

/-! ### A worker that goes on -/

/-- The run is started, and aborted through the API while its worker is in the graph. -/
def aborted : List Flow.Action :=
  .deliver 0 :: advances 0 5 ++ .requestAbort :: List.replicate 3 (.advanceAbort 0 "now")

/-- It is cleared. -/
def abortedAndCleared : List Action :=
  aborted.map .run ++ .requestClear :: List.replicate 3 (.advanceClear 0)

/-- The worker goes on to its first node, and its event is in the cleared run. -/
theorem stored_after_clear :
    ¬ EveryStep (step ⟨chain, reviewFlow, "r1"⟩) (fun _ _ t => StaysCleared t)
      (.triggered "f1" [] none) (abortedAndCleared ++ [.run (.work 0 (.startNode "fetch"))]) := by
  intro h
  have hcleared := EveryStep.at h (rfl : runFrom _ _ abortedAndCleared = some _) rfl
  exact absurd (hcleared (by decide +kernel)).1 (by decide +kernel)

end LunaCore.Flow.Clearing
