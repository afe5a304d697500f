import LunaCore.Flow.Runner

/-! Does a resumed or redelivered execution pick up where the last one left off?

    `_execute` compiles the graph with a fresh checkpointer and hands the stored run state to
    `astream` as input, so LangGraph starts at START: every execution runs the entry node first,
    whatever was completed before. What was recorded is the event log. An execution repeats a node
    when it starts one whose completion was in the log it entered with, and pauses twice when it
    pauses at a checkpoint that was answered by then. The exact condition is that an execution
    takes its first superstep only where nothing was recorded when it entered. -/

namespace LunaCore.Flow
open LunaCore.Values LunaCore.Schemes

/-- The nodes whose completion an event log records. -/
def completedIn (events : List RunEvent) : List String :=
  events.filterMap fun e => if e.type = .nodeCompleted then e.nodeId else none

@[simp] theorem completedIn_nil : completedIn [] = [] := rfl

@[simp] theorem completedIn_append (events more : List RunEvent) :
    completedIn (events ++ more) = completedIn events ++ completedIn more := by
  simp [completedIn]

/-- The checkpoint a worker is about to pause the run at. -/
def Pc.checkpoint : Pc → Option String
  | .pausing node => some node
  | _ => none

/-- A worker's step repeats no node completed before it entered the graph, and does not pause at a
    checkpoint answered before. -/
def Worker.PicksUp (w : Worker) : WorkerAction → Prop
  | .startNode id => id ∉ completedIn w.enteredEvents
  | .advance _ => ∀ node ∈ w.pc.checkpoint, node ∉ w.enteredAnswers
  | _ => True

/-- Every execution picks up where what was recorded before it left off. -/
def PicksUp (s : State) (a : Action) (_ : State) : Prop :=
  match a with
  | .work i a => ∀ w ∈ s.workers[i]?, w.PicksUp a
  | _ => True

/-- A worker starts a node of its first superstep only if no completion was recorded when it entered
    the graph, and pauses there only if no checkpoint had been answered. -/
def Worker.FirstTime (w : Worker) : WorkerAction → Prop
  | .startNode _ => w.consumed = [] → completedIn w.enteredEvents = []
  | .advance _ => ∀ node ∈ w.pc.checkpoint, w.consumed = [] → w.enteredAnswers = []
  | _ => True

/-- Every execution takes its first superstep with nothing recorded. -/
def FirstTime (s : State) (a : Action) : Prop :=
  match a with
  | .work i a => ∀ w ∈ s.workers[i]?, w.FirstTime a
  | _ => True

instance (w : Worker) : ∀ a, Decidable (w.PicksUp a)
  | .startNode id => inferInstanceAs (Decidable (id ∉ completedIn w.enteredEvents))
  | .advance _ => inferInstanceAs (Decidable (∀ node ∈ w.pc.checkpoint, node ∉ w.enteredAnswers))
  | .finishNode .. | .consume | .surface | .endStream | .fault _ | .reload | .redeliver | .crash =>
    isTrue trivial

instance (s : State) : ∀ a t, Decidable (PicksUp s a t)
  | .work i a, _ => inferInstanceAs (Decidable (∀ w ∈ s.workers[i]?, w.PicksUp a))
  | .requestResume .., _ | .requestAbort, _ | .advanceAbort .., _ | .expireAbortKey, _
  | .expireRunState, _ | .deliver _, _ => isTrue trivial

instance (w : Worker) : ∀ a, Decidable (w.FirstTime a)
  | .startNode _ => inferInstanceAs (Decidable (_ → _))
  | .advance _ => inferInstanceAs (Decidable (∀ node ∈ w.pc.checkpoint, _ → _))
  | .finishNode .. | .consume | .surface | .endStream | .fault _ | .reload | .redeliver | .crash =>
    isTrue trivial

instance (s : State) : ∀ a, Decidable (FirstTime s a)
  | .work i a => inferInstanceAs (Decidable (∀ w ∈ s.workers[i]?, w.FirstTime a))
  | .requestResume .. | .requestAbort | .advanceAbort .. | .expireAbortKey | .expireRunState
  | .deliver _ => isTrue trivial

variable {sys : System}

/-! ### What is reached, and in which order -/

/-- A node some execution came to: the entry, or one behind it. -/
def Reached (sys : System) (events : List RunEvent) (id : String) : Prop :=
  id = sys.definition.entryPoint ∨ sys.definition.entryPoint ∈ completedIn events

theorem Reached.append {events : List RunEvent} {id : String} (h : Reached sys events id)
    (more : List RunEvent) : Reached sys (events ++ more) id :=
  h.imp_right fun h => by simp [h]

/-- A log that records a completion records the entry's. -/
def EntryFirst (sys : System) (events : List RunEvent) : Prop :=
  ∀ id ∈ completedIn events, sys.definition.entryPoint ∈ completedIn events

/-- The statements before a worker enters the graph. -/
def Pc.before : Pc → Bool
  | .saving | .answering | .marking | .refreshing | .announcing | .seeding | .entering => true
  | _ => false

/-- What is known of one worker. -/
structure Sound (sys : System) (events : List RunEvent) (w : Worker) : Prop where
  answers : ∀ id ∈ w.answers, Reached sys events id
  entered : EntryFirst sys w.enteredEvents
  enteredAnswers : ∀ id ∈ w.enteredAnswers, Reached sys w.enteredEvents id
  outside : w.pc.before = true → w.begun = [] ∧ w.consumed = []
  began : w.begun ≠ [] ∨ w.consumed ≠ [] → completedIn w.enteredEvents = []
  reached : ∀ id ∈ w.begun, Reached sys events id
  firstly : w.consumed = [] → ∀ id ∈ w.begun, id = sys.definition.entryPoint
  finished : ∀ u ∈ w.consumed ++ w.yielded, u.1 ∈ completedIn events
  stops : ∀ id, (id, Raised.checkpoint) ∈ w.raising → sys.isCheckpoint id = true
  pausing : ∀ id, w.pc = .pausing id → (id, Raised.checkpoint) ∈ w.raising

/-- What is known of the store. -/
structure Logged (sys : System) (s : Store) : Prop where
  log : EntryFirst sys s.events
  plain : ∀ id ∈ completedIn s.events, sys.isCheckpoint id = false
  answered : ∀ id ∈ s.answered, Reached sys s.events id
  pauses : ∀ id ∈ s.pauses, Reached sys s.events id

/-- What is known of the whole run. -/
structure Ordered (sys : System) (s : State) : Prop where
  store : Logged sys s.store
  workers : ∀ w ∈ s.workers, Sound sys s.store.events w

theorem Sound.append {events : List RunEvent} {w : Worker} (h : Sound sys events w)
    (more : List RunEvent) : Sound sys (events ++ more) w :=
  { h with
    answers := fun id hid => (h.answers id hid).append more
    reached := fun id hid => (h.reached id hid).append more
    finished := fun u hu => by simp [h.finished u hu] }

/-- An event that completes no node leaves the store as it was. -/
theorem Logged.emit {s : Store} (h : Logged sys s) {e : RunEvent} (he : e.type ≠ .nodeCompleted) :
    Logged sys { s with events := s.events ++ [e] } := by
  have hsame : completedIn (s.events ++ [e]) = completedIn s.events := by simp [completedIn, he]
  refine ⟨fun id hid => ?_, fun id hid => ?_, fun id hid => (h.answered id hid).append [e],
    fun id hid => (h.pauses id hid).append [e]⟩
  · rw [hsame] at hid ⊢
    exact h.log id hid
  · rw [hsame] at hid
    exact h.plain id hid

/-- What a worker's step leaves known: the store's log grew and the worker is still sound. -/
structure Kept (sys : System) (s : Store) (r : Store × Worker) : Prop where
  store : Logged sys r.1
  worker : Sound sys r.1.events r.2
  grew : ∃ more, r.1.events = s.events ++ more

theorem mem_begun_of_raising {w : Worker} {id : String} {e : Raised} (h : (id, e) ∈ w.raising) :
    id ∈ w.begun := by
  simp only [Worker.begun, List.mem_append, List.mem_map]
  exact .inr ⟨_, h, rfl⟩

theorem endingEvent_type (e : Ending) (finalState : Dict) (now : String) :
    (e.event finalState now).type ≠ .nodeCompleted := by
  cases e <;> simp [Ending.event]

theorem advance_kept {s : Store} {w : Worker} {now : String} {r : Store × Worker}
    (hs : Logged sys s) (hw : Sound sys s.events w) (h : advance sys s w now = some r) :
    Kept sys s r := by
  have hsame : ∃ more, s.events = s.events ++ more := ⟨[], by simp⟩
  rw [advance] at h
  split at h
  case h_1 hpc _ =>
    obtain rfl := Option.some.inj h
    exact ⟨⟨hs.log, hs.plain, hs.answered, hs.pauses⟩,
      { hw with outside := fun _ => hw.outside (by simp [hpc, Pc.before]), pausing := by simp }, hsame⟩
  case h_2 response metadata hpc _ =>
    obtain rfl := Option.some.inj h
    have hs' := hs.emit (e := ⟨.humanResponse, some (currentNode w.seen.state),
      [("response", .str response), ("metadata", .obj (metadata.getD []))]⟩) (by simp)
    refine ⟨⟨hs'.log, hs'.plain, fun id hid => ?_, hs'.pauses⟩,
      { hw.append _ with
        outside := fun _ => hw.outside (by simp [hpc, Pc.before]), pausing := by simp }, ⟨_, rfl⟩⟩
    rcases List.mem_append.mp hid with hid | hid
    · exact hs'.answered id hid
    · exact (hw.answers id (by simpa using hid)).append _
  case h_3 hpc =>
    split at h
    · obtain rfl := Option.some.inj h
      exact ⟨⟨hs.log, hs.plain, hs.answered, hs.pauses⟩, { hw with }, hsame⟩
    · obtain rfl := Option.some.inj h
      exact ⟨⟨hs.log, hs.plain, hs.answered, hs.pauses⟩,
        { hw with outside := fun _ => hw.outside (by simp [hpc, Pc.before]), pausing := by simp },
        hsame⟩
  case h_4 hpc =>
    obtain rfl := Option.some.inj h
    exact ⟨hs, { hw with
      outside := fun _ => hw.outside (by simp [hpc, Pc.before])
      pausing := by intro id hid; dsimp only at hid; split at hid <;> cases hid }, hsame⟩
  case h_5 hpc =>
    obtain rfl := Option.some.inj h
    exact ⟨hs.emit (by simp),
      { hw.append _ with
        outside := fun _ => hw.outside (by simp [hpc, Pc.before]), pausing := by simp }, ⟨_, rfl⟩⟩
  case h_6 hpc =>
    obtain rfl := Option.some.inj h
    exact ⟨hs, { hw with
      outside := fun _ => hw.outside (by simp [hpc, Pc.before]), pausing := by simp }, hsame⟩
  case h_7 hpc =>
    -- the execution enters the graph: what it is measured against is the log of this moment
    obtain rfl := Option.some.inj h
    obtain ⟨hbegun, hconsumed⟩ := hw.outside (by simp [hpc, Pc.before])
    exact ⟨⟨hs.log, hs.plain, hs.answered, hs.pauses⟩, { hw with
      entered := hs.log
      enteredAnswers := hs.answered
      outside := by simp [Pc.before]
      began := fun hor => absurd hor (not_or.mpr ⟨not_not.mpr hbegun, not_not.mpr hconsumed⟩)
      pausing := by simp }, hsame⟩
  case h_8 node _ hpc =>
    obtain rfl := Option.some.inj h
    refine ⟨⟨hs.log, hs.plain, hs.answered, fun id hid => ?_⟩,
      { hw with outside := by simp [Pc.before], pausing := by simp }, hsame⟩
    rcases List.mem_cons.mp hid with rfl | hid
    · exact hw.reached _ (mem_begun_of_raising (hw.pausing _ hpc))
    · exact hs.pauses id hid
  case h_9 => 
    obtain rfl := Option.some.inj h
    exact ⟨⟨hs.log, hs.plain, hs.answered, hs.pauses⟩, { hw with }, hsame⟩
  case h_10 =>
    obtain rfl := Option.some.inj h
    exact ⟨hs.emit (endingEvent_type _ _ _), { hw.append _ with
      outside := by simp [Pc.before], pausing := by simp }, ⟨_, rfl⟩⟩
  case h_11 =>
    obtain rfl := Option.some.inj h
    exact ⟨⟨hs.log, hs.plain, hs.answered, hs.pauses⟩,
      { hw with outside := by simp [Pc.before], pausing := by simp }, hsame⟩
  case h_12 =>
    obtain rfl := Option.some.inj h
    exact ⟨⟨hs.log, hs.plain, hs.answered, hs.pauses⟩, { hw with }, hsame⟩
  case h_13 => cases h

theorem first_task (hstart : Starts sys.engine) {w : Worker} {id : String}
    (hid : id ∈ tasks sys w) (hw : w.consumed = []) : id = sys.definition.entryPoint := by
  rw [tasks] at hid
  split at hid
  case h_2 => cases hid
  case h_1 g hg =>
    have hbuilt : buildGraph sys.definition = .ok g := by
      rw [System.compile] at hg
      split at hg
      · cases hg
      · split at hg
        · cases hg
        · cases hg
          assumption
    rw [hw, hstart, List.mem_singleton] at hid
    exact hid.trans (buildGraph_entry hbuilt).1

/-- A node some execution took the first superstep for is its entry, and it is reached. -/
structure Came (sys : System) (events : List RunEvent) (w : Worker) (id : String) : Prop where
  reached : Reached sys events id
  firstly : w.consumed = [] → id = sys.definition.entryPoint
  none : completedIn w.enteredEvents = []

/-- What holds of the nodes begun holds of them with such a node. -/
theorem Came.join {events : List RunEvent} {w w' : Worker} {id : String}
    (hid : Came sys events w id) (hw : Sound sys events w)
    (hbegun : ∀ id' ∈ w'.begun, id' = id ∨ id' ∈ w.begun) :
    (∀ id' ∈ w'.begun, Reached sys events id') ∧
      (w.consumed = [] → ∀ id' ∈ w'.begun, id' = sys.definition.entryPoint) := by
  constructor
  · intro id' hid'
    rcases hbegun id' hid' with rfl | hold
    · exact hid.reached
    · exact hw.reached id' hold
  · intro hc id' hid'
    rcases hbegun id' hid' with rfl | hold
    · exact hid.firstly hc
    · exact hw.firstly hc id' hold

theorem startNode_kept (hstart : Starts sys.engine) {s : Store} {w : Worker} {id : String}
    {r : Store × Worker} (hs : Logged sys s) (hw : Sound sys s.events w)
    (hok : w.consumed = [] → completedIn w.enteredEvents = [])
    (h : startNode sys s w id = some r) : Kept sys s r := by
  rw [startNode] at h
  split at h
  case isFalse => cases h
  case isTrue hcond =>
    obtain ⟨hpc, htask, _⟩ := hcond
    obtain ⟨node, _, rfl⟩ := Option.map_eq_some_iff.mp h
    have hreached : Reached sys s.events id := by
      cases hc : w.consumed with
      | nil => exact .inl (first_task hstart htask hc)
      | cons u rest => exact .inr (hs.log u.1 (hw.finished u (by simp [hc])))
    have hnone : completedIn w.enteredEvents = [] := by
      by_cases hc : w.consumed = []
      · exact hok hc
      · exact hw.began (.inr hc)
    have hcame : ∀ more, Came sys (s.events ++ more) w id := fun more =>
      ⟨hreached.append more, fun hc => first_task hstart htask hc, hnone⟩
    have hbegun : ∀ id' ∈ ({ w with inflight := w.inflight ++ [(id, view sys w)] } : Worker).begun,
        id' = id ∨ id' ∈ w.begun := by
      intro id' hid'
      simp only [Worker.begun, List.map_append, List.mem_append, List.map_cons, List.map_nil,
        List.mem_singleton] at hid' ⊢
      tauto
    obtain ⟨hall, hfirstly⟩ := (hcame _).join (hw.append _) hbegun
    exact ⟨hs.emit (by simp), { hw.append _ with
      outside := by simp [hpc, Pc.before]
      began := fun _ => hnone
      reached := hall
      firstly := hfirstly }, ⟨_, rfl⟩⟩

/-- A node in flight is out of the way once it ends. -/
theorem Sound.land {events : List RunEvent} {w : Worker} (hw : Sound sys events w)
    (e : String × Dict) : Sound sys events { w with inflight := w.inflight.erase e } := by
  have hsub : ∀ id ∈ ({ w with inflight := w.inflight.erase e } : Worker).begun, id ∈ w.begun := by
    intro id hid
    simp only [Worker.begun, List.mem_append, List.mem_map] at hid ⊢
    rcases hid with (⟨f, hf, rfl⟩ | hid) | hid
    · exact .inl (.inl ⟨f, List.mem_of_mem_erase hf, rfl⟩)
    · exact .inl (.inr hid)
    · exact .inr hid
  have hnil : w.begun = [] → ({ w with inflight := w.inflight.erase e } : Worker).begun = [] :=
    fun h => List.eq_nil_iff_forall_not_mem.mpr fun id hid => by simpa [h] using hsub id hid
  exact { hw with
    outside := fun hb => ⟨hnil (hw.outside hb).1, (hw.outside hb).2⟩
    began := fun h => hw.began (h.imp_left fun hne hw' => hne (hnil hw'))
    reached := fun id hid => hw.reached id (hsub id hid)
    firstly := fun hc id hid => hw.firstly hc id (hsub id hid) }

/-- A node of the superstep raises: it leaves the stream's way and waits to surface. -/
theorem Sound.raise {events : List RunEvent} {w : Worker} (hw : Sound sys events w)
    (hpc : w.pc = .streaming) {id : String} {e : Raised} (hid : Came sys events w id)
    (he : e = .checkpoint → sys.isCheckpoint id = true) :
    Sound sys events { w with raising := w.raising ++ [(id, e)] } := by
  have hbegun : ∀ id' ∈ ({ w with raising := w.raising ++ [(id, e)] } : Worker).begun,
      id' = id ∨ id' ∈ w.begun := by
    intro id' hid'
    simp only [Worker.begun, List.map_append, List.mem_append, List.map_cons, List.map_nil,
      List.mem_singleton] at hid' ⊢
    tauto
  obtain ⟨hall, hfirstly⟩ := hid.join hw hbegun
  exact { hw with
    outside := by simp [hpc, Pc.before]
    began := fun _ => hid.none
    reached := hall
    firstly := hfirstly
    stops := fun id' hid' => by
      rcases List.mem_append.mp hid' with hold | hnew
      · exact hw.stops id' hold
      · obtain ⟨rfl, hce⟩ := Prod.mk.inj (List.mem_singleton.mp hnew)
        exact he hce.symm
    pausing := by simp [hpc] }

/-- A node of the superstep completes: the log records it and its update waits to be consumed. -/
theorem Sound.yield {events : List RunEvent} {w : Worker} (hw : Sound sys events w)
    (hpc : w.pc = .streaming) {id : String} {update : Dict} (hid : Came sys events w id)
    (hdone : id ∈ completedIn events) :
    Sound sys events { w with yielded := w.yielded ++ [(id, update)] } := by
  have hbegun : ∀ id' ∈ ({ w with yielded := w.yielded ++ [(id, update)] } : Worker).begun,
      id' = id ∨ id' ∈ w.begun := by
    intro id' hid'
    simp only [Worker.begun, List.map_append, List.mem_append, List.map_cons, List.map_nil,
      List.mem_singleton] at hid' ⊢
    tauto
  obtain ⟨hall, hfirstly⟩ := hid.join hw hbegun
  exact { hw with
    outside := by simp [hpc, Pc.before]
    began := fun _ => hid.none
    reached := hall
    firstly := hfirstly
    finished := fun u hu => by
      simp only [← List.append_assoc, List.mem_append, List.mem_singleton] at hu
      rcases hu with hold | rfl
      · exact hw.finished u (List.mem_append.mpr hold)
      · exact hdone }

/-- Recording the completion of a node that was reached keeps the entry first. -/
theorem Logged.complete {s : Store} (h : Logged sys s) {id : String} (hr : Reached sys s.events id)
    (hplain : sys.isCheckpoint id = false) (payload : Dict) :
    Logged sys { s with events := s.events ++ [⟨.nodeCompleted, some id, payload⟩] } := by
  have hnew : completedIn (s.events ++ [⟨.nodeCompleted, some id, payload⟩]) =
      completedIn s.events ++ [id] := by simp [completedIn]
  refine ⟨fun id' hid' => ?_, fun id' hid' => ?_, fun id' hid' => (h.answered id' hid').append _,
    fun id' hid' => (h.pauses id' hid').append _⟩
  · rw [hnew]
    rcases hr with rfl | hin
    · simp
    · exact List.mem_append_left _ hin
  · rw [hnew] at hid'
    rcases List.mem_append.mp hid' with hold | hid'
    · exact h.plain id' hold
    · exact List.mem_singleton.mp hid' ▸ hplain

theorem finishNode_kept {s : Store} {w : Worker} {id : String} {reply : Except Failure Dict}
    {r : Store × Worker} (hs : Logged sys s) (hw : Sound sys s.events w)
    (h : finishNode sys s w id reply = some r) : Kept sys s r := by
  obtain ⟨e, node, hpc, he, rfl, hid, hnode, rfl⟩ := finishNode_cases h
  have hbegun : node.id ∈ w.begun := by
    simp only [Worker.begun, List.mem_append, List.mem_map]
    exact .inl (.inl ⟨e, he, hid.symm⟩)
  have hcame : ∀ more, Came sys (s.events ++ more)
      { w with inflight := w.inflight.erase e } node.id := fun more =>
    ⟨(hw.reached _ hbegun).append more, fun hc => hw.firstly hc _ hbegun,
      hw.began (.inl (List.ne_nil_of_mem hbegun))⟩
  have hcheckpoint := isCheckpoint_eq hnode
  rw [← hid] at hcheckpoint
  split
  case isTrue htype =>
    exact ⟨hs.emit (by simp), ((hw.land e).append _).raise hpc (hcame _)
      fun _ => by simp [hcheckpoint, htype], ⟨_, rfl⟩⟩
  case isFalse htype =>
    rw [completeNode]
    split
    · exact ⟨hs.complete (hw.reached _ hbegun) (by simp [hcheckpoint, htype]) _,
        ((hw.land e).append _).yield hpc (hcame _) (by simp [completedIn]), ⟨_, rfl⟩⟩
    · exact ⟨hs.emit (by simp),
        ((hw.land e).append _).raise hpc (hcame _) (by simp), ⟨_, rfl⟩⟩

theorem consume_kept {s : Store} {w : Worker} {r : Store × Worker}
    (hs : Logged sys s) (hw : Sound sys s.events w) (h : consume s w = some r) : Kept sys s r := by
  rw [consume] at h
  split at h
  case h_2 => cases h
  case h_1 update rest hpc hyield =>
    have hnone : completedIn w.enteredEvents = [] := hw.began (.inl (by simp [Worker.begun, hyield]))
    split at h
    · obtain rfl := Option.some.inj h
      exact ⟨hs, { hw with outside := by simp [Pc.before], pausing := by simp }, ⟨[], by simp⟩⟩
    · obtain rfl := Option.some.inj h
      refine ⟨⟨hs.log, hs.plain, hs.answered, hs.pauses⟩, { hw with
        outside := by simp [hpc, Pc.before]
        began := fun _ => hnone
        reached := fun id hid => hw.reached id ?_
        firstly := by simp
        finished := fun u hu => hw.finished u ?_ }, ⟨[], by simp⟩⟩
      · simp only [Worker.begun, hyield, List.map_cons, List.mem_append, List.mem_cons] at hid ⊢
        tauto
      · simpa [hyield] using hu

theorem surface_kept {s : Store} {w : Worker} {r : Store × Worker}
    (hs : Logged sys s) (hw : Sound sys s.events w) (h : surface s w = some r) : Kept sys s r := by
  rw [surface] at h
  split at h
  case h_1 node rest hpc hraising =>
    obtain rfl := Option.some.inj h
    refine ⟨hs, { hw with outside := by simp [Pc.before], pausing := fun id hid => ?_ }, ⟨[], by simp⟩⟩
    obtain rfl := Pc.pausing.inj hid
    simp [hraising]
  case h_2 =>
    obtain rfl := Option.some.inj h
    exact ⟨hs, { hw with outside := by simp [Pc.before], pausing := by simp }, ⟨[], by simp⟩⟩
  case h_3 => cases h

/-- STEP LEMMA of one worker: where its first superstep is taken only with nothing recorded, what is
    known of it and of the store stays known. -/
theorem workerStep_kept (hstart : Starts sys.engine) {s : Store} {w : Worker} {a : WorkerAction}
    {r : Store × Worker} (hs : Logged sys s) (hw : Sound sys s.events w) (hok : w.FirstTime a)
    (h : workerStep sys s w a = some r) : Kept sys s r := by
  have hsame : ∃ more, s.events = s.events ++ more := ⟨[], by simp⟩
  cases a with
  | advance now => exact advance_kept hs hw h
  | startNode id => exact startNode_kept hstart hs hw hok h
  | finishNode id reply => exact finishNode_kept hs hw h
  | consume => exact consume_kept hs hw h
  | surface => exact surface_kept hs hw h
  | endStream =>
    simp only [workerStep] at h
    split at h
    · obtain rfl := Option.some.inj h
      exact ⟨hs, { hw with outside := by simp [Pc.before], pausing := by simp }, hsame⟩
    · cases h
  | fault f =>
    simp only [workerStep] at h
    split at h
    · obtain rfl := Option.some.inj h
      exact ⟨hs, { hw with outside := by simp [Pc.before], pausing := by simp }, hsame⟩
    · obtain rfl := Option.some.inj h
      exact ⟨⟨hs.log, hs.plain, hs.answered, hs.pauses⟩, { hw with }, hsame⟩
  | reload =>
    obtain rfl := Option.some.inj h
    exact ⟨hs, { hw with }, hsame⟩
  | redeliver =>
    obtain rfl := Option.some.inj h
    exact ⟨⟨hs.log, hs.plain, hs.answered, hs.pauses⟩, hw, hsame⟩
  | crash =>
    obtain rfl := Option.some.inj h
    exact ⟨⟨hs.log, hs.plain, hs.answered, hs.pauses⟩, { hw with }, hsame⟩

/-- A worker that just took its task knows nothing but the pause it answers. -/
theorem sound_fresh {events : List RunEvent} {task : Task} {pc : Pc} {seen : FlowRun} {pause : ℕ}
    {answers : Option String} (hpc : pc.before = true) (h : ∀ id ∈ answers, Reached sys events id) :
    Sound sys events (.fresh task pc seen pause answers) :=
  ⟨h, by simp [EntryFirst, Worker.fresh], by simp [Worker.fresh], by simp [Worker.begun, Worker.fresh],
    by simp [Worker.begun, Worker.fresh], by simp [Worker.begun, Worker.fresh],
    by simp [Worker.begun, Worker.fresh], by simp [Worker.fresh], by simp [Worker.fresh], fun id hid => by
      obtain rfl : pc = .pausing id := hid
      cases hpc⟩

theorem deliver_ordered {s t : State} {k : ℕ} (hs : Ordered sys s)
    (h : step sys s (.deliver k) = some t) : Ordered sys t := by
  have hstore := hs.store
  rcases deliver_cases h with ⟨_, rfl⟩ | ⟨_, _, _, _, _, rfl⟩ | ⟨_, _, _, _, _, _, rfl⟩
  · refine ⟨⟨hstore.log, hstore.plain, hstore.answered, hstore.pauses⟩, fun w hw => ?_⟩
    rcases List.mem_append.mp hw with hw | hw
    · exact hs.workers w hw
    · obtain rfl := List.mem_singleton.mp hw
      exact sound_fresh rfl (by simp)
  · refine ⟨⟨hstore.log, hstore.plain, hstore.answered, hstore.pauses⟩, fun w hw => ?_⟩
    rcases List.mem_append.mp hw with hw | hw
    · exact hs.workers w hw
    · exact List.mem_singleton.mp hw ▸
        sound_fresh rfl fun id hid => hstore.pauses id (List.mem_of_mem_head? hid)
  · exact ⟨⟨hstore.log, hstore.plain, hstore.answered, hstore.pauses⟩, hs.workers⟩

/-- STEP LEMMA of the run. -/
theorem step_ordered (hstart : Starts sys.engine) (s : State) (a : Action) (t : State)
    (hs : Ordered sys s) (hok : FirstTime s a) (h : step sys s a = some t) : Ordered sys t := by
  cases a with
  | requestResume response metadata =>
    obtain rfl := Option.some.inj h
    exact ⟨⟨hs.store.log, hs.store.plain, hs.store.answered, hs.store.pauses⟩, hs.workers⟩
  | requestAbort =>
    simp only [step] at h
    split at h
    · exact Option.some.inj h ▸ hs
    · obtain rfl := Option.some.inj h
      exact ⟨hs.store, hs.workers⟩
  | advanceAbort k now =>
    obtain ⟨request, r, _, hr, rfl⟩ := abort_cases h
    rw [advanceAbort] at hr
    split at hr
    · obtain rfl := Option.some.inj hr
      exact ⟨⟨hs.store.log, hs.store.plain, hs.store.answered, hs.store.pauses⟩, hs.workers⟩
    · obtain rfl := Option.some.inj hr
      exact ⟨hs.store.emit (endingEvent_type _ _ _), fun w hw => (hs.workers w hw).append _⟩
    · obtain rfl := Option.some.inj hr
      exact ⟨⟨hs.store.log, hs.store.plain, hs.store.answered, hs.store.pauses⟩, hs.workers⟩
    · cases hr
  | expireAbortKey =>
    obtain rfl := Option.some.inj h
    exact ⟨⟨hs.store.log, hs.store.plain, hs.store.answered, hs.store.pauses⟩, hs.workers⟩
  | expireRunState =>
    obtain rfl := Option.some.inj h
    exact ⟨⟨hs.store.log, hs.store.plain, hs.store.answered, hs.store.pauses⟩, hs.workers⟩
  | deliver k => exact deliver_ordered hs h
  | work i a =>
    obtain ⟨w, r, hw, _, hr, rfl⟩ := work_cases h
    have hmem : w ∈ s.workers := List.mem_of_getElem? hw
    obtain ⟨hstore, hworker, more, hmore⟩ :=
      workerStep_kept hstart hs.store (hs.workers w hmem) (hok w hw) hr
    refine ⟨hstore, fun v hv => ?_⟩
    rcases List.mem_or_eq_of_mem_set hv with hv | rfl
    · exact hmore ▸ (hs.workers v hv).append more
    · exact hworker

/-- A worker's step picks up just when it is no first superstep behind recorded work. -/
theorem picksUp_iff_firstTime (hstart : Starts sys.engine) {s : Store} {w : Worker}
    {a : WorkerAction} {r : Store × Worker} (hs : Logged sys s) (hw : Sound sys s.events w)
    (h : workerStep sys s w a = some r) : w.PicksUp a ↔ w.FirstTime a := by
  cases a with
  | startNode id =>
    simp only [workerStep, startNode] at h
    split at h
    case isFalse => cases h
    case isTrue hcond =>
      constructor
      · intro hnot hc
        obtain rfl := first_task hstart hcond.2.1 hc
        exact List.eq_nil_iff_forall_not_mem.mpr fun id hid => hnot (hw.entered id hid)
      · intro hok hin
        have hnone : completedIn w.enteredEvents = [] := by
          by_cases hc : w.consumed = []
          · exact hok hc
          · exact hw.began (.inr hc)
        simp [hnone] at hin
  | advance now =>
    refine forall_congr' fun node => forall_congr' fun hnode => ?_
    have hpc : w.pc = .pausing node := by
      cases hw' : w.pc <;> simp_all [Pc.checkpoint]
    have hraising := hw.pausing node hpc
    have hbegun := mem_begun_of_raising hraising
    -- this execution ran, so no completion was recorded when it entered: only the entry can have
    -- been answered
    have hnone : completedIn w.enteredEvents = [] := hw.began (.inl (List.ne_nil_of_mem hbegun))
    have hentry : ∀ id ∈ w.enteredAnswers, id = sys.definition.entryPoint := fun id hid =>
      (hw.enteredAnswers id hid).resolve_right (by simp [hnone])
    constructor
    · intro hnot hc
      obtain rfl := hw.firstly hc node hbegun
      exact List.eq_nil_iff_forall_not_mem.mpr fun id hid => hnot (hentry id hid ▸ hid)
    · intro hok hin
      obtain rfl := hentry node hin
      cases hc : w.consumed with
      | nil => simp [hok hc] at hin
      | cons u rest =>
        -- it went on behind the entry, so the entry completed and is no checkpoint
        have hdone := hs.log u.1 (hw.finished u (by simp [hc]))
        exact absurd (hs.plain _ hdone) (by simp [hw.stops _ hraising])
  | _ => rfl

theorem picksUp_step (hstart : Starts sys.engine) (s : State) (a : Action) (t : State)
    (hs : Ordered sys s) (h : step sys s a = some t) : PicksUp s a t ↔ FirstTime s a := by
  cases a with
  | work i a =>
    obtain ⟨v, r, hv, _, hr, _⟩ := work_cases h
    refine forall_congr' fun w => forall_congr' fun hw => ?_
    obtain rfl := Option.some.inj (hv.symm.trans hw)
    exact picksUp_iff_firstTime hstart hs.store (hs.workers v (List.mem_of_getElem? hv)) hr
  | _ => rfl

theorem ordered_triggered (flowId : String) (trigger : Dict) (createdAt : Option String) :
    Ordered sys (.triggered flowId trigger createdAt) :=
  ⟨⟨by simp [EntryFirst, State.triggered, State.idle], by simp [State.triggered, State.idle],
    by simp [State.triggered, State.idle], by simp [State.triggered, State.idle]⟩,
    by simp [State.triggered, State.idle]⟩

/-- EXACT CONDITION: a run repeats no completed node and pauses at no answered checkpoint just when
    no execution takes its first superstep behind recorded work. -/
theorem picksUp_iff (hstart : Starts sys.engine) (flowId : String) (trigger : Dict)
    (createdAt : Option String) (as : List Action) :
    EveryStep (step sys) PicksUp (.triggered flowId trigger createdAt) as ↔
      Guarded (step sys) FirstTime (.triggered flowId trigger createdAt) as :=
  everyStep_iff_guarded (step_ordered hstart) (picksUp_step hstart)
    (ordered_triggered flowId trigger createdAt)

/-! ### Two flows that ask a human -/

/-- Ask first, then publish. -/
def gateFlow : FlowDefinition :=
  ⟨"gate", [⟨"gate", .humanCheckpoint, "Gate", []⟩, ⟨"publish", .action, "Publish", []⟩],
    [⟨"gate", "publish", none⟩]⟩

/-- A worker takes the run, fetches, reaches the review and pauses. -/
def untilReview : List Action :=
  [.deliver 0] ++ advances 0 5 ++ executes 0 "fetch" ++ [.work 0 .consume] ++
    executes 0 "review" ++ [.work 0 .surface] ++ advances 0 2

theorem picksUp_iff_untilReview :
    EveryStep (step ⟨chain, reviewFlow, "r1"⟩) PicksUp (.triggered "f1" [] none) untilReview :=
  (picksUp_iff (chain_starts : Starts (System.mk chain reviewFlow "r1").engine) "f1" [] none
    untilReview).mpr (by decide +kernel)

/-- The pause is answered and the next worker enters the graph. -/
def answered : List Action := [.requestResume "approved" none, .deliver 0] ++ advances 1 6

/-- A worker takes the run, comes to the gate and pauses. -/
def untilGate : List Action :=
  [.deliver 0] ++ advances 0 5 ++ executes 0 "gate" ++ [.work 0 .surface] ++ advances 0 2

/-- The resumed review flow fetches again; the resumed gate flow pauses at its gate again. -/
theorem resumed_not_picksUp :
    ¬ EveryStep (step ⟨chain, reviewFlow, "r1"⟩) PicksUp (.triggered "f1" [] none)
        (untilReview ++ answered ++ executes 1 "fetch") ∧
      ¬ EveryStep (step ⟨chain, gateFlow, "r1"⟩) PicksUp (.triggered "f1" [] none)
        (untilGate ++ answered ++ executes 1 "gate" ++ [.work 1 .surface] ++ advances 1 1) := by
  decide +kernel

end LunaCore.Flow
