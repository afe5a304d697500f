import LunaCore.Flow.AbortSignal
import LunaCore.Schemes.Parties
import Mathlib.Data.List.Sort

/-! The records of a scratchpad, one iteration each: what is counted, dropped and told of them.

        semaphore ─▶ EXISTS abort ─▶ GET record ─▶ emit started ─▶ ┌ try ────────────────────┐
                     │ set           │ gone                        │ agent ─▶ DELETE ─▶ SREM │
                     ▼               ▼                             └──┬──────────────────────┘
               skipped_aborted  skipped_missing       raises e ◀──────┘      │
                                                      │                      ▼
                                               emit failed, raise e    emit completed ─▶ processed

    Every arrow is an await: it can raise, also when what was asked for has landed, and a task that
    is cancelled raises at its next one. The emits of `started` and `completed` stand outside the
    `try`, the DELETE and the SREM are two commands, and the emit of `failed` is guarded but made
    once. Where such a call raises, an iteration is counted `failed` although its record is dropped,
    or is left without its last event; the exact condition names these calls. -/

namespace LunaCore.Flow.ScratchpadIterations
open LunaCore.Values LunaCore.Schemes

/-! ### One iteration -/

/-- What an await can raise. -/
inductive Exc where
  | abort
  | cancelled
  | failure (f : Failure)
  deriving DecidableEq

inductive Outcome where
  | processed
  | skippedMissing
  | skippedAborted
  | failed
  deriving DecidableEq

/-- How the task of a record is left. -/
inductive Result where
  | returned (o : Outcome)
  | raised (e : Exc)
  deriving DecidableEq

/-- The events of an iteration. -/
inductive Lifecycle where
  | started
  | completed
  | failed
  deriving DecidableEq

/-- What the task waits for next. -/
inductive Pc where
  /-- the semaphore, or its turn -/
  | waiting
  /-- EXISTS of the abort key -/
  | checking
  /-- GET of the record -/
  | fetching
  /-- the emit of `iteration_started` -/
  | starting
  /-- the agent's run -/
  | running
  /-- `drop`'s DELETE -/
  | deleting
  /-- `drop`'s SREM -/
  | removing
  /-- the rollback, and the emit of `iteration_failed` -/
  | failing (e : Exc)
  /-- the emit of `iteration_completed` -/
  | completing
  /-- the close of its database session -/
  | closing (r : Result)
  | ended (r : Result)
  deriving DecidableEq

/-- `Task.cancel`: raised at the task's next await. -/
inductive Cancel where
  | never
  | pending
  | delivered
  deriving DecidableEq

/-- What its `drop` did, and what was persisted under its iteration_id. -/
structure Account where
  deleted : Bool
  removed : Bool
  events : List Lifecycle
  deriving DecidableEq

/-- The task of one record. -/
structure Iteration where
  recordId : String
  pc : Pc
  cancel : Cancel
  account : Account
  deriving DecidableEq

/-- What comes of an await. A call that raises may have `landed`. -/
inductive Reply where
  | done
  | missing
  | raises (e : Exc) (landed : Bool)
  deriving DecidableEq

def Iteration.ended (it : Iteration) : Bool :=
  match it.pc with
  | .ended _ => true
  | _ => false

/-- It holds the semaphore. -/
def Iteration.active (it : Iteration) : Bool := it.pc ≠ .waiting ∧ ¬ it.ended

/-- What it is counted as, where it counts: an exception is a failure. -/
def Iteration.outcome (it : Iteration) : Outcome :=
  match it.pc with
  | .ended (.returned o) => o
  | _ => .failed

/-- An emit, which persists its event where it lands. -/
def Account.tell (a : Account) (landed : Bool) (event : Lifecycle) : Account :=
  if landed then { a with events := a.events ++ [event] } else a

/-- `_execute_single_scratchpad_iteration`, from one await to the next. -/
def advance (key : Bool) (pc : Pc) (a : Account) : Reply → Option (Pc × Account)
  | .done => match pc with
    | .checking => some (if key then .ended (.returned .skippedAborted) else .fetching, a)
    | .fetching => some (.starting, a)
    | .starting => some (.running, a.tell true .started)
    | .running => some (.deleting, a)
    | .deleting => some (.removing, { a with deleted := true })
    | .removing => some (.completing, { a with removed := true })
    | .failing e => some (.closing (.raised e), a.tell true .failed)
    | .completing => some (.closing (.returned .processed), a.tell true .completed)
    | .closing r => some (.ended r, a)
    | .waiting | .ended _ => none
  | .missing => match pc with
    | .fetching => some (.ended (.returned .skippedMissing), a)
    | _ => none
  | .raises e landed => match pc with
    | .waiting | .checking | .fetching => some (.ended (.raised e), a)
    | .starting => some (.closing (.raised e), a.tell landed .started)
    | .running => some (.failing e, a)
    | .deleting => some (.failing e, { a with deleted := landed })
    | .removing => some (.failing e, { a with removed := landed })
    -- the guard swallows what its emit raises
    | .failing first => some (.closing (.raised first), a.tell landed .failed)
    | .completing => some (.closing (.raised e), a.tell landed .completed)
    | .closing _ => some (.ended (.raised e), a)
    | .ended _ => none

/-- The same under the event loop: a cancelled task raises that it is, and nothing else is raised
    while waiting for the semaphore. -/
def Iteration.resume (key : Bool) (it : Iteration) (r : Reply) : Option Iteration :=
  if it.cancel = .pending then
    match r with
    | .raises .cancelled landed => (advance key it.pc it.account (.raises .cancelled landed)).map
        fun next => { it with pc := next.1, cancel := .delivered, account := next.2 }
    | _ => none
  else if it.pc = .waiting then none
  else (advance key it.pc it.account r).map fun next => { it with pc := next.1, account := next.2 }

/-! ### All of them -/

/-- What the node is given, and the snapshot's size. -/
structure Setup where
  node : FlowNode
  execution : IterationExecution
  collection : String
  maxIterations : ℕ
  snapshotSize : ℕ

inductive Phase where
  | iterating
  /-- `_cancel_and_drain` -/
  | draining (e : Exc)
  | returned (outcomes : List Outcome)
  | raised (e : Exc)
  deriving DecidableEq

/-- `first` is the exception `gather` hears of first. `caught` is a ghost: who was between its check
    and its end when another raised `AbortSignalError`. -/
structure State where
  key : Bool
  iterations : List Iteration
  first : Option Exc
  phase : Phase
  caught : List ℕ
  deriving DecidableEq

inductive Action where
  | setKey
  /-- The abort key expires or is deleted. -/
  | dropKey
  | begin (k : ℕ)
  | advance (k : ℕ) (r : Reply)
  | gather
  | drained
  deriving DecidableEq

def Iteration.fresh (recordId : String) : Iteration :=
  { recordId, pc := .waiting, cancel := .never
    account := { deleted := false, removed := false, events := [] } }

/-- `_iterate_with_scratchpad` up to its walk; `snapshot` is what `list_ids` gave. -/
def iterateWithScratchpad (ceiling : ℕ) (node : FlowNode) (cfg : Dict) (snapshot : List String) :
    Except String (Setup × State) :=
  (resolveScratchpadCollection node.id (cfg.get "source_config")).map fun collection =>
    let maxIterations := resolveMaxIterations (cfg.get "max_iterations")
    let boundedIds := (snapshot.insertionSort (· ≤ ·)).take maxIterations
    ({ node, execution := resolveIterationExecution ceiling cfg, collection, maxIterations
       snapshotSize := snapshot.length },
     { key := false, iterations := boundedIds.map Iteration.fresh, first := none
       phase := .iterating, caught := [] })

/-- Past its check, and not at its end. -/
def Iteration.inFlight (it : Iteration) : Bool := it.active ∧ it.pc ≠ .checking

/-- The places of the others that are in flight. -/
def State.inFlightBeside (s : State) (k : ℕ) : List ℕ :=
  (List.range s.iterations.length).filter fun j =>
    j ≠ k ∧ (s.iterations[j]?).any Iteration.inFlight

/-- An iteration gets to its next await. -/
def State.put (s : State) (k : ℕ) (it : Iteration) : State :=
  { s with
    iterations := s.iterations.set k it
    first := match s.first, it.pc with
      | none, .ended (.raised e) => some e
      | first, _ => first
    caught := if it.pc = .ended (.raised .abort) then s.caught ++ s.inFlightBeside k else s.caught }

/-- The next record may be taken: in order, or as soon as the semaphore lets it. -/
def mayBegin (setup : Setup) (s : State) (k : ℕ) : Bool :=
  match setup.execution with
  | .sequential => (s.iterations.take k).all fun it => it.ended ∧ it.outcome ≠ .failed
  | .parallel _ concurrency => s.iterations.countP Iteration.active < concurrency

/-- `t.cancel()`, of a task that is not done. -/
def Iteration.cancelled (it : Iteration) : Iteration :=
  { it with cancel := if it.ended then it.cancel else .pending }

/-- `_cancel_and_drain`, up to its wait. -/
def State.drain (s : State) (e : Exc) : State :=
  { s with iterations := s.iterations.map Iteration.cancelled, phase := .draining e }

/-- The walk returns what its iterations did. -/
def State.collect (s : State) : State :=
  { s with phase := .returned (s.iterations.map Iteration.outcome) }

/-- What the walk makes of its iterations, once it makes anything of them. -/
def gathered (setup : Setup) (s : State) : Option State :=
  match setup.execution with
  | .sequential => match s.first with
    | some e => some { s with phase := .raised e }
    | none => if s.iterations.all Iteration.ended then some s.collect else none
  | .parallel .cancelSiblings _ => match s.first with
    -- no `except` clause is for a `CancelledError`
    | some .cancelled => some { s with phase := .raised .cancelled }
    | some .abort => some (s.drain .abort)
    | some (.failure f) => some (s.drain (.failure (AbortSignal.siblingsFailure setup.node f)))
    | none => if s.iterations.all Iteration.ended then some s.collect else none
  | .parallel .goOn _ =>
    if s.iterations.all Iteration.ended then
      if s.iterations.any fun it => it.pc = .ended (.raised .abort) then some (s.drain .abort)
      else some s.collect
    else none

def step (setup : Setup) (s : State) : Action → Option State
  | .setKey => some { s with key := true }
  | .dropKey => some { s with key := false }
  | .begin k => (s.iterations[k]?).bind fun it =>
    if it.pc = .waiting ∧ it.cancel = .never ∧ mayBegin setup s k then
      some (s.put k { it with pc := .checking })
    else none
  | .advance k r => (s.iterations[k]?).bind fun it => (it.resume s.key r).map (s.put k)
  | .gather => if s.phase = .iterating then gathered setup s else none
  | .drained => match s.phase with
    | .draining e => if s.iterations.all Iteration.ended then some { s with phase := .raised e }
      else none
    | _ => none

/-- What the node puts out. -/
structure Report where
  processed : ℕ
  skippedMissing : ℕ
  skippedAborted : ℕ
  failed : ℕ
  snapshotSize : ℕ
  collection : String
  exitReason : String
  execution : IterationExecution

def report (setup : Setup) (outcomes : List Outcome) : Report where
  processed := outcomes.count .processed
  skippedMissing := outcomes.count .skippedMissing
  skippedAborted := outcomes.count .skippedAborted
  failed := outcomes.count .failed
  snapshotSize := setup.snapshotSize
  collection := setup.collection
  exitReason := if setup.maxIterations < setup.snapshotSize then "max_iterations" else "exhausted"
  execution := setup.execution

/-! ### The account of an iteration -/

/-- The event that tells of an outcome. -/
def Outcome.event : Outcome → Option Lifecycle
  | .processed => some .completed
  | .failed => some .failed
  | .skippedMissing | .skippedAborted => none

/-- Nothing was told, or that it started and then, once, how it ended. -/
def Told (o : Outcome) (events : List Lifecycle) : Prop :=
  events = [] ∨ ∃ event, o.event = some event ∧ events = [.started, event]

/-- The record was dropped just where the iteration counts as processed, and its events match. -/
structure Accounted (a : Account) (o : Outcome) : Prop where
  deleted : a.deleted = true ↔ o = .processed
  removed : a.removed = true ↔ o = .processed
  told : Told o a.events

/-- The report adds up, and every iteration is accounted for. -/
structure Consistent (setup : Setup) (t : State) (outcomes : List Outcome) : Prop where
  total : (report setup outcomes).processed + (report setup outcomes).skippedMissing +
      (report setup outcomes).skippedAborted + (report setup outcomes).failed =
    min setup.snapshotSize setup.maxIterations
  accounted : ∀ (k : ℕ) (it : Iteration), t.iterations[k]? = some it →
    ∃ o, outcomes[k]? = some o ∧ Accounted it.account o

/-- What may raise at an await: no emit of `started` and no DELETE that landed, no SREM, no emit of
    `completed` and no close after it, and no emit of `failed` that did not land. -/
def MayRaise (landed : Bool) : Pc → Prop
  | .starting | .deleting => landed = false
  | .removing | .completing | .closing (.returned _) => False
  | .failing _ => landed = true
  | _ => True

def KeepsAccount (s : State) : Action → Prop
  | .advance k (.raises _ landed) =>
    ∀ it : Iteration, s.iterations[k]? = some it → MayRaise landed it.pc
  | _ => True

instance (landed : Bool) : ∀ pc : Pc, Decidable (MayRaise landed pc)
  | .starting | .deleting => inferInstanceAs (Decidable (landed = false))
  | .removing | .completing | .closing (.returned _) => isFalse fun h => h
  | .failing _ => inferInstanceAs (Decidable (landed = true))
  | .waiting | .checking | .fetching | .running | .closing (.raised _) | .ended _ => isTrue trivial

instance (s : State) (b : Action) : Decidable (KeepsAccount s b) :=
  match b with
  | .advance k (.raises _ landed) =>
    decidable_of_iff (∀ it ∈ s.iterations[k]?, MayRaise landed it.pc) Iff.rfl
  | .advance _ .done | .advance _ .missing | .setKey | .dropKey | .begin _ | .gather | .drained =>
    isTrue trivial

/-! ### What an iteration has done by the time it waits for something -/

def Sound (a : Account) : Pc → Prop
  | .waiting | .checking | .fetching | .starting =>
    a.deleted = false ∧ a.removed = false ∧ a.events = []
  | .running | .deleting | .failing _ =>
    a.deleted = false ∧ a.removed = false ∧ a.events = [.started]
  | .removing => a.deleted = true ∧ a.removed = false ∧ a.events = [.started]
  | .completing => a.deleted = true ∧ a.removed = true ∧ a.events = [.started]
  | .closing (.returned o) => o = .processed ∧ Accounted a o
  | .ended (.returned o) => Accounted a o
  | .closing (.raised _) | .ended (.raised _) => Accounted a .failed

/-- It will count as failed, with its record deleted or its last event missing. -/
def Spoilt (a : Account) : Pc → Prop
  | .failing _ => a.deleted = true
  | .closing (.raised _) | .ended (.raised _) => a.deleted = true ∨ a.events = [.started]
  | _ => False

theorem accounted_processed {a : Account} (hdeleted : a.deleted = true) (hremoved : a.removed = true)
    (htold : Told .processed a.events) : Accounted a .processed :=
  ⟨by simp [hdeleted], by simp [hremoved], htold⟩

theorem accounted_other {a : Account} {o : Outcome} (ho : o ≠ .processed)
    (hdeleted : a.deleted = false) (hremoved : a.removed = false) (htold : Told o a.events) :
    Accounted a o :=
  ⟨by simp [hdeleted, ho], by simp [hremoved, ho], htold⟩

theorem events_tell {a : Account} {events : List Lifecycle} (h : a.events = events)
    (event : Lifecycle) : (a.tell true event).events = events ++ [event] := by
  rw [← h]
  rfl

variable {key landed : Bool} {e : Exc} {pc pc' : Pc} {a a' : Account}

theorem sound_done (hs : Sound a pc) (h : advance key pc a .done = some (pc', a')) :
    Sound a' pc' := by
  cases pc with
  | waiting | ended r => cases h
  | checking =>
    cases h
    cases key
    · exact hs
    · exact accounted_other (by decide) hs.1 hs.2.1 (.inl hs.2.2)
  | fetching | running =>
    cases h
    exact hs
  | starting =>
    cases h
    exact ⟨hs.1, hs.2.1, events_tell hs.2.2 .started⟩
  | deleting =>
    cases h
    exact ⟨rfl, hs.2⟩
  | removing =>
    cases h
    exact ⟨hs.1, rfl, hs.2.2⟩
  | failing e =>
    cases h
    exact accounted_other (by decide) hs.1 hs.2.1
      (.inr ⟨.failed, rfl, events_tell hs.2.2 .failed⟩)
  | completing =>
    cases h
    exact ⟨rfl, accounted_processed hs.1 hs.2.1
      (.inr ⟨.completed, rfl, events_tell hs.2.2 .completed⟩)⟩
  | closing r =>
    cases h
    cases r with
    | returned o => exact hs.2
    | raised e => exact hs

theorem sound_missing (hs : Sound a pc) (h : advance key pc a .missing = some (pc', a')) :
    Sound a' pc' := by
  cases pc with
  | fetching =>
    cases h
    exact accounted_other (by decide) hs.1 hs.2.1 (.inl hs.2.2)
  | _ => cases h

/-- A call that may raise leaves the iteration sound. -/
theorem sound_raises (hs : Sound a pc) (hok : MayRaise landed pc)
    (h : advance key pc a (.raises e landed) = some (pc', a')) : Sound a' pc' := by
  cases pc with
  | ended r => cases h
  | waiting | checking | fetching =>
    cases h
    exact accounted_other (by decide) hs.1 hs.2.1 (.inl hs.2.2)
  | starting =>
    obtain rfl : landed = false := hok
    cases h
    exact accounted_other (by decide) hs.1 hs.2.1 (.inl hs.2.2)
  | running =>
    cases h
    exact hs
  | deleting =>
    obtain rfl : landed = false := hok
    cases h
    exact ⟨rfl, hs.2⟩
  | removing | completing => cases hok
  | failing first =>
    obtain rfl : landed = true := hok
    cases h
    exact accounted_other (by decide) hs.1 hs.2.1
      (.inr ⟨.failed, rfl, events_tell hs.2.2 .failed⟩)
  | closing r =>
    cases r with
    | returned o => cases hok
    | raised first =>
      cases h
      exact hs

/-- One that may not spoils it. -/
theorem spoilt_raises (hs : Sound a pc) (hok : ¬ MayRaise landed pc)
    (h : advance key pc a (.raises e landed) = some (pc', a')) : Spoilt a' pc' := by
  cases pc with
  | waiting | checking | fetching | running => exact absurd trivial hok
  | ended r => cases h
  | starting =>
    obtain rfl : landed = true := by simpa [MayRaise] using hok
    cases h
    exact .inr (events_tell hs.2.2 .started)
  | deleting =>
    obtain rfl : landed = true := by simpa [MayRaise] using hok
    cases h
    rfl
  | removing =>
    cases h
    exact hs.1
  | failing first =>
    obtain rfl : landed = false := by simpa [MayRaise] using hok
    cases h
    exact .inr hs.2.2
  | completing =>
    cases h
    cases landed <;> exact .inl hs.1
  | closing r =>
    cases r with
    | returned o =>
      cases h
      exact .inl (hs.2.deleted.mpr hs.1)
    | raised first => exact absurd trivial hok

/-- Nothing that comes after makes it up. -/
theorem spoilt_advance {r : Reply} (hs : Spoilt a pc) (h : advance key pc a r = some (pc', a')) :
    Spoilt a' pc' := by
  cases pc with
  | failing first =>
    cases r with
    | missing => cases h
    | done =>
      cases h
      exact .inl hs
    | raises e landed =>
      cases h
      cases landed <;> exact .inl hs
  | closing result =>
    cases result with
    | returned o => cases hs
    | raised first =>
      cases r with
      | missing => cases h
      | done | raises e landed =>
        cases h
        exact hs
  | ended result => cases r <;> cases h
  | _ => cases hs

theorem not_accounted_of_spoilt (hs : Spoilt a (.ended (.raised e))) : ¬ Accounted a .failed := by
  intro h
  rcases hs with hdeleted | hevents
  · exact absurd (h.deleted.mp hdeleted) (by decide)
  · rcases h.told with hnone | ⟨event, -, hboth⟩
    · rw [hnone] at hevents
      cases hevents
    · rw [hboth] at hevents
      cases hevents

/-! ### The walk -/

variable {setup : Setup} {s t : State} {k : ℕ} {r : Reply} {it it' : Iteration}

/-- What a task does is what its body does from where it is. -/
theorem resume_advance (h : it.resume key r = some it') :
    advance key it.pc it.account r = some (it'.pc, it'.account) := by
  unfold Iteration.resume at h
  split_ifs at h with hcancel hwaiting
  · match r, h with
    | .raises .cancelled landed, h =>
      obtain ⟨next, hnext, rfl⟩ := Option.map_eq_some_iff.mp h
      exact hnext
  · obtain ⟨next, hnext, rfl⟩ := Option.map_eq_some_iff.mp h
    exact hnext

theorem gathered_cases (h : gathered setup s = some t) :
    (∃ e, t = { s with phase := .raised e }) ∨ (∃ e, t = s.drain e) ∨
      (s.iterations.all Iteration.ended ∧ t = s.collect) := by
  unfold gathered at h
  split at h
  · split at h
    · cases h
      exact .inl ⟨_, rfl⟩
    · split_ifs at h with hall
      cases h
      exact .inr (.inr ⟨hall, rfl⟩)
  · split at h
    · cases h
      exact .inl ⟨_, rfl⟩
    · cases h
      exact .inr (.inl ⟨_, rfl⟩)
    · cases h
      exact .inr (.inl ⟨_, rfl⟩)
    · split_ifs at h with hall
      cases h
      exact .inr (.inr ⟨hall, rfl⟩)
  · split_ifs at h with hall habort
    · cases h
      exact .inr (.inl ⟨_, rfl⟩)
    · cases h
      exact .inr (.inr ⟨hall, rfl⟩)

theorem step_cases {b : Action} (h : step setup s b = some t) :
    (∃ key, t = { s with key }) ∨
      (∃ k it, b = .begin k ∧ s.iterations[k]? = some it ∧ it.pc = .waiting ∧
        t = s.put k { it with pc := .checking }) ∨
      (∃ k r it it', b = .advance k r ∧ s.iterations[k]? = some it ∧
        it.resume s.key r = some it' ∧ t = s.put k it') ∨
      (b = .gather ∧ s.phase = .iterating ∧ gathered setup s = some t) ∨
      (b = .drained ∧ ∃ e, s.phase = .draining e ∧ t = { s with phase := .raised e }) := by
  cases b with
  | setKey | dropKey =>
    cases h
    exact .inl ⟨_, rfl⟩
  | begin k =>
    obtain ⟨it, hit, hnext⟩ := Option.bind_eq_some_iff.mp h
    split_ifs at hnext with hbegin
    cases hnext
    exact .inr (.inl ⟨k, it, rfl, hit, hbegin.1, rfl⟩)
  | advance k r =>
    obtain ⟨it, hit, hnext⟩ := Option.bind_eq_some_iff.mp h
    obtain ⟨it', hresume, rfl⟩ := Option.map_eq_some_iff.mp hnext
    exact .inr (.inr (.inl ⟨k, r, it, it', rfl, hit, hresume, rfl⟩))
  | gather =>
    rw [step] at h
    split_ifs at h with hphase
    exact .inr (.inr (.inr (.inl ⟨rfl, hphase, h⟩)))
  | drained =>
    rw [step] at h
    split at h
    · split_ifs at h
      cases h
      exact .inr (.inr (.inr (.inr ⟨rfl, _, ‹_›, rfl⟩)))
    · cases h

@[simp] theorem put_iterations (s : State) (k : ℕ) (it : Iteration) :
    (s.put k it).iterations = s.iterations.set k it := rfl

theorem length_step {b : Action} (h : step setup s b = some t) :
    t.iterations.length = s.iterations.length := by
  rcases step_cases h with ⟨_, rfl⟩ | ⟨_, _, -, -, -, rfl⟩ | ⟨_, _, _, _, -, -, -, rfl⟩ |
    ⟨-, -, hgather⟩ | ⟨-, _, -, rfl⟩
  · rfl
  · rw [put_iterations, List.length_set]
  · rw [put_iterations, List.length_set]
  · rcases gathered_cases hgather with ⟨_, rfl⟩ | ⟨_, rfl⟩ | ⟨-, rfl⟩
    · rfl
    · rw [State.drain, List.length_map]
    · rfl
  · rfl

/-- What a step does to one iteration: nothing, or it gets the semaphore, or its body goes on. -/
theorem step_at {b : Action} {j : ℕ} (h : step setup s b = some t)
    (hit' : t.iterations[j]? = some it') :
    ∃ it, s.iterations[j]? = some it ∧ ((it'.pc = it.pc ∧ it'.account = it.account) ∨
      (it.pc = .waiting ∧ it'.pc = .checking ∧ it'.account = it.account) ∨
      ∃ r, b = .advance j r ∧ advance s.key it.pc it.account r = some (it'.pc, it'.account)) := by
  rcases step_cases h with ⟨_, rfl⟩ | ⟨k, it, rfl, hit, hpc, rfl⟩ |
    ⟨k, r, it, next, rfl, hit, hresume, rfl⟩ | ⟨-, -, hgather⟩ | ⟨-, _, -, rfl⟩
  · exact ⟨it', hit', .inl ⟨rfl, rfl⟩⟩
  · rcases moved_cases hit' with ⟨rfl, rfl⟩ | ⟨-, hold⟩
    · exact ⟨it, hit, .inr (.inl ⟨hpc, rfl, rfl⟩)⟩
    · exact ⟨it', hold, .inl ⟨rfl, rfl⟩⟩
  · rcases moved_cases hit' with ⟨rfl, rfl⟩ | ⟨-, hold⟩
    · exact ⟨it, hit, .inr (.inr ⟨r, rfl, resume_advance hresume⟩)⟩
    · exact ⟨it', hold, .inl ⟨rfl, rfl⟩⟩
  · rcases gathered_cases hgather with ⟨_, rfl⟩ | ⟨_, rfl⟩ | ⟨-, rfl⟩
    · exact ⟨it', hit', .inl ⟨rfl, rfl⟩⟩
    · rw [State.drain, List.getElem?_map] at hit'
      obtain ⟨it, hit, rfl⟩ := Option.map_eq_some_iff.mp hit'
      exact ⟨it, hit, .inl ⟨rfl, rfl⟩⟩
    · exact ⟨it', hit', .inl ⟨rfl, rfl⟩⟩
  · exact ⟨it', hit', .inl ⟨rfl, rfl⟩⟩

/-- All iterations are sound. -/
def AllSound (s : State) : Prop :=
  ∀ (k : ℕ) (it : Iteration), s.iterations[k]? = some it → Sound it.account it.pc

/-- One is spoilt. -/
def OneSpoilt (s : State) : Prop :=
  ∃ (k : ℕ) (it : Iteration), s.iterations[k]? = some it ∧ Spoilt it.account it.pc

theorem sound_step {b : Action} (hs : AllSound s) (hok : KeepsAccount s b)
    (h : step setup s b = some t) : AllSound t := by
  intro k it' hit'
  obtain ⟨it, hit, ⟨hpc, haccount⟩ | ⟨hwaiting, hpc, haccount⟩ | ⟨r, rfl, hadvance⟩⟩ :=
    step_at h hit'
  · rw [hpc, haccount]
    exact hs k it hit
  · rw [hpc, haccount]
    have hsound := hs k it hit
    rwa [hwaiting] at hsound
  · cases r with
    | done => exact sound_done (hs k it hit) hadvance
    | missing => exact sound_missing (hs k it hit) hadvance
    | raises e landed => exact sound_raises (hs k it hit) (hok it hit) hadvance

theorem spoilt_stays {b : Action} (hs : OneSpoilt s) (h : step setup s b = some t) :
    OneSpoilt t := by
  obtain ⟨k, it, hit, hspoilt⟩ := hs
  obtain ⟨it', hit'⟩ : ∃ it', t.iterations[k]? = some it' := by
    have hlt := (List.getElem?_eq_some_iff.mp hit).1
    exact ⟨_, List.getElem?_eq_getElem (length_step h ▸ hlt)⟩
  refine ⟨k, it', hit', ?_⟩
  obtain ⟨was, hwas, hmove⟩ := step_at h hit'
  obtain rfl := Option.some.inj (hit.symm.trans hwas)
  rcases hmove with ⟨hpc, haccount⟩ | ⟨hwaiting, -, -⟩ | ⟨r, -, hadvance⟩
  · rw [hpc, haccount]
    exact hspoilt
  · rw [hwaiting] at hspoilt
    cases hspoilt
  · exact spoilt_advance hspoilt hadvance

/-- A call that must not raise does. -/
theorem spoilt_step {b : Action} (hs : AllSound s) (hok : ¬ KeepsAccount s b)
    (h : step setup s b = some t) : OneSpoilt t := by
  cases b with
  | advance k r =>
    cases r with
    | raises e landed =>
      obtain ⟨it, hit, hnext⟩ := Option.bind_eq_some_iff.mp h
      obtain ⟨it', hresume, rfl⟩ := Option.map_eq_some_iff.mp hnext
      have hraise : ¬ MayRaise landed it.pc := by
        intro hraise
        refine hok fun other hother => ?_
        obtain rfl := Option.some.inj (hit.symm.trans hother)
        exact hraise
      exact ⟨k, it', moved_self it' hit,
        spoilt_raises (hs k it hit) hraise (resume_advance hresume)⟩
    | _ => exact absurd trivial hok
  | _ => exact absurd trivial hok

/-- The walk has `n` iterations, and returns when they all ended. -/
structure Settled (n : ℕ) (s : State) : Prop where
  length : s.iterations.length = n
  ended : ∀ outcomes, s.phase = .returned outcomes →
    (∀ (k : ℕ) (it : Iteration), s.iterations[k]? = some it → it.ended = true) ∧
      outcomes = s.iterations.map Iteration.outcome

theorem ended_iff : it.ended = true ↔ ∃ r, it.pc = .ended r := by
  unfold Iteration.ended
  split
  · exact ⟨fun _ => ⟨_, ‹_›⟩, fun _ => rfl⟩
  · rename_i hne
    exact ⟨fun h => absurd h Bool.false_ne_true, fun ⟨r, hr⟩ => absurd hr (hne r)⟩

/-- What ended does not go on. -/
theorem not_ended_of_resume (h : it.resume key r = some it') : it.ended ≠ true := by
  intro hended
  obtain ⟨result, hpc⟩ := ended_iff.mp hended
  have hadvance := resume_advance h
  rw [hpc] at hadvance
  cases r <;> cases hadvance

theorem settled_step {n : ℕ} {b : Action} (hs : Settled n s) (h : step setup s b = some t) :
    Settled n t := by
  refine ⟨(length_step h).trans hs.length, fun outcomes hphase => ?_⟩
  rcases step_cases h with ⟨_, rfl⟩ | ⟨k, it, rfl, hit, hpc, rfl⟩ |
    ⟨k, r, it, it', rfl, hit, hresume, rfl⟩ | ⟨-, -, hgather⟩ | ⟨-, _, -, rfl⟩
  · exact hs.ended outcomes hphase
  · obtain ⟨r, hended⟩ := ended_iff.mp ((hs.ended outcomes hphase).1 k it hit)
    rw [hpc] at hended
    cases hended
  · exact absurd ((hs.ended outcomes hphase).1 k it hit) (not_ended_of_resume hresume)
  · rcases gathered_cases hgather with ⟨_, rfl⟩ | ⟨_, rfl⟩ | ⟨hall, rfl⟩
    · cases hphase
    · cases hphase
    · cases hphase
      exact ⟨fun k it hit => List.all_eq_true.mp hall it (List.mem_of_getElem? hit), rfl⟩
  · cases hphase

/-! ### What it returns -/

/-- Every outcome is counted once. -/
theorem count_outcomes (outcomes : List Outcome) :
    outcomes.count .processed + outcomes.count .skippedMissing + outcomes.count .skippedAborted +
      outcomes.count .failed = outcomes.length := by
  induction outcomes with
  | nil => rfl
  | cons o outcomes ih =>
    rw [List.length_cons, ← ih]
    cases o <;> simp <;> omega

/-- What ended is accounted for as what it counts as where it is sound. -/
theorem accounted_of_sound (hended : it.ended = true) (hs : Sound it.account it.pc) :
    Accounted it.account it.outcome := by
  obtain ⟨r, hpc⟩ := ended_iff.mp hended
  rw [hpc] at hs
  cases r with
  | returned o =>
    rw [Iteration.outcome, hpc]
    exact hs
  | raised e =>
    rw [Iteration.outcome, hpc]
    exact hs

theorem not_accounted_of_ended (hended : it.ended = true) (hs : Spoilt it.account it.pc) :
    ¬ Accounted it.account it.outcome := by
  obtain ⟨r, hpc⟩ := ended_iff.mp hended
  rw [hpc] at hs
  cases r with
  | returned o => cases hs
  | raised e =>
    rw [Iteration.outcome, hpc]
    exact not_accounted_of_spoilt hs

/-- What the walk starts with. -/
theorem start_fresh {ceiling : ℕ} {node : FlowNode} {cfg : Dict} {snapshot : List String}
    (hstart : iterateWithScratchpad ceiling node cfg snapshot = .ok (setup, s)) :
    ∃ boundedIds : List String,
      boundedIds.length = min setup.snapshotSize setup.maxIterations ∧
      s = { key := false, iterations := boundedIds.map .fresh, first := none, phase := .iterating
            caught := [] } := by
  unfold iterateWithScratchpad at hstart
  cases hcollection : resolveScratchpadCollection node.id (cfg.get "source_config") with
  | error error =>
    rw [hcollection] at hstart
    cases hstart
  | ok collection =>
    rw [hcollection] at hstart
    cases hstart
    refine ⟨_, ?_, rfl⟩
    rw [List.length_take, List.length_insertionSort, min_comm]

theorem sound_start {ceiling : ℕ} {node : FlowNode} {cfg : Dict} {snapshot : List String}
    (hstart : iterateWithScratchpad ceiling node cfg snapshot = .ok (setup, s)) :
    AllSound s ∧ Settled (min setup.snapshotSize setup.maxIterations) s := by
  obtain ⟨boundedIds, hlength, rfl⟩ := start_fresh hstart
  refine ⟨fun k it hit => ?_, by rw [List.length_map, hlength], fun _ hphase => by cases hphase⟩
  rw [List.getElem?_map] at hit
  obtain ⟨recordId, -, rfl⟩ := Option.map_eq_some_iff.mp hit
  exact ⟨rfl, rfl, rfl⟩

/-- CODE BUG (exact condition): what a walk that returns has counted, dropped and told agree just
    where none of the calls raised that must not. -/
theorem accounted_iff (ceiling : ℕ) (node : FlowNode) (cfg : Dict) (snapshot : List String)
    {as : List Action} {outcomes : List Outcome}
    (hstart : iterateWithScratchpad ceiling node cfg snapshot = .ok (setup, s))
    (hrun : runFrom (step setup) s as = some t) (hreturned : t.phase = .returned outcomes) :
    Consistent setup t outcomes ↔ Guarded (step setup) KeepsAccount s as := by
  obtain ⟨hsound, hsettled⟩ := sound_start hstart
  have hend := inv_run (fun _ _ _ hs h => settled_step hs h) hsettled hrun
  obtain ⟨hended, houtcomes⟩ := hend.ended outcomes hreturned
  have houtcome : ∀ (k : ℕ) (it : Iteration), t.iterations[k]? = some it →
      outcomes[k]? = some it.outcome := by
    intro k it hit
    rw [houtcomes, List.getElem?_map, hit, Option.map_some]
  rcases inv_or_spoilt (fun _ _ _ hs hok h => sound_step hs hok h)
    (fun _ _ _ hs hok h => spoilt_step hs hok h) (fun _ _ _ hs h => spoilt_stays hs h) hsound hrun
    with ⟨hguarded, hall⟩ | ⟨hguarded, k, it, hit, hspoilt⟩
  · refine iff_of_true ⟨?_, fun k it hit => ?_⟩ hguarded
    · rw [report, count_outcomes, houtcomes, List.length_map, hend.length]
    · exact ⟨it.outcome, houtcome k it hit, accounted_of_sound (hended k it hit) (hall k it hit)⟩
  · refine iff_of_false (fun hconsistent => ?_) hguarded
    obtain ⟨o, ho, haccounted⟩ := hconsistent.accounted k it hit
    obtain rfl := Option.some.inj ((houtcome k it hit).symm.trans ho)
    exact not_accounted_of_ended (hended k it hit) hspoilt haccounted

/-- A node that scores the jobs it finds, several at a time. -/
def scoreJobs : Setup where
  node := { id := "score", type := .aiAgent, name := "Score jobs", config := [] }
  execution := .parallel .goOn 4
  collection := "pending"
  maxIterations := 50
  snapshotSize := 1

def scoreCfg : Dict :=
  [("execution", .str "parallel"), ("source_config", .obj [("collection", .str "pending")])]

/-- One job, not scored yet. -/
def jobFound : State where
  key := false
  iterations := [.fresh "job-a"]
  first := none
  phase := .iterating
  caught := []

/-- The job is scored and dropped, and what comes of the emit of `iteration_completed`. -/
def scoredThen (r : Reply) : List Action :=
  [.begin 0] ++ List.replicate 6 (.advance 0 .done) ++ [.advance 0 r, .advance 0 .done, .gather]

/-- The job after that. -/
def jobScored (o : Outcome) (result : Result) (events : List Lifecycle) : State where
  key := false
  iterations := [⟨"job-a", .ended result, .never, ⟨true, true, events⟩⟩]
  first := match result with
    | .raised e => some e
    | .returned _ => none
  phase := .returned [o]
  caught := []

/-- Redis is gone when the completion is published: the job was scored, dropped and told of as
    completed, and counts as failed. -/
theorem completed_counted_failed :
    iterateWithScratchpad 4 scoreJobs.node scoreCfg ["job-a"] = .ok (scoreJobs, jobFound) ∧
    runFrom (step scoreJobs) jobFound (scoredThen (.raises (.failure ⟨"closed", "ConnectionError"⟩)
        true)) = some (jobScored .failed (.raised (.failure ⟨"closed", "ConnectionError"⟩))
        [.started, .completed]) ∧
    ¬ Consistent scoreJobs (jobScored .failed (.raised (.failure ⟨"closed", "ConnectionError"⟩))
        [.started, .completed]) [.failed] := by
  refine ⟨rfl, by decide +kernel, fun h => ?_⟩
  obtain ⟨o, ho, haccounted⟩ := h.accounted 0 _ rfl
  cases ho
  exact absurd (haccounted.deleted.mp rfl) (by decide)

/-- Four jobs, side by side: one is scored, the agent fails at one, one is gone by then, and one is
    begun after the abort. -/
def fourJobs : List Action :=
  [.begin 0, .begin 1, .advance 0 .done, .advance 1 .done, .advance 0 .done, .advance 1 .done,
    .advance 1 .done, .begin 2, .advance 2 .done, .advance 2 .missing, .advance 0 .done,
    .advance 1 (.raises (.failure ⟨"timed out", "TimeoutError"⟩) false), .advance 0 .done, .setKey,
    .begin 3, .advance 1 .done, .advance 3 .done, .advance 0 .done, .advance 0 .done,
    .advance 1 .done, .advance 0 .done, .advance 0 .done, .gather]

def scoreFour : Setup := { scoreJobs with snapshotSize := 4 }

/-- The jobs in the order of their ids. -/
def jobsFound : State :=
  { jobFound with iterations := ["job-a", "job-b", "job-c", "job-d"].map .fresh }

/-- Each counts as what was dropped and told of it. -/
theorem job_accounted : ∃ t,
    iterateWithScratchpad 4 scoreJobs.node scoreCfg ["job-c", "job-a", "job-d", "job-b"] =
      .ok (scoreFour, jobsFound) ∧
    runFrom (step scoreFour) jobsFound fourJobs = some t ∧
    t.iterations.map (fun it => (it.recordId, it.account)) =
      [("job-a", ⟨true, true, [.started, .completed]⟩),
        ("job-b", ⟨false, false, [.started, .failed]⟩), ("job-c", ⟨false, false, []⟩),
        ("job-d", ⟨false, false, []⟩)] ∧
    Consistent scoreFour t [.processed, .failed, .skippedMissing, .skippedAborted] := by
  have hstart : iterateWithScratchpad 4 scoreJobs.node scoreCfg
    ["job-c", "job-a", "job-d", "job-b"] = .ok (scoreFour, jobsFound) := rfl
  have hrun : runFrom (step scoreFour) jobsFound fourJobs = some _ := rfl
  exact ⟨_, hstart, hrun, rfl, (accounted_iff 4 scoreJobs.node scoreCfg _ hstart hrun rfl).mpr
    (by decide +kernel)⟩

end LunaCore.Flow.ScratchpadIterations
