import LunaCore.Schemes.Machine
import LunaCore.Flow.NodeConfig
import LunaCore.Flow.Runner

/-! The abort key during one `_execute`, and the layers an `AbortSignalError` crosses.

    Three places look at the key: `_execute` at every update, a provider at every chunk of an
    agent's turn, and a scratchpad iteration before it starts.

        chunk ─ AbortSignalError ─→ iteration ─→ gather ─→ handler ─→ execute ─→ _execute
        start ─ "skipped_aborted" ─→ outcome      │                    │
                                    both modes let it through     wraps it as any
                                    (`continue` once all ended)   other exception

    The provider and `gather` are careful to pass the signal on unchanged; `NodeExecutor.execute`
    catches `Exception`, of which it is one. Nodes of one superstep run side by side here, and
    LangGraph may hand `_execute` their updates and exceptions in any order. A key that is set stays
    set. -/

namespace LunaCore.Flow.AbortSignal
open LunaCore.Values LunaCore.Schemes

/-! ### Exceptions -/

/-- What a node handler can raise. -/
inductive Exc where
  | checkpoint
  | abort
  | failure (f : Failure)
  deriving DecidableEq

/-- How a run ends. -/
inductive Outcome where
  | paused (node : String)
  | over (e : Ending)
  deriving DecidableEq

/-- `AbortSignalError`'s text and class. -/
def abortFailure (runId nodeId : String) : Failure :=
  ⟨"run " ++ runId ++ " aborted at node " ++ nodeId, "AbortSignalError"⟩

/-- What leaves `NodeExecutor.execute` when the handler raised. -/
def executeRaises (runId : String) (node : FlowNode) : Exc → Exc
  | .checkpoint => .checkpoint
  | .abort => .failure (nodeFailure node (abortFailure runId node.id))
  | .failure f => .failure (nodeFailure node f)

/-- The except clauses of `_execute`. -/
def outcome (node : FlowNode) : Exc → Outcome
  | .checkpoint => .paused node.id
  | .abort => .over .aborted
  | .failure f => .over (.failed f)

/-- `final_state["error"]`, where the ending sets it. -/
def Outcome.error : Outcome → Option String
  | .paused _ | .over .completed => none
  | .over .aborted => some "aborted"
  | .over (.failed f) => some f.error

/-- The payload of `flow_failed`, where the ending emits one. -/
def Outcome.flowFailed : Outcome → Option Dict
  | .paused _ | .over .completed => none
  | .over .aborted => some [("reason", .str "aborted")]
  | .over (.failed f) => some [("error", .str f.error), ("type", .str f.type)]

/-! ### Iterations -/

/-- Where the task of one record is. -/
inductive IterState where
  | waiting
  | running
  | processed
  | skippedMissing
  | skippedAborted
  | raised (e : Exc)
  deriving DecidableEq

/-- It returned an outcome. -/
def IterState.returned : IterState → Bool
  | .processed | .skippedMissing | .skippedAborted => true
  | _ => false

/-- It ended. -/
def IterState.done : IterState → Bool
  | .waiting | .running => false
  | _ => true

/-- It saw the abort key. -/
def IterState.sawAbort : IterState → Bool
  | .skippedAborted | .raised .abort => true
  | _ => false

/-- A node over the records of a scratchpad; `first` is what the first of them raised. -/
structure Iterations where
  execution : IterationExecution
  states : List IterState
  first : Option Exc
  deriving DecidableEq

/-- The next record may start: in order, or as soon as the semaphore lets it. -/
def Iterations.mayBegin (its : Iterations) (k : ℕ) : Bool :=
  match its.execution with
  | .sequential => (its.states.take k).all IterState.returned
  | .parallel _ concurrency => its.states.countP (· = .running) < concurrency

def Iterations.put (its : Iterations) (k : ℕ) (st : IterState) : Iterations :=
  { its with
    states := its.states.set k st
    first := match its.first, st with
      | none, .raised e => some e
      | first, _ => first }

/-- The text of `cancel_siblings`'s own failure. -/
def siblingsFailure (node : FlowNode) (f : Failure) : Failure :=
  ⟨"ai_agent node " ++ node.id ++ ": iteration failed in cancel_siblings mode (" ++ f.type ++ ": " ++
    f.error ++ ")", "NodeExecutionError"⟩

/-- What the walk over the records gives, once it gives anything: what it raises, or that it
    returns its outcomes. -/
def Iterations.result (node : FlowNode) (its : Iterations) : Option (Option Exc) :=
  match its.execution with
  | .sequential =>
    match its.first with
    | some e => some (some e)
    | none => if its.states.all IterState.done then some none else none
  | .parallel .cancelSiblings _ =>
    match its.first with
    | some (.failure f) => some (some (.failure (siblingsFailure node f)))
    | some e => some (some e)
    | none => if its.states.all IterState.done then some none else none
  | .parallel .goOn _ =>
    if its.states.all IterState.done then
      if .raised .abort ∈ its.states then some (some .abort) else some none
    else none

/-! ### Nodes -/

/-- What a node in flight is at: a handler that streams nothing, an agent's turns, or iterations. -/
inductive Work where
  | handler
  | turn
  | iterations (its : Iterations)
  deriving DecidableEq

def Work.sawAbort : Work → Bool
  | .iterations its => its.states.any IterState.sawAbort
  | _ => false

/-- A handler that can fail as a whole: iterations can before they start. -/
def Work.mayFail : Work → Bool
  | .iterations its => its.states.all (· = .waiting)
  | _ => true

/-- What a node begins with; a scratchpad of `count` records. -/
def workOf (ceiling : ℕ) (node : FlowNode) (count : ℕ) : Work :=
  if node.type = .aiAgent then
    match iterationCfg node with
    | some cfg =>
      if resolveIterationSource (cfg.get "source") = .scratchpad then
        .iterations ⟨resolveIterationExecution ceiling cfg, List.replicate count .waiting, none⟩
      else .turn
    | none => .turn
  else .handler

/-- A node that started; `raised` is what its handler raised and what left `execute` then. -/
structure NodeRun where
  node : FlowNode
  work : Work
  raised : Option (Exc × Exc)
  deriving DecidableEq

/-! ### The run -/

/-- `completions` and `observed` are ghosts: how many nodes and iterations completed, and whether
    anyone saw the key set. -/
structure State where
  key : Bool
  inflight : List NodeRun
  yielded : List String
  completions : ℕ
  observed : Bool
  ended : Option Outcome
  deriving DecidableEq

/-- `i` is a place in flight, `k` a record of its scratchpad. -/
inductive Action where
  | setKey
  | start (id : String) (count : ℕ)
  | chunk (i : ℕ)
  | complete (i : ℕ)
  | fail (i : ℕ) (f : Failure)
  | checkpoint (i : ℕ)
  | begin (i k : ℕ) (found : Bool)
  | chunkOf (i k : ℕ)
  | finishOf (i k : ℕ)
  | failOf (i k : ℕ) (f : Failure)
  | gather (i : ℕ)
  | consume
  | surface (i : ℕ)
  | endStream

/-- The node's handler raises. -/
def State.raise (s : State) (runId : String) (i : ℕ) (nr : NodeRun) (e : Exc) : State :=
  { s with
    inflight := s.inflight.set i { nr with raised := some (e, executeRaises runId nr.node e) } }

/-- The node completes: its update is on its way to `_execute`. -/
def State.complete (s : State) (i : ℕ) (nr : NodeRun) : State :=
  { s with
    inflight := s.inflight.eraseIdx i
    yielded := s.yielded ++ [nr.node.id]
    completions := s.completions + 1 }

/-- A record's task gets to a state. -/
def State.put (s : State) (i : ℕ) (nr : NodeRun) (its : Iterations) (k : ℕ) (st : IterState) :
    State :=
  { s with
    inflight := s.inflight.set i { nr with work := .iterations (its.put k st) }
    observed := s.observed || st.sawAbort }

/-- One step of a node in flight whose handler has not raised. -/
def nodeStep (runId : String) (s : State) (i : ℕ) (nr : NodeRun) : Action → Option State
  | .chunk _ =>
    if nr.work = .turn then
      if s.key then some { s.raise runId i nr .abort with observed := true } else some s
    else none
  | .complete _ =>
    if (nr.work = .handler ∨ nr.work = .turn) ∧ nr.node.type ≠ .humanCheckpoint then
      some (s.complete i nr)
    else none
  | .fail _ f => if nr.work.mayFail then some (s.raise runId i nr (.failure f)) else none
  | .checkpoint _ =>
    if nr.node.type = .humanCheckpoint then some (s.raise runId i nr .checkpoint) else none
  | .gather _ =>
    match nr.work with
    | .iterations its =>
      match its.result nr.node with
      | some (some e) => some (s.raise runId i nr e)
      | some none => some (s.complete i nr)
      | none => none
    | _ => none
  | _ => none

/-- One step of a record's task. -/
def iterStep (s : State) (i : ℕ) (nr : NodeRun) (its : Iterations) (k : ℕ) (st : IterState) :
    Action → Option State
  | .begin _ _ found =>
    if st = .waiting ∧ its.mayBegin k then
      some (s.put i nr its k
        (if s.key then .skippedAborted else if found then .running else .skippedMissing))
    else none
  | .chunkOf _ _ =>
    if st = .running then
      if s.key then some (s.put i nr its k (.raised .abort)) else some s
    else none
  | .finishOf _ _ =>
    if st = .running then
      some { s.put i nr its k .processed with completions := s.completions + 1 }
    else none
  | .failOf _ _ f => if st = .running then some (s.put i nr its k (.raised (.failure f))) else none
  | _ => none

/-- The node at a place in flight, while its handler runs. -/
def State.active (s : State) (i : ℕ) : Option NodeRun :=
  s.inflight[i]?.filter fun nr => nr.raised.isNone

/-- The step of a record's task, at its place. -/
def recordStep (s : State) (i k : ℕ) (a : Action) : Option State :=
  (s.active i).bind fun nr => match nr.work with
    | .iterations its => (its.states[k]?).bind fun st => iterStep s i nr its k st a
    | _ => none

def step (d : FlowDefinition) (ceiling : ℕ) (runId : String) (s : State) (a : Action) :
    Option State :=
  if s.ended.isSome then none else
    match a with
    | .setKey => some { s with key := true }
    | .start id count => (d.nodeById id).map fun node =>
        { s with inflight := s.inflight ++ [⟨node, workOf ceiling node count, none⟩] }
    | .chunk i | .complete i | .fail i _ | .checkpoint i | .gather i =>
      (s.active i).bind fun nr => nodeStep runId s i nr a
    | .begin i k _ | .chunkOf i k | .finishOf i k | .failOf i k _ => recordStep s i k a
    | .consume =>
      match s.yielded with
      | [] => none
      | _ :: rest =>
        if s.key then some { s with observed := true, ended := some (.over .aborted) }
        else some { s with yielded := rest }
    | .surface i =>
      s.inflight[i]?.bind fun nr =>
        nr.raised.map fun r => { s with ended := some (outcome nr.node r.2) }
    | .endStream =>
      if s.inflight = [] ∧ s.yielded = [] then some { s with ended := some (.over .completed) }
      else none

/-- `_execute` at its stream. -/
def State.start : State := ⟨false, [], [], 0, false, none⟩

/-! ### What an abort is to do -/

/-- Some iteration of a node in flight saw the key. -/
def observing (inflight : List NodeRun) : Bool := inflight.any fun nr => nr.work.sawAbort

/-- A signal leaves `execute` as what it is; a run that ends with the key set ends as aborted,
    unless all its nodes were over before; and once the key was seen nothing completes. -/
structure Aborts (s : State) (a : Action) (t : State) : Prop where
  through : ∀ nr ∈ t.inflight, ∀ e, nr.raised = some (.abort, e) → e = .abort
  ends : s.key = true → a ≠ .endStream → ∀ o, t.ended = some o →
    o.error = some "aborted" ∧ o.flowFailed = some [("reason", .str "aborted")]
  stops : t.completions ≠ s.completions → s.observed = false

/-- Nobody but `_execute` comes upon the key: with it set, no agent's turn outside of a scratchpad
    streams another chunk and no exception reaches `_execute`; iterations that saw it neither end
    their node nor let anything complete. -/
def Unseen (s : State) : Action → Prop
  | .chunk _ | .surface _ => s.key = false
  | .complete _ | .finishOf _ _ => observing s.inflight = false
  | .gather i => ∀ nr, s.inflight[i]? = some nr → ∀ its, nr.work = .iterations its →
      its.result nr.node ≠ some (some .abort) ∧
        (its.result nr.node = some none → observing s.inflight = false)
  | _ => True

/-! ### Lists in flight -/

theorem any_set {α : Type} {p : α → Bool} {x y : α} {l : List α} {i : ℕ} (hx : l[i]? = some x)
    (hp : p x = true → p y = true) : (l.set i y).any p = (l.any p || p y) := by
  induction l generalizing i with
  | nil => simp at hx
  | cons z l ih =>
    cases i with
    | zero =>
      obtain rfl : z = x := by simpa using hx
      rw [List.set_cons_zero, List.any_cons, List.any_cons]
      cases hz : p z with
      | true => rw [hp hz]; simp
      | false => simp [Bool.or_comm]
    | succ i =>
      have hrest := ih (i := i) (by simpa using hx)
      rw [List.set_cons_succ, List.any_cons, List.any_cons, hrest, Bool.or_assoc]

theorem any_of_getElem? {α : Type} {p : α → Bool} {l : List α} {i : ℕ} {x : α}
    (hx : l[i]? = some x) (hp : p x = true) : l.any p = true :=
  List.any_eq_true.mpr ⟨x, List.mem_of_getElem? hx, hp⟩

/-- Replacing a node by one that saw no more than `b` adds. -/
theorem observing_set {inflight : List NodeRun} {i : ℕ} {nr : NodeRun} (nr' : NodeRun) {b : Bool}
    (hnr : inflight[i]? = some nr) (hsaw : nr'.work.sawAbort = (nr.work.sawAbort || b)) :
    observing (inflight.set i nr') = (observing inflight || b) := by
  rw [observing, any_set hnr (by intro h; rw [hsaw, h]; rfl), hsaw]
  cases hold : nr.work.sawAbort with
  | false => rfl
  | true =>
    have hany : inflight.any (fun nr => nr.work.sawAbort) = true := any_of_getElem? hnr hold
    rw [observing, hany]
    rfl

theorem observing_erase {inflight : List NodeRun} (h : observing inflight = false) (i : ℕ) :
    observing (inflight.eraseIdx i) = false := by
  rw [observing, List.any_eq_false] at h ⊢
  exact fun nr hnr => h nr (List.mem_of_mem_eraseIdx hnr)

/-- A record's task that saw nothing moves on: its node saw what it saw. -/
theorem sawAbort_put {its : Iterations} {k : ℕ} {old st : IterState}
    (hold : its.states[k]? = some old) (hnot : old.sawAbort = false) :
    (Work.iterations (its.put k st)).sawAbort =
      ((Work.iterations its).sawAbort || st.sawAbort) :=
  any_set hold (by rw [hnot]; exact nofun)

/-! ### The invariant -/

section
variable (runId : String)

/-- No signal left a handler, and every exception is what `execute` makes of it. -/
def Passed (inflight : List NodeRun) : Prop :=
  ∀ nr ∈ inflight, ∀ c e, nr.raised = some (c, e) → c ≠ .abort ∧ e = executeRaises runId nr.node c

/-- The invariant: who saw the key is an iteration of a node in flight. -/
structure Quiet (s : State) : Prop where
  passed : Passed runId s.inflight
  seen : s.observed = observing s.inflight

def Inv (s : State) : Prop := s.ended = none → Quiet runId s

theorem inv_start : Inv runId State.start :=
  fun _ => ⟨fun _ hmem => absurd hmem List.not_mem_nil, rfl⟩

variable {runId}

theorem Passed.set {inflight : List NodeRun} (h : Passed runId inflight) (i : ℕ) {nr : NodeRun}
    (hnr : ∀ c e, nr.raised = some (c, e) → c ≠ .abort ∧ e = executeRaises runId nr.node c) :
    Passed runId (inflight.set i nr) := by
  intro nr' hmem
  rcases List.mem_or_eq_of_mem_set hmem with hold | rfl
  · exact h nr' hold
  · exact hnr

theorem Passed.erase {inflight : List NodeRun} (h : Passed runId inflight) (i : ℕ) :
    Passed runId (inflight.eraseIdx i) := fun nr hnr => h nr (List.mem_of_mem_eraseIdx hnr)

/-- A step that neither ends the run nor completes anything is no matter. -/
theorem aborts_of_passed {s t : State} {a : Action} (hpassed : Passed runId t.inflight)
    (hended : t.ended = none) (hstops : t.completions ≠ s.completions → s.observed = false) :
    Aborts s a t := by
  refine ⟨fun nr hnr e hraised => ?_, fun _ _ o ho => ?_, hstops⟩
  · exact absurd rfl (hpassed nr hnr .abort e hraised).1
  · rw [hended] at ho
    cases ho

theorem active_cases {s : State} {i : ℕ} {nr : NodeRun} (h : s.active i = some nr) :
    s.inflight[i]? = some nr ∧ nr.raised = none := by
  obtain ⟨hnr, hraised⟩ := Option.filter_eq_some_iff.mp h
  exact ⟨hnr, Option.isNone_iff_eq_none.mp hraised⟩

/-- A handler that raises no signal. -/
theorem Quiet.raise {s : State} (hs : Quiet runId s) {i : ℕ} {nr : NodeRun} {e : Exc}
    (hnr : s.inflight[i]? = some nr) (he : e ≠ .abort) : Quiet runId (s.raise runId i nr e) := by
  refine ⟨hs.passed.set i ?_, ?_⟩
  · intro c e' hraised
    obtain ⟨rfl, rfl⟩ := Prod.mk.inj (Option.some.inj hraised)
    exact ⟨he, rfl⟩
  · have hobs := observing_set { nr with raised := some (e, executeRaises runId nr.node e) }
      (b := false) hnr (by simp)
    rw [Bool.or_false] at hobs
    exact hs.seen.trans hobs.symm

/-- A handler that raises the signal does not get it through. -/
theorem not_aborts_of_raise {s t : State} {a : Action} {i : ℕ} {nr : NodeRun}
    (hnr : s.inflight[i]? = some nr)
    (ht : t.inflight = (s.raise runId i nr .abort).inflight) : ¬ Aborts s a t := by
  intro h
  have hi : i < s.inflight.length := (List.getElem?_eq_some_iff.mp hnr).1
  have hmem : { nr with raised := some (.abort, executeRaises runId nr.node .abort) } ∈ t.inflight := by
    rw [ht]
    exact List.mem_set hi _
  cases h.through _ hmem _ rfl

theorem Quiet.complete {s : State} (hs : Quiet runId s) {i : ℕ} {nr : NodeRun}
    (hobs : observing s.inflight = false) : Quiet runId (s.complete i nr) :=
  ⟨hs.passed.erase i, (hs.seen.trans hobs).trans (observing_erase hobs i).symm⟩

/-- A record's task moves on. -/
theorem Quiet.put {s : State} (hs : Quiet runId s) {i k : ℕ} {nr : NodeRun} {its : Iterations}
    {old st : IterState} (hnr : s.active i = some nr) (hwork : nr.work = .iterations its)
    (hold : its.states[k]? = some old) (hnot : old.sawAbort = false) :
    Quiet runId (s.put i nr its k st) := by
  obtain ⟨hget, hnone⟩ := active_cases hnr
  refine ⟨hs.passed.set i ?_, ?_⟩
  · intro c e hraised
    rw [hnone] at hraised
    cases hraised
  · have hobs := observing_set { nr with work := .iterations (its.put k st) } hget
      (by rw [hwork]; exact sawAbort_put hold hnot)
    rw [State.put, hs.seen]
    exact hobs.symm

/-! ### Steps -/

/-- What a step is to show: under the condition it keeps the invariant, and it treats an abort as
    it should just then. -/
def Exact (runId : String) (s : State) (a : Action) (t : State) : Prop :=
  (Unseen s a → Inv runId t) ∧ (Aborts s a t ↔ Unseen s a)

/-- A step in a run that goes on, with the invariant kept and nothing completed. -/
theorem exact_of_quiet {s t : State} {a : Action} (hu : Unseen s a) (ht : Quiet runId t)
    (hended : t.ended = none) (hsame : t.completions = s.completions) : Exact runId s a t :=
  ⟨fun _ _ => ht, fun _ => hu,
    fun _ => aborts_of_passed ht.passed hended fun hne => absurd hsame hne⟩

/-- A step that completes something: it may while nobody in flight has seen the key. -/
theorem exact_of_completion {s t : State} {a : Action} (hs : Quiet runId s)
    (hu : Unseen s a ↔ observing s.inflight = false)
    (ht : observing s.inflight = false → Quiet runId t) (hpassed : Passed runId t.inflight)
    (hended : t.ended = none) (hmore : t.completions = s.completions + 1) : Exact runId s a t := by
  refine ⟨fun h _ => ht (hu.mp h), ?_⟩
  rw [hu]
  constructor
  · intro h
    exact hs.seen.symm.trans (h.stops (by omega))
  · intro h
    exact aborts_of_passed hpassed hended fun _ => hs.seen.trans h

/-- A handler that raises the signal is no good, and the condition rules it out. -/
theorem exact_of_signal {s t : State} {a : Action} {i : ℕ} {nr : NodeRun}
    (hnr : s.inflight[i]? = some nr) (ht : t.inflight = (s.raise runId i nr .abort).inflight)
    (hnot : ¬ Unseen s a) : Exact runId s a t :=
  ⟨fun hu => absurd hu hnot, fun hab => absurd hab (not_aborts_of_raise hnr ht),
    fun hu => absurd hu hnot⟩

/-- A step that ends the run and leaves what is in flight alone. -/
theorem exact_of_end {s t : State} {a : Action} {o : Outcome} (hs : Quiet runId s)
    (hinflight : t.inflight = s.inflight) (hsame : t.completions = s.completions)
    (hended : t.ended = some o)
    (hends : (s.key = true → a ≠ .endStream →
      o.error = some "aborted" ∧ o.flowFailed = some [("reason", .str "aborted")]) ↔ Unseen s a) :
    Exact runId s a t := by
  constructor
  · intro _ hnone
    rw [hended] at hnone
    cases hnone
  · constructor
    · exact fun hab => hends.mp fun hkey hne => hab.ends hkey hne o hended
    · intro hu
      refine ⟨fun nr hnr e hraised => ?_, fun hkey hne o' ho' => ?_, fun hne => absurd hsame hne⟩
      · rw [hinflight] at hnr
        exact absurd rfl (hs.passed nr hnr .abort e hraised).1
      · obtain rfl := Option.some.inj (hended.symm.trans ho')
        exact hends.mpr hu hkey hne

theorem node_exact {s t : State} {i : ℕ} {nr : NodeRun} {a : Action} (hs : Quiet runId s)
    (hended : s.ended = none) (hnr : s.active i = some nr)
    (ha : a = .chunk i ∨ a = .complete i ∨ (∃ f, a = .fail i f) ∨ a = .checkpoint i ∨ a = .gather i)
    (h : nodeStep runId s i nr a = some t) : Exact runId s a t := by
  have hget := (active_cases hnr).1
  rcases ha with rfl | rfl | ⟨f, rfl⟩ | rfl | rfl
  · -- a chunk: with the key set the turn raises the signal
    simp only [nodeStep] at h
    split at h
    case isFalse => cases h
    case isTrue =>
      split at h
      case isTrue hkey =>
        obtain rfl := Option.some.inj h
        exact exact_of_signal hget rfl (by simp [Unseen, hkey])
      case isFalse hkey =>
        obtain rfl := Option.some.inj h
        exact exact_of_quiet (by simpa [Unseen] using hkey) hs hended rfl
  · simp only [nodeStep] at h
    split at h
    case isFalse => cases h
    case isTrue =>
      obtain rfl := Option.some.inj h
      exact exact_of_completion hs Iff.rfl hs.complete (hs.passed.erase i) hended rfl
  · simp only [nodeStep] at h
    split at h
    case isFalse => cases h
    case isTrue =>
      obtain rfl := Option.some.inj h
      exact exact_of_quiet trivial (hs.raise hget (by simp)) hended rfl
  · simp only [nodeStep] at h
    split at h
    case isFalse => cases h
    case isTrue =>
      obtain rfl := Option.some.inj h
      exact exact_of_quiet trivial (hs.raise hget (by simp)) hended rfl
  · -- the iterations are over: they raise, the signal or another exception, or return
    simp only [nodeStep] at h
    split at h
    case h_2 => cases h
    case h_1 its hwork =>
      have hu (hresult : its.result nr.node ≠ some (some .abort))
          (hobs : its.result nr.node = some none → observing s.inflight = false) :
          Unseen s (.gather i) := by
        intro nr' hnr' its' hwork'
        obtain rfl : nr = nr' := Option.some.inj (hget.symm.trans hnr')
        obtain rfl : its = its' := Work.iterations.inj (hwork.symm.trans hwork')
        exact ⟨hresult, hobs⟩
      split at h
      case h_3 => cases h
      case h_1 e hresult =>
        obtain rfl := Option.some.inj h
        by_cases he : e = .abort
        · subst he
          exact exact_of_signal hget rfl fun hun => (hun nr hget its hwork).1 hresult
        · have hne : its.result nr.node ≠ some (some .abort) := by
            rw [hresult]
            simpa using he
          exact exact_of_quiet (hu hne (by rw [hresult]; exact nofun)) (hs.raise hget he) hended rfl
      case h_2 hresult =>
        obtain rfl := Option.some.inj h
        refine exact_of_completion hs ⟨fun hun => (hun nr hget its hwork).2 hresult, fun hobs => ?_⟩
          hs.complete (hs.passed.erase i) hended rfl
        exact hu (by rw [hresult]; exact nofun) fun _ => hobs

theorem iter_exact {s t : State} {i k : ℕ} {nr : NodeRun} {its : Iterations} {st : IterState}
    {a : Action} (hs : Quiet runId s) (hended : s.ended = none) (hnr : s.active i = some nr)
    (hwork : nr.work = .iterations its) (hst : its.states[k]? = some st)
    (ha : (∃ found, a = .begin i k found) ∨ a = .chunkOf i k ∨ a = .finishOf i k ∨
      ∃ f, a = .failOf i k f)
    (h : iterStep s i nr its k st a = some t) : Exact runId s a t := by
  rcases ha with ⟨found, rfl⟩ | rfl | rfl | ⟨f, rfl⟩
  · simp only [iterStep] at h
    split at h
    case isFalse => cases h
    case isTrue hcond =>
      obtain rfl := Option.some.inj h
      have hnot : st.sawAbort = false := by rw [hcond.1]; rfl
      exact exact_of_quiet trivial (hs.put hnr hwork hst hnot) hended rfl
  · simp only [iterStep] at h
    split at h
    case isFalse => cases h
    case isTrue hrunning =>
      have hnot : st.sawAbort = false := by rw [hrunning]; rfl
      split at h
      case isTrue =>
        obtain rfl := Option.some.inj h
        exact exact_of_quiet trivial (hs.put hnr hwork hst hnot) hended rfl
      case isFalse =>
        obtain rfl := Option.some.inj h
        exact exact_of_quiet trivial hs hended rfl
  · simp only [iterStep] at h
    split at h
    case isFalse => cases h
    case isTrue hrunning =>
      obtain rfl := Option.some.inj h
      have hnot : st.sawAbort = false := by rw [hrunning]; rfl
      have hput : Quiet runId (s.put i nr its k .processed) := hs.put hnr hwork hst hnot
      exact exact_of_completion hs Iff.rfl (fun _ => ⟨hput.passed, hput.seen⟩) hput.passed hended rfl
  · simp only [iterStep] at h
    split at h
    case isFalse => cases h
    case isTrue hrunning =>
      obtain rfl := Option.some.inj h
      have hnot : st.sawAbort = false := by rw [hrunning]; rfl
      exact exact_of_quiet trivial (hs.put hnr hwork hst hnot) hended rfl

variable {d : FlowDefinition} {ceiling : ℕ}

/-- A node that starts has seen no abort. -/
theorem sawAbort_workOf (node : FlowNode) (count : ℕ) :
    (workOf ceiling node count).sawAbort = false := by
  rw [workOf]
  split
  case isFalse => rfl
  case isTrue =>
    split
    · split
      · simp [Work.sawAbort, IterState.sawAbort]
      · rfl
    · rfl

theorem step_exact {s : State} {a : Action} {t : State} (hinv : Inv runId s)
    (h : step d ceiling runId s a = some t) : Exact runId s a t := by
  unfold step at h
  split at h
  case isTrue => cases h
  case isFalse hlive =>
    have hended : s.ended = none := by simpa using hlive
    have hs := hinv hended
    have hnode {i : ℕ} (hstep : ((s.active i).bind fun nr => nodeStep runId s i nr a) = some t)
        (ha : a = .chunk i ∨ a = .complete i ∨ (∃ f, a = .fail i f) ∨ a = .checkpoint i ∨
          a = .gather i) : Exact runId s a t := by
      obtain ⟨nr, hnr, hstep⟩ := Option.bind_eq_some_iff.mp hstep
      exact node_exact hs hended hnr ha hstep
    have hrecord {i k : ℕ} (hstep : recordStep s i k a = some t)
        (ha : (∃ found, a = .begin i k found) ∨ a = .chunkOf i k ∨ a = .finishOf i k ∨
          ∃ f, a = .failOf i k f) : Exact runId s a t := by
      obtain ⟨nr, hnr, hstep⟩ := Option.bind_eq_some_iff.mp hstep
      split at hstep
      case h_2 => cases hstep
      case h_1 its hwork =>
        obtain ⟨st, hst, hstep⟩ := Option.bind_eq_some_iff.mp hstep
        exact iter_exact hs hended hnr hwork hst ha hstep
    cases a with
    | setKey =>
      obtain rfl := Option.some.inj h
      exact exact_of_quiet trivial ⟨hs.passed, hs.seen⟩ hended rfl
    | start id count =>
      obtain ⟨node, _, rfl⟩ := Option.map_eq_some_iff.mp h
      refine exact_of_quiet trivial ⟨?_, ?_⟩ hended rfl
      · intro nr hnr
        rcases List.mem_append.mp hnr with hold | hnew
        · exact hs.passed nr hold
        · obtain rfl := List.mem_singleton.mp hnew
          exact nofun
      · rw [hs.seen]
        simp [observing, sawAbort_workOf]
    | chunk i => exact hnode h (.inl rfl)
    | complete i => exact hnode h (.inr (.inl rfl))
    | fail i f => exact hnode h (.inr (.inr (.inl ⟨f, rfl⟩)))
    | checkpoint i => exact hnode h (.inr (.inr (.inr (.inl rfl))))
    | gather i => exact hnode h (.inr (.inr (.inr (.inr rfl))))
    | begin i k found => exact hrecord h (.inl ⟨found, rfl⟩)
    | chunkOf i k => exact hrecord h (.inr (.inl rfl))
    | finishOf i k => exact hrecord h (.inr (.inr (.inl rfl)))
    | failOf i k f => exact hrecord h (.inr (.inr (.inr ⟨f, rfl⟩)))
    | consume =>
      simp only at h
      split at h
      · cases h
      · split at h
        case isTrue hkey =>
          obtain rfl := Option.some.inj h
          exact exact_of_end hs rfl rfl rfl ⟨fun _ => trivial, fun _ _ _ => ⟨rfl, rfl⟩⟩
        case isFalse =>
          obtain rfl := Option.some.inj h
          exact exact_of_quiet trivial ⟨hs.passed, hs.seen⟩ hended rfl
    | surface i =>
      obtain ⟨nr, hnr, h⟩ := Option.bind_eq_some_iff.mp h
      obtain ⟨⟨c, e⟩, hraised, rfl⟩ := Option.map_eq_some_iff.mp h
      obtain ⟨hc, he⟩ := hs.passed nr (List.mem_of_getElem? hnr) c e hraised
      refine exact_of_end hs rfl rfl rfl ⟨fun hall => ?_, fun hkey hset => ?_⟩
      · by_contra hkey
        have hends := (hall (by simpa [Unseen] using hkey) (by simp)).2
        -- `execute` let no signal through, so this ending is no abort's
        cases c with
        | checkpoint =>
          subst he
          cases hends
        | abort => exact hc rfl
        | failure f =>
          subst he
          simp [executeRaises, outcome, Outcome.flowFailed] at hends
      · rw [show s.key = false from hkey] at hset
        cases hset
    | endStream =>
      simp only at h
      split at h
      case isFalse => cases h
      case isTrue =>
        obtain rfl := Option.some.inj h
        exact exact_of_end hs rfl rfl rfl ⟨fun _ => trivial, fun _ _ hne => absurd rfl hne⟩

/-- RUN: an abort is treated as one at every point of a run, just when nobody but `_execute` comes
    upon it. -/
theorem aborts_run_iff (d : FlowDefinition) (ceiling : ℕ) (runId : String) (as : List Action) :
    EveryStep (step d ceiling runId) Aborts State.start as ↔
      Guarded (step d ceiling runId) Unseen State.start as :=
  everyStep_iff_guarded (fun _ _ _ hs hu h => (step_exact hs h).1 hu)
    (fun _ _ _ hs h => (step_exact hs h).2) (inv_start runId)

end

/-- One agent's turn. -/
def draftFlow : FlowDefinition :=
  ⟨"draft", [⟨"draft", .aiAgent, "Draft", [("agent_id", .str "a1")]⟩], []⟩

/-- The run of `draftFlow` aborted in the middle of the turn: it ends as a failure of the node. -/
theorem abort_taken_for_failure : ¬ ∀ (d : FlowDefinition) (ceiling : ℕ) (runId : String)
    (as : List Action), EveryStep (step d ceiling runId) Aborts State.start as := by
  intro hall
  have hrun := hall draftFlow 8 "r1"
    ([.start "draft" 0, .setKey, .chunk 0] ++ .surface 0 :: [])
  have hend : Aborts _ _ _ := EveryStep.at hrun rfl rfl
  exact absurd (hend.ends rfl (by simp) _ rfl).2 (by decide)

end LunaCore.Flow.AbortSignal
