import LunaCore.Flow.AgentContext
import LunaCore.Schemes.Loop

/-! The agent-driven loop: what its turns hand back, and what it returns for them.

    A turn's agent run ends in a value: the arguments of `yield_iteration` where the agent called
    it, else whatever it answered, or that it waits for an approval. Which of them the loop is to
    accept is said apart from how it reads them, in `Accepts`.

        turn ──▶ object with done and next_carry? ──no──▶ not accepted ─┐
                 │ yes                                                  │ on_no_yield
                 next_carry or {} an object? ────────no──▶ not accepted ┼──▶ error: the node fails
                 │ yes                                                  │    else: leave, no_yield
                 every field of the schema in it? ───no──▶ not accepted ┘
                 │ yes
                 extend the items, carry on with next_carry ──▶ done? ──yes──▶ leave, done_signal
                                                                │ no
                                                                ▼
                                                              next turn, up to max_iterations -/

namespace LunaCore.Flow.AgentYield
open LunaCore.Flow.AgentContext LunaCore.Schemes LunaCore.Values

/-- What `AgentRunner.run` returns. -/
inductive AgentResult where
  | value (v : Json)
  | suspended

/-- How one turn's agent run ends: a terminal tool was called with this input, the agent answered,
    it waits for an approval, or something was raised. -/
inductive AgentRun where
  | terminal (toolInput : Json)
  | finalized (output : Json)
  | suspended
  | raised (error : String)

/-- What the loop of `AgentRunner._run` ends with; the input of the terminal tool is taken where it
    is a dict. -/
def AgentRun.result : AgentRun → Except String AgentResult
  | .terminal (.obj args) => .ok (.value (.obj args))
  | .terminal _ => .ok (.value (.obj []))
  | .finalized output => .ok (.value output)
  | .suspended => .ok .suspended
  | .raised error => .error error

/-- A yield the loop accepts. -/
structure Yielded where
  nextCarry : Dict
  append : List Json
  done : Bool

/-- Why it does not accept what a turn ended in. -/
inductive YieldProblem where
  | notCalled
  | nonObject
  | missing (fields : List String)

inductive ExitReason where
  | maxIterations
  | doneSignal
  | noYield
  deriving DecidableEq

/-- The names a carry schema declares. -/
def fieldNames (schema : List Json) : List String :=
  schema.filterMap fun field => match field with
    | .obj entries => match Dict.get entries "name" with
      | some (.str name) => some name
      | _ => none
    | _ => none

/-- What a turn yielded; an `append` that is no list adds nothing. -/
def readYield (names : List String) : AgentResult → Except YieldProblem Yielded
  | .value (.obj args) =>
    if (Dict.get args "done").isSome ∧ (Dict.get args "next_carry").isSome then
      match getOr args "next_carry" (.obj []) with
      | .obj nextCarry =>
        let missing := names.filter fun name => (Dict.get nextCarry name).isNone
        if missing = [] then
          .ok { nextCarry, done := given args "done"
                append := match getOr args "append" (.arr []) with
                  | .arr items => items
                  | _ => [] }
        else .error (.missing missing)
      | _ => .error .nonObject
    else .error .notCalled
  | _ => .error .notCalled

section
variable (repr : Json → String) (nodeId : String)

/-- What the node fails with where `on_no_yield` is `error`. -/
def YieldProblem.text (index : ℕ) : YieldProblem → String
  | .notCalled => "ai_agent node " ++ nodeId ++ ": agent finished iteration " ++ toString index ++
      " without calling yield_iteration"
  | .nonObject => "ai_agent node " ++ nodeId ++
      ": yield_iteration returned non-object next_carry at iteration " ++ toString index
  | .missing fields => "ai_agent node " ++ nodeId ++ ": yield_iteration next_carry missing fields " ++
      repr (.arr (fields.map Json.str)) ++ " at iteration " ++ toString index

section
variable {Obj : Type}

/-- What the node puts out. -/
structure YieldResult (Obj : Type) where
  items : List Json
  carryFinal : List (String × Value Obj)
  iterations : ℕ
  exitReason : ExitReason

/-- How the loop ended and, as a ghost, how many agents were run. -/
structure Ended (Obj : Type) where
  outcome : Except String (YieldResult Obj)
  runs : ℕ

/-- The loop's variables and, as a ghost, how many agents were run. -/
structure LoopState (Obj : Type) where
  accumulator : List Json
  carry : List (String × Value Obj)
  iterationIndex : ℕ
  runs : ℕ

/-- The values of a JSON object. -/
def jsonFields (d : Dict) : List (String × Value Obj) := d.map fun entry => (entry.1, .json entry.2)

/-- The loop is over: a last turn that was not accepted is not counted. -/
def finish (reason : ExitReason) (s : LoopState Obj) : Ended Obj where
  outcome := .ok {
    items := s.accumulator, carryFinal := s.carry, exitReason := reason
    iterations := if reason = .noYield then s.iterationIndex else s.iterationIndex + 1 }
  runs := s.runs

/-- One turn of the loop. -/
def turn (names : List String) (onNoYield : OnNoYield) (turns : ℕ → AgentRun) (s : LoopState Obj)
    (index : ℕ) : Pass (LoopState Obj) (Ended Obj) :=
  let s := { s with iterationIndex := index, runs := s.runs + 1 }
  match (turns index).result with
  | .error error => .leave { outcome := .error error, runs := s.runs }
  | .ok result => match readYield names result with
    | .error problem =>
      if onNoYield = .error then
        .leave { outcome := .error (problem.text repr nodeId index), runs := s.runs }
      else .leave (finish .noYield s)
    | .ok y =>
      let s := { s with accumulator := s.accumulator ++ y.append, carry := jsonFields y.nextCarry }
      if y.done then .leave (finish .doneSignal s) else .next s

/-- The initial carry, where every override of it was resolved. -/
def resolvedCarry (carry : List (String × Option (Value Obj))) :
    Option (List (String × Value Obj)) :=
  carry.mapM fun entry => entry.2.map fun value => (entry.1, value)

variable (attr : Value Obj → String → Value Obj)

/-- `_iterate_with_agent_yield`, for what its turns' agent runs end in. -/
def iterateWithAgentYield (rounds : ℕ) (state cfg : Dict) (turns : ℕ → AgentRun) :
    Option (Ended Obj) :=
  match validateCarrySchema repr nodeId (getOr cfg "carry_schema" (.arr [])) with
  | .error error => some { outcome := .error error, runs := 0 }
  | .ok schema => (resolvedCarry (initialCarry attr rounds state cfg)).map fun carry =>
    forEach (turn repr nodeId (fieldNames schema) (resolveOnNoYield (cfg.get "on_no_yield")) turns)
      (finish .maxIterations) (List.range (resolveMaxIterations (cfg.get "max_iterations")))
      { accumulator := [], carry, iterationIndex := 0, runs := 0 }

end
end

/-! ### The account of a loop -/

/-- SPEC: an object is a yield to a carry schema: it says whether it is done, its `next_carry` is an
    object, or falsy for an empty one, with every field of the schema, and it appends the list it
    has for that. -/
structure YieldedBy (schema : List Json) (args : Dict) (y : Yielded) : Prop where
  done : ∃ value, args.get "done" = some value ∧ y.done = truthy value
  carry : ∃ value, args.get "next_carry" = some value ∧
    (value = .obj y.nextCarry ∨ truthy value = false ∧ y.nextCarry = [])
  fields : ∀ field name, .obj field ∈ schema → Dict.get field "name" = some (.str name) →
    ∃ value, y.nextCarry.get name = some value
  append : args.get "append" = some (.arr y.append) ∨
    (∀ items, args.get "append" ≠ some (.arr items)) ∧ y.append = []

/-- SPEC: a run is accepted: it ended in an object that is a yield. -/
def Accepts (schema : List Json) (run : AgentRun) (y : Yielded) : Prop :=
  ∃ args, (run = .terminal (.obj args) ∨ run = .finalized (.obj args)) ∧ YieldedBy schema args y

section
variable {Obj : Type} (schema : List Json) (initial : List (String × Value Obj))
  (turns : ℕ → AgentRun)

/-- SPEC: the yields accepted among the first turns, in order. -/
inductive AcceptedIn : ℕ → List Yielded → Prop
  | start : AcceptedIn 0 []
  | accepted {runs : ℕ} {yields : List Yielded} {y : Yielded} : AcceptedIn runs yields →
      Accepts schema (turns runs) y → AcceptedIn (runs + 1) (yields ++ [y])
  | other {runs : ℕ} {yields : List Yielded} : AcceptedIn runs yields →
      (∀ y, ¬ Accepts schema (turns runs) y) → AcceptedIn (runs + 1) yields

/-- The carry after some yields: the last one's. -/
def lastCarry (yields : List Yielded) : List (String × Value Obj) :=
  (yields.getLast?.map fun y => jsonFields y.nextCarry).getD initial

/-- A result accounts for the yields accepted among the turns that were run. -/
structure Reports (runs : ℕ) (yields : List Yielded) (result : YieldResult Obj) : Prop where
  accepted : AcceptedIn schema turns runs yields
  items : result.items = yields.flatMap Yielded.append
  carry : result.carryFinal = lastCarry initial yields
  iterations : result.iterations = yields.length
  doneSignal : result.exitReason = .doneSignal ↔
    ∃ y, Accepts schema (turns (runs - 1)) y ∧ y.done = true
  noYield : result.exitReason = .noYield ↔ ∀ y, ¬ Accepts schema (turns (runs - 1)) y
  maxIterations : result.exitReason = .maxIterations ↔
    ∃ y, Accepts schema (turns (runs - 1)) y ∧ y.done = false

/-- So does the way the loop ended: how many agents it ran, what it returned, and when it failed
    instead. -/
structure Accounted (maxIterations : ℕ) (onNoYield : OnNoYield) (ended : Ended Obj) : Prop where
  ran : 0 < ended.runs ∧ ended.runs ≤ maxIterations ∧ ended.runs ≤ 200
  reports : ∀ result, ended.outcome = .ok result →
    ∃ yields, Reports schema initial turns ended.runs yields result
  exhausted : ∀ result, ended.outcome = .ok result → result.exitReason = .maxIterations →
    ended.runs = maxIterations
  fails : onNoYield = .error → ((∃ error, ended.outcome = .error error) ↔
    ∃ index < ended.runs, ∀ y, ¬ Accepts schema (turns index) y)
  raises : onNoYield = .treatAsDone → ((∃ error, ended.outcome = .error error) ↔
    ∃ index < ended.runs, ∃ error, turns index = .raised error)

/-- The variables hold what so many turns, all of them accepted, yielded. -/
structure Holds (runs : ℕ) (s : LoopState Obj) (yields : List Yielded) : Prop where
  accepted : AcceptedIn schema turns runs yields
  items : s.accumulator = yields.flatMap Yielded.append
  carry : s.carry = lastCarry initial yields
  count : yields.length = runs
  index : s.iterationIndex = runs - 1
  runs : s.runs = runs

/-- Between two turns: every turn so far was accepted without `done`. -/
structure Going (runs : ℕ) (s : LoopState Obj) : Prop where
  passed : ∀ index < runs, ∃ y, Accepts schema (turns index) y ∧ y.done = false
  holds : ∃ yields, Holds schema initial turns runs s yields

variable {initial}

theorem lastCarry_append (yields : List Yielded) (y : Yielded) :
    lastCarry initial (yields ++ [y]) = jsonFields y.nextCarry := by
  rw [lastCarry, List.getLast?_concat, Option.map_some, Option.getD_some]

end

/-! ### What is read is what is to be accepted -/

theorem mem_fieldNames {schema : List Json} {name : String} : name ∈ fieldNames schema ↔
    ∃ field, .obj field ∈ schema ∧ Dict.get field "name" = some (.str name) := by
  unfold fieldNames
  rw [List.mem_filterMap]
  constructor
  · rintro ⟨entry, hentry, hname⟩
    split at hname
    case h_1 field =>
      split at hname
      case h_1 text htext =>
        obtain rfl := Option.some.inj hname
        exact ⟨field, hentry, htext⟩
      case h_2 => cases hname
    case h_2 => cases hname
  · rintro ⟨field, hfield, hname⟩
    exact ⟨_, hfield, by simp [hname]⟩

/-- The `next_carry` that is read: an object, or an empty one for what is falsy. -/
theorem getOr_carry_iff {args : Dict} {value : Json} (h : args.get "next_carry" = some value)
    (carry : Dict) : getOr args "next_carry" (.obj []) = .obj carry ↔
      value = .obj carry ∨ truthy value = false ∧ carry = [] := by
  rw [getOr, h]
  cases htruthy : truthy value with
  | true => simp [htruthy]
  | false =>
    have hempty : value = .obj carry → carry = [] := by
      rintro rfl
      simpa [truthy] using htruthy
    simp only [htruthy, Bool.false_eq_true, if_false, Json.obj.injEq, true_and]
    constructor
    · exact fun h => .inr h.symm
    · exact fun h => (h.elim hempty id).symm

/-- The list that is appended: the one there, or none. -/
theorem append_iff (args : Dict) (items : List Json) :
    (match getOr args "append" (.arr []) with
      | .arr items => items
      | _ => []) = items ↔
      args.get "append" = some (.arr items) ∨
        (∀ items, args.get "append" ≠ some (.arr items)) ∧ items = [] := by
  unfold getOr
  cases hvalue : args.get "append" with
  | none => simp [eq_comm]
  | some value =>
    cases value with
    | arr there =>
      cases there with
      | nil => simp [truthy]
      | cons item there => simp [truthy]
    | bool b => cases b <;> simp [truthy, eq_comm]
    | num q => by_cases hq : q = 0 <;> simp [truthy, hq, eq_comm]
    | str text => by_cases htext : text = "" <;> simp [truthy, htext, eq_comm]
    | obj fields => cases fields <;> simp [truthy, eq_comm]
    | null => simp [truthy, eq_comm]

/-- REFINEMENT: the loop reads a yield off an object just when it is one. -/
theorem readYield_iff {schema : List Json} {args : Dict} {y : Yielded} :
    readYield (fieldNames schema) (.value (.obj args)) = .ok y ↔ YieldedBy schema args y := by
  have hmissing (carry : Dict) : ((fieldNames schema).filter fun name =>
      (Dict.get carry name).isNone) = [] ↔ ∀ field name, .obj field ∈ schema →
        Dict.get field "name" = some (.str name) → ∃ value, carry.get name = some value := by
    rw [List.filter_eq_nil_iff]
    constructor
    · intro h field name hfield hname
      have hnot := h name (mem_fieldNames.mpr ⟨field, hfield, hname⟩)
      rwa [Bool.not_eq_true, Option.isNone_eq_false_iff, Option.isSome_iff_exists] at hnot
    · intro h name hname
      obtain ⟨field, hfield, hname⟩ := mem_fieldNames.mp hname
      obtain ⟨value, hvalue⟩ := h field name hfield hname
      simp [hvalue]
  constructor
  · intro h
    simp only [readYield] at h
    split at h
    case isFalse => cases h
    case isTrue hkeys =>
      obtain ⟨done, hdone⟩ := Option.isSome_iff_exists.mp hkeys.1
      obtain ⟨value, hvalue⟩ := Option.isSome_iff_exists.mp hkeys.2
      split at h
      case h_2 => cases h
      case h_1 carry hcarry =>
        split at h
        case isFalse => cases h
        case isTrue hnone =>
          obtain rfl := Except.ok.inj h
          exact ⟨⟨done, hdone, by simp [given, hdone]⟩,
            ⟨value, hvalue, (getOr_carry_iff hvalue carry).mp hcarry⟩, (hmissing carry).mp hnone,
            (append_iff args _).mp rfl⟩
  · rintro ⟨⟨done, hdone, hsays⟩, ⟨value, hvalue, hcarry⟩, hfields, happend⟩
    have hgiven : given args "done" = y.done := by simp [given, hdone, hsays]
    rw [readYield, if_pos ⟨by simp [hdone], by simp [hvalue]⟩,
      (getOr_carry_iff hvalue y.nextCarry).mpr hcarry]
    simp only [(hmissing y.nextCarry).mpr hfields, if_pos, hgiven,
      (append_iff args y.append).mpr happend]

/-- REFINEMENT: a run is accepted just when the loop reads a yield off what it returns. -/
theorem accepts_iff {schema : List Json} {run : AgentRun} {y : Yielded} : Accepts schema run y ↔
    ∃ result, run.result = .ok result ∧ readYield (fieldNames schema) result = .ok y := by
  constructor
  · rintro ⟨args, rfl | rfl, hyield⟩
    · exact ⟨_, rfl, readYield_iff.mpr hyield⟩
    · exact ⟨_, rfl, readYield_iff.mpr hyield⟩
  · rintro ⟨result, hresult, hread⟩
    have hobject : ∃ args, result = .value (.obj args) := by
      unfold readYield at hread
      split at hread
      case h_1 args => exact ⟨args, rfl⟩
      case h_2 => cases hread
    obtain ⟨args, rfl⟩ := hobject
    unfold AgentRun.result at hresult
    split at hresult
    case h_1 args' =>
      cases hresult
      exact ⟨args, .inl rfl, readYield_iff.mp hread⟩
    case h_2 =>
      -- an input that is no dict leaves an empty object, which is no yield
      cases hresult
      cases hread
    case h_3 output =>
      cases hresult
      exact ⟨args, .inr rfl, readYield_iff.mp hread⟩
    case h_4 => cases hresult
    case h_5 => cases hresult

theorem accepts_unique {schema : List Json} {run : AgentRun} {y y' : Yielded}
    (h : Accepts schema run y) (h' : Accepts schema run y') : y = y' := by
  obtain ⟨result, hresult, hread⟩ := accepts_iff.mp h
  obtain ⟨result', hresult', hread'⟩ := accepts_iff.mp h'
  obtain rfl := Except.ok.inj (hresult.symm.trans hresult')
  exact Except.ok.inj (hread.symm.trans hread')

/-! ### What one turn does -/

section
variable {repr : Json → String} {nodeId : String} {Obj : Type} {schema : List Json}
  {onNoYield : OnNoYield} {turns : ℕ → AgentRun} {s : LoopState Obj} {index : ℕ}

/-- The loop's variables after an accepted turn. -/
def afterYield (s : LoopState Obj) (index : ℕ) (y : Yielded) : LoopState Obj where
  accumulator := s.accumulator ++ y.append
  carry := jsonFields y.nextCarry
  iterationIndex := index
  runs := s.runs + 1

/-- The loop goes on after a turn that was accepted without `done` only. -/
theorem turn_next {s' : LoopState Obj}
    (h : turn repr nodeId (fieldNames schema) onNoYield turns s index = .next s') :
    ∃ y, Accepts schema (turns index) y ∧ y.done = false ∧ s' = afterYield s index y := by
  unfold turn at h
  cases hrun : (turns index).result with
  | error error => simp [hrun] at h
  | ok result =>
    cases hread : readYield (fieldNames schema) result with
    | error problem =>
      simp only [hrun, hread] at h
      split_ifs at h
    | ok y =>
      simp only [hrun, hread] at h
      split_ifs at h with hdone
      cases h
      exact ⟨y, accepts_iff.mpr ⟨result, hrun, hread⟩, by simpa using hdone, rfl⟩

theorem result_eq_error {run : AgentRun} {error : String} (h : run.result = .error error) :
    run = .raised error := by
  unfold AgentRun.result at h
  split at h
  case h_5 =>
    cases h
    rfl
  all_goals cases h

/-- It leaves the loop where the turn was accepted with `done`, or was not accepted; then the policy
    says whether the node fails, as it does where the agent run raised. -/
theorem turn_leave {ended : Ended Obj}
    (h : turn repr nodeId (fieldNames schema) onNoYield turns s index = .leave ended) :
    (∃ y, Accepts schema (turns index) y ∧ y.done = true ∧
        ended = finish .doneSignal (afterYield s index y)) ∨
      ((∀ y, ¬ Accepts schema (turns index) y) ∧ onNoYield = .treatAsDone ∧
        (∀ error, turns index ≠ .raised error) ∧
        ended = finish .noYield { s with iterationIndex := index, runs := s.runs + 1 }) ∨
      ((∀ y, ¬ Accepts schema (turns index) y) ∧
        (onNoYield = .error ∨ ∃ error, turns index = .raised error) ∧
        ∃ error, ended = { outcome := .error error, runs := s.runs + 1 }) := by
  unfold turn at h
  cases hrun : (turns index).result with
  | error error =>
    have hnone : ∀ y, ¬ Accepts schema (turns index) y := by
      intro y hy
      obtain ⟨result, hresult, -⟩ := accepts_iff.mp hy
      rw [hrun] at hresult
      cases hresult
    simp only [hrun, Pass.leave.injEq] at h
    exact .inr (.inr ⟨hnone, .inr ⟨error, result_eq_error hrun⟩, error, h.symm⟩)
  | ok result =>
    cases hread : readYield (fieldNames schema) result with
    | error problem =>
      have hnone : ∀ y, ¬ Accepts schema (turns index) y := by
        intro y hy
        obtain ⟨result', hresult, hread'⟩ := accepts_iff.mp hy
        obtain rfl := Except.ok.inj (hrun.symm.trans hresult)
        rw [hread] at hread'
        cases hread'
      simp only [hrun, hread] at h
      split_ifs at h with hpolicy
      · cases h
        exact .inr (.inr ⟨hnone, .inl hpolicy, _, rfl⟩)
      · cases h
        have hdone : onNoYield = .treatAsDone := by cases onNoYield <;> simp_all
        refine .inr (.inl ⟨hnone, hdone, fun error hraised => ?_, rfl⟩)
        rw [hraised] at hrun
        cases hrun
    | ok y =>
      simp only [hrun, hread] at h
      split_ifs at h with hdone
      cases h
      exact .inl ⟨y, accepts_iff.mpr ⟨result, hrun, hread⟩, hdone, rfl⟩

/-- After one more accepted turn. -/
theorem Holds.afterYield {initial : List (String × Value Obj)} {yields : List Yielded} {y : Yielded}
    (h : Holds schema initial turns index s yields) (hy : Accepts schema (turns index) y) :
    Holds schema initial turns (index + 1) (afterYield s index y) (yields ++ [y]) := by
  constructor
  · exact h.accepted.accepted hy
  · rw [List.flatMap_append, List.flatMap_singleton, ← h.items]
    rfl
  · rw [lastCarry_append]
    rfl
  · rw [List.length_append, h.count, List.length_singleton]
  · rfl
  · exact congrArg (· + 1) h.runs

theorem Going.next {initial : List (String × Value Obj)} {s' : LoopState Obj}
    (h : Going schema initial turns index s)
    (hturn : turn repr nodeId (fieldNames schema) onNoYield turns s index = .next s') :
    Going schema initial turns (index + 1) s' := by
  obtain ⟨y, hy, hdone, rfl⟩ := turn_next hturn
  obtain ⟨yields, hholds⟩ := h.holds
  refine ⟨?_, _, hholds.afterYield hy⟩
  intro j hj
  rcases Nat.lt_succ_iff_lt_or_eq.mp hj with hlt | rfl
  · exact h.passed j hlt
  · exact ⟨y, hy, hdone⟩

/-- What is returned where the last turn was accepted. -/
theorem Holds.reports {initial : List (String × Value Obj)} {yields : List Yielded} {runs : ℕ}
    {y : Yielded} {result : YieldResult Obj} {reason : ExitReason}
    (h : Holds schema initial turns (runs + 1) s yields) (hy : Accepts schema (turns runs) y)
    (hreason : reason = if y.done then .doneSignal else .maxIterations)
    (hresult : (finish reason s).outcome = .ok result) :
    Reports schema initial turns (runs + 1) yields result := by
  have hcount : reason ≠ .noYield := by
    rw [hreason]
    split_ifs <;> simp
  have hlast {P : Yielded → Prop} : (∃ y', Accepts schema (turns runs) y' ∧ P y') ↔ P y :=
    ⟨fun ⟨y', hy', hP⟩ => accepts_unique hy' hy ▸ hP, fun hP => ⟨y, hy, hP⟩⟩
  have hsome : ¬ ∀ y', ¬ Accepts schema (turns runs) y' := fun hnone => hnone y hy
  cases hresult
  constructor
  · exact h.accepted
  · exact h.items
  · exact h.carry
  · rw [h.count, if_neg hcount, h.index]
    rfl
  all_goals
    simp only [Nat.add_sub_cancel, hlast, hsome, hreason]
    cases hdone : y.done <;> simp

/-- What is returned where it was not: nothing of it. -/
theorem Holds.reports_noYield {initial : List (String × Value Obj)} {yields : List Yielded}
    {result : YieldResult Obj} (h : Holds schema initial turns index s yields)
    (hnone : ∀ y, ¬ Accepts schema (turns index) y)
    (hresult : (finish .noYield { s with iterationIndex := index, runs := s.runs + 1 }).outcome =
      .ok result) : Reports schema initial turns (index + 1) yields result := by
  cases hresult
  constructor
  · exact h.accepted.other hnone
  · exact h.items
  · exact h.carry
  · rw [h.count, if_pos rfl]
  all_goals simp [hnone]

/-! ### What the loop ends with -/

theorem Going.not_raised {initial : List (String × Value Obj)}
    (h : Going schema initial turns index s) : ∀ j < index, ∃ y, Accepts schema (turns j) y := by
  intro j hj
  obtain ⟨y, hy, -⟩ := h.passed j hj
  exact ⟨y, hy⟩

theorem not_raised_of_accepted {run : AgentRun} (h : ∃ y, Accepts schema run y) (error : String) :
    run ≠ .raised error := by
  rintro rfl
  obtain ⟨y, args, heq | heq, -⟩ := h
  · cases heq
  · cases heq

/-- An account of a loop that returned: no agent run raised, and under `error` all were accepted. -/
theorem accounted_of_ok {initial : List (String × Value Obj)} {maxIterations : ℕ}
    {ended : Ended Obj} {result : YieldResult Obj} (yields : List Yielded)
    (hok : ended.outcome = .ok result)
    (hran : 0 < ended.runs ∧ ended.runs ≤ maxIterations ∧ ended.runs ≤ 200)
    (hreports : Reports schema initial turns ended.runs yields result)
    (hexhausted : result.exitReason = .maxIterations → ended.runs = maxIterations)
    (hfails : onNoYield = .error → ∀ j < ended.runs, ∃ y, Accepts schema (turns j) y)
    (hraises : ∀ j < ended.runs, ∀ error, turns j ≠ .raised error) :
    Accounted schema initial turns maxIterations onNoYield ended where
  ran := hran
  reports other hother := by
    rw [hok] at hother
    cases hother
    exact ⟨yields, hreports⟩
  exhausted other hother := by
    rw [hok] at hother
    cases hother
    exact hexhausted
  fails hpolicy := by
    refine ⟨fun ⟨error, herror⟩ => ?_, fun ⟨j, hj, hnone⟩ => ?_⟩
    · rw [hok] at herror
      cases herror
    · obtain ⟨y, hy⟩ := hfails hpolicy j hj
      exact absurd hy (hnone y)
  raises _ := by
    refine ⟨fun ⟨error, herror⟩ => ?_, fun ⟨j, hj, error, hraised⟩ =>
      absurd hraised (hraises j hj error)⟩
    rw [hok] at herror
    cases herror

/-- A loop left in a turn is accounted for. -/
theorem Going.leave {initial : List (String × Value Obj)} {maxIterations : ℕ} {ended : Ended Obj}
    (h : Going schema initial turns index s) (hlt : index < maxIterations)
    (hmax : maxIterations ≤ 200)
    (hturn : turn repr nodeId (fieldNames schema) onNoYield turns s index = .leave ended) :
    Accounted schema initial turns maxIterations onNoYield ended := by
  obtain ⟨yields, hholds⟩ := h.holds
  have hruns : s.runs + 1 = index + 1 := congrArg (· + 1) hholds.runs
  have hran : 0 < s.runs + 1 ∧ s.runs + 1 ≤ maxIterations ∧ s.runs + 1 ≤ 200 := by omega
  -- what holds of the turns before holds of this one too
  have hall {P : ℕ → Prop} (hbefore : ∀ j < index, P j) (hlast : P index) :
      ∀ j < s.runs + 1, P j := by
    intro j hj
    rcases Nat.lt_succ_iff_lt_or_eq.mp (hruns ▸ hj) with hj | rfl
    · exact hbefore j hj
    · exact hlast
  rcases turn_leave hturn with ⟨y, hy, hdone, rfl⟩ | ⟨hnone, hpolicy, hreturned, rfl⟩ |
    ⟨hnone, hwhy, error, rfl⟩
  · -- the agent said it was done
    have hpassed : ∀ j < s.runs + 1, ∃ y, Accepts schema (turns j) y := hall h.not_raised ⟨y, hy⟩
    refine accounted_of_ok (yields ++ [y]) rfl hran ?_ (fun hreason => by cases hreason)
      (fun _ => hpassed) fun j hj => not_raised_of_accepted (hpassed j hj)
    have hreports := (hholds.afterYield hy).reports hy (by rw [hdone, if_pos rfl]) rfl
    exact hruns ▸ hreports
  · -- the turn was not accepted, which the policy tolerates
    refine accounted_of_ok yields rfl hran ?_ (fun hreason => by cases hreason)
      (fun herror => by rw [hpolicy] at herror; cases herror)
      (hall (fun j hj => not_raised_of_accepted (h.not_raised j hj)) hreturned)
    have hreports := hholds.reports_noYield hnone rfl
    exact hruns ▸ hreports
  · -- the node fails
    have hindex : index < s.runs + 1 := by omega
    exact {
      ran := hran
      reports := fun _ hresult => (by cases hresult)
      exhausted := fun _ hresult => (by cases hresult)
      fails := fun _ => ⟨fun _ => ⟨index, hindex, hnone⟩, fun _ => ⟨error, rfl⟩⟩
      raises := fun hpolicy => by
        rcases hwhy with herror | hraised
        · rw [hpolicy] at herror
          cases herror
        · exact ⟨fun _ => ⟨index, hindex, hraised⟩, fun _ => ⟨error, rfl⟩⟩ }

/-- So is one that went through all its turns. -/
theorem Going.exhausted {initial : List (String × Value Obj)} {maxIterations : ℕ}
    (h : Going schema initial turns maxIterations s) (hpos : 0 < maxIterations)
    (hmax : maxIterations ≤ 200) : Accounted schema initial turns maxIterations onNoYield
      (finish .maxIterations s) := by
  obtain ⟨last, rfl⟩ := Nat.exists_eq_succ_of_ne_zero hpos.ne'
  obtain ⟨yields, hholds⟩ := h.holds
  have hruns : (finish .maxIterations s).runs = last + 1 := hholds.runs
  obtain ⟨y, hy, hdone⟩ := h.passed last (by omega)
  have hpassed : ∀ j < last + 1, ∃ y, Accepts schema (turns j) y := h.not_raised
  have hreason : ExitReason.maxIterations = if y.done then .doneSignal else .maxIterations := by
    rw [hdone]
    rfl
  have hreports := hholds.reports hy hreason rfl
  refine accounted_of_ok yields rfl (by omega) ?_ (fun _ => hruns) ?_ ?_
  · rw [hruns]
    exact hreports
  · rw [hruns]
    exact fun _ => hpassed
  · rw [hruns]
    exact fun j hj => not_raised_of_accepted (hpassed j hj)

end

section
variable (repr : Json → String) (nodeId : String) {Obj : Type} (attr : Value Obj → String → Value Obj)

/-- A loop over pages, from the first. -/
def pagesSchema : List Json := [.obj [("name", .str "cursor"), ("default", .str "p1")]]

/-- A page of one item, and where the next one begins. -/
def yieldsPage (cursor item : String) (done : Bool) : AgentRun :=
  .terminal (.obj [("next_carry", .obj [("cursor", .str cursor)]), ("append", .arr [.str item]),
    ("done", .bool done)])

/-- Two pages are yielded; then the agent answers instead, or says with the second it was done. -/
def pageTurns (last : Bool) : ℕ → AgentRun
  | 0 => yieldsPage "p2" "ada" false
  | 1 => yieldsPage "p3" "bob" last
  | _ => .finalized (.str "No more pages.")

/-- What two pages come to. -/
def twoPages (reason : ExitReason) (runs : ℕ) : Ended Unit where
  outcome := .ok {
    items := [.str "ada", .str "bob"], carryFinal := [("cursor", .json (.str "p3"))]
    iterations := 2, exitReason := reason }
  runs := runs

end
end LunaCore.Flow.AgentYield
