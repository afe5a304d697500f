import LunaCore.Flow.FieldPaths
import LunaCore.Flow.Supersteps
import LunaCore.Values.Comparison

/-! Edge conditions, and the router a node's edges are compiled to.

    for edge in edges:   the first conditional edge that holds
    for edge in edges:   else the first unconditional one
    default              else END

    The key a router returns is always one of its mapping. What a condition gives is less sure: it
    looks its field up, and compares what it finds there with its value. A field that is not there
    is None, which is unequal to most values and in some lists; and where Python has no comparison
    the router raises. -/

namespace LunaCore.Flow
open LunaCore.Values

/-! ### Conditions -/

/-- A branch of `_evaluate_condition`; `none` where the comparison raises. -/
def ConditionOperator.compare (operator : ConditionOperator) (actual expected : Json) :
    Option Bool :=
  match operator with
  | .eq => some (actual.eq expected)
  | .ne => some (!actual.eq expected)
  | .gt => if actual = .null then some false else (actual.order expected).map (· == .gt)
  | .gte => if actual = .null then some false else (actual.order expected).map (· != .lt)
  | .lt => if actual = .null then some false else (actual.order expected).map (· == .lt)
  | .lte => if actual = .null then some false else (actual.order expected).map (· != .gt)
  | .within => if expected = .null then some false else actual.within expected
  | .contains => if actual = .null then some false else expected.within actual

/-- The keys a condition's field names. -/
def FlowEdgeCondition.keys (c : FlowEdgeCondition) : List String :=
  (c.field.toList.splitOn '.').map String.ofList

section
variable {Obj : Type} (attr : Value Obj → String → Value Obj)
  (foreign : ConditionOperator → Value Obj → Json → Option Bool)

/-- What `_evaluate_condition` makes of a looked up value; `foreign` compares one that is no JSON. -/
def evaluateSeen (operator : ConditionOperator) (expected : Json) : Value Obj → Option Bool
  | .json actual => operator.compare actual expected
  | other => foreign operator other expected

/-- `_evaluate_condition`. -/
def evaluateCondition (c : FlowEdgeCondition) (state : Dict) : Option Bool :=
  evaluateSeen foreign c.operator c.value (getPath attr state c.field)

/-- The first loop of a router. -/
def firstHolding (state : Dict) : List FlowEdge → Option (Option FlowEdge)
  | [] => some none
  | edge :: rest =>
    match edge.condition with
    | none => firstHolding state rest
    | some c => (evaluateCondition attr foreign c state).bind fun holds =>
        if holds then some (some edge) else firstHolding state rest

/-- `_make_router`; `none` where a condition raises. -/
def router (edges : List FlowEdge) (default : String) (state : Dict) : Option String :=
  (firstHolding attr foreign state edges).map fun
    | some edge => edge.dest
    | none =>
      match edges.find? fun edge => edge.condition.isNone with
      | some edge => edge.dest
      | none => default

end

/-! ### What they are to give -/

/-- A condition holds: its field is in the state, and its value compares so. -/
def FlowEdgeCondition.holds (c : FlowEdgeCondition) (state : Dict) : Bool :=
  match lookupKeys c.keys (.obj state) with
  | some actual => (c.operator.compare actual c.value).getD false
  | none => false

/-- Where a node's edges lead on. -/
def chosen (edges : List FlowEdge) (state : Dict) : Target :=
  match edges.find? fun edge => edge.condition.any fun c => c.holds state with
  | some edge => target edge.dest
  | none =>
    match edges.find? fun edge => edge.condition.isNone with
    | some edge => target edge.dest
    | none => .finish

section
variable {Obj : Type} (attr : Value Obj → String → Value Obj)
  (foreign : ConditionOperator → Value Obj → Json → Option Bool)

/-- A router leads on as its edges say, by a key of the mapping, and every condition gives what it
    is to give. -/
structure Routed (edges : List FlowEdge) (state : Dict) : Prop where
  returns : ∀ default mapping, route edges = .conditional edges default mapping →
    ∃ key, router attr foreign edges default state = some key ∧
      (mapping.find? fun entry => entry.1 == key).map Prod.snd = some (chosen edges state)
  conditions : ∀ edge ∈ edges, ∀ c, edge.condition = some c →
    evaluateCondition attr foreign c state = some (c.holds state)

/-- None fails the comparison. -/
def FalseOfNone : ConditionOperator → Json → Prop
  | .eq, expected => expected ≠ .null
  | .ne, expected => expected = .null
  | .within, .arr items => .null ∉ items
  | .within, .null | .within, .obj _ => True
  | .within, _ => False
  | .gt, _ | .gte, _ | .lt, _ | .lte, _ | .contains, _ => True

/-- The values can be compared; or the field is not there, and None fails the comparison, or what
    an attribute gives instead does. -/
def Fits (c : FlowEdgeCondition) (state : Dict) : Prop :=
  match lookupKeys c.keys (.obj state) with
  | some actual => (c.operator.compare actual c.value).isSome = true
  | none =>
    match getPath attr state c.field with
    | .json .null => FalseOfNone c.operator c.value
    | seen => evaluateSeen foreign c.operator c.value seen = some false

end

/-! ### The mapping -/

theorem mem_mapTarget {mapping : List (String × Target)} (dest : String)
    (h : ∀ entry ∈ mapping, entry.2 = target entry.1) :
    (∀ entry ∈ mapTarget mapping dest, entry.2 = target entry.1) ∧
      ∀ key, key ∈ (mapTarget mapping dest).map Prod.fst ↔
        key ∈ mapping.map Prod.fst ∨ key = dest := by
  rw [mapTarget]
  split
  case isTrue hmem =>
    refine ⟨h, fun key => ⟨.inl, ?_⟩⟩
    rintro (hkey | rfl)
    · exact hkey
    · exact hmem
  case isFalse =>
    constructor
    · intro entry hentry
      rcases List.mem_append.mp hentry with hold | hnew
      · exact h entry hold
      · obtain rfl := List.mem_singleton.mp hnew
        rfl
    · intro key
      rw [List.map_append, List.mem_append]
      simp

/-- The mapping of some edges leads each of their targets where it is meant to. -/
theorem mapping_foldl (edges : List FlowEdge) : ∀ mapping : List (String × Target),
    (∀ entry ∈ mapping, entry.2 = target entry.1) →
    (∀ entry ∈ edges.foldl (fun m e => mapTarget m e.dest) mapping, entry.2 = target entry.1) ∧
      ∀ key, key ∈ (edges.foldl (fun m e => mapTarget m e.dest) mapping).map Prod.fst ↔
        key ∈ mapping.map Prod.fst ∨ ∃ edge ∈ edges, edge.dest = key := by
  induction edges with
  | nil => exact fun _ h => ⟨h, fun key => by simp⟩
  | cons edge rest ih =>
    intro mapping h
    obtain ⟨htargets, hkeys⟩ := mem_mapTarget edge.dest h
    obtain ⟨hall, hmem⟩ := ih _ htargets
    refine ⟨hall, fun key => ?_⟩
    rw [List.foldl_cons, hmem, hkeys]
    simp [or_assoc, eq_comm]

theorem find_mapping {mapping : List (String × Target)} {key : String}
    (h : ∀ entry ∈ mapping, entry.2 = target entry.1) (hkey : key ∈ mapping.map Prod.fst) :
    (mapping.find? fun entry => entry.1 == key).map Prod.snd = some (target key) := by
  cases hfind : mapping.find? fun entry => entry.1 == key with
  | none =>
    obtain ⟨entry, hentry, rfl⟩ := List.mem_map.mp hkey
    simpa using List.find?_eq_none.mp hfind entry hentry
  | some entry =>
    have heq : entry.1 = key := by simpa using List.find?_some hfind
    rw [Option.map_some, h entry (List.mem_of_find?_eq_some hfind), heq]

/-- The key a router returns is one of its mapping, and leads where it is meant to. -/
theorem mapping_route {edges picked : List FlowEdge} {default : String}
    {mapping : List (String × Target)} (h : route edges = .conditional picked default mapping) :
    (∀ entry ∈ mapping, entry.2 = target entry.1) ∧
      (∀ edge ∈ edges, edge.dest ∈ mapping.map Prod.fst) ∧
      ((∀ edge ∈ edges, edge.condition.isSome = true) →
        default = endToken ∧ endToken ∈ mapping.map Prod.fst) := by
  obtain ⟨htargets, hkeys⟩ := mapping_foldl edges [] (fun _ h => by cases h)
  have hdest : ∀ edge ∈ edges, edge.dest ∈
      (edges.foldl (fun m e => mapTarget m e.dest) []).map Prod.fst := fun edge hedge =>
    (hkeys _).mpr (.inr ⟨edge, hedge, rfl⟩)
  rw [route] at h
  split at h
  case isTrue => cases h
  case isFalse =>
    split at h
    case h_1 hnone =>
      obtain ⟨rfl, rfl, rfl⟩ := Route.conditional.inj h
      obtain ⟨hend, hmem⟩ := mem_mapTarget endToken htargets
      exact ⟨hend, fun edge hedge => (hmem _).mpr (.inl (hdest edge hedge)),
        fun _ => ⟨rfl, (hmem _).mpr (.inr rfl)⟩⟩
    case h_2 first rest hfirst =>
      obtain ⟨rfl, rfl, rfl⟩ := Route.conditional.inj h
      refine ⟨htargets, hdest, fun hall => ?_⟩
      have hmem : first ∈ edges.filter fun e => e.condition.isNone := by
        rw [hfirst]
        exact List.mem_cons_self
      obtain ⟨hedge, hisNone⟩ := List.mem_filter.mp hmem
      have := hall first hedge
      simp_all

/-! ### The router -/

section
variable {Obj : Type} {attr : Value Obj → String → Value Obj}
  {foreign : ConditionOperator → Value Obj → Json → Option Bool}

/-- Where no condition raises, the first loop finds the first edge whose condition holds. -/
theorem firstHolding_eq {state : Dict} : ∀ {edges : List FlowEdge},
    (∀ edge ∈ edges, ∀ c, edge.condition = some c →
      evaluateCondition attr foreign c state = some (c.holds state)) →
    firstHolding attr foreign state edges =
      some (edges.find? fun edge => edge.condition.any fun c => c.holds state)
  | [], _ => rfl
  | edge :: rest, h => by
    have hrest := firstHolding_eq fun other hother => h other (List.mem_cons_of_mem _ hother)
    rw [firstHolding]
    cases hc : edge.condition with
    | none => simp [hc, hrest]
    | some c =>
      simp only
      rw [h edge List.mem_cons_self c hc, Option.bind_some, List.find?_cons, hc, Option.any_some]
      cases c.holds state with
      | true => rfl
      | false => simpa using hrest

theorem routed_of_conditions {edges : List FlowEdge} {state : Dict}
    (h : ∀ edge ∈ edges, ∀ c, edge.condition = some c →
      evaluateCondition attr foreign c state = some (c.holds state)) :
    Routed attr foreign edges state := by
  refine ⟨fun default mapping hroute => ?_, h⟩
  obtain ⟨htargets, hdest, hdefault⟩ := mapping_route hroute
  rw [router, firstHolding_eq h, Option.map_some, chosen]
  cases hholds : edges.find? fun edge => edge.condition.any fun c => c.holds state with
  | some edge =>
    exact ⟨edge.dest, rfl, find_mapping htargets (hdest edge (List.mem_of_find?_eq_some hholds))⟩
  | none =>
    simp only
    cases hplain : edges.find? fun edge => edge.condition.isNone with
    | some edge =>
      exact ⟨edge.dest, rfl, find_mapping htargets (hdest edge (List.mem_of_find?_eq_some hplain))⟩
    | none =>
      have hall : ∀ edge ∈ edges, edge.condition.isSome = true := by
        intro edge hedge
        simpa [Option.isSome_iff_ne_none] using List.find?_eq_none.mp hplain edge hedge
      obtain ⟨rfl, hend⟩ := hdefault hall
      exact ⟨endToken, rfl, find_mapping htargets hend⟩

/-! ### What a condition gives -/

theorem compare_null_iff (operator : ConditionOperator) (expected : Json) :
    operator.compare .null expected = some false ↔ FalseOfNone operator expected := by
  cases operator with
  | eq => simp [ConditionOperator.compare, FalseOfNone, ← null_eq_iff]
  | ne => simp [ConditionOperator.compare, FalseOfNone, ← null_eq_iff]
  | within =>
    cases expected with
    | arr items =>
      simp only [ConditionOperator.compare, Json.within, FalseOfNone, reduceCtorEq, if_false,
        Option.some.injEq, List.any_eq_false, eq_null_iff]
      exact ⟨fun h hmem => h _ hmem rfl, fun h item hitem hnull => h (hnull ▸ hitem)⟩
    | _ => simp [ConditionOperator.compare, Json.within, FalseOfNone]
  | _ => simp [ConditionOperator.compare, FalseOfNone]

theorem evaluate_iff (c : FlowEdgeCondition) (state : Dict) :
    evaluateCondition attr foreign c state = some (c.holds state) ↔ Fits attr foreign c state := by
  rw [evaluateCondition, FlowEdgeCondition.holds, Fits]
  cases hfield : lookupKeys c.keys (.obj state) with
  | some actual =>
    have hseen : getPath attr state c.field = .json actual := getParts_of_lookup hfield
    rw [hseen]
    simp only [evaluateSeen]
    cases c.operator.compare actual c.value <;> simp
  | none =>
    simp only
    cases hseen : getPath attr state c.field with
    | json value =>
      cases value with
      | null => exact compare_null_iff c.operator c.value
      | _ => exact Iff.rfl
    | _ => exact Iff.rfl

end

variable {Obj : Type} (attr : Value Obj → String → Value Obj)
  (foreign : ConditionOperator → Value Obj → Json → Option Bool)

/-- CODE BUG (exact condition): a node's edges route a state just when each of their conditions
    compares values Python can compare, or has a field that is not there and an operator that None
    fails: `ne` holds of it, `eq` does for null, `in` where the list has a null. -/
theorem routed_iff (edges : List FlowEdge) (state : Dict) :
    Routed attr foreign edges state ↔
      ∀ edge ∈ edges, ∀ c, edge.condition = some c → Fits attr foreign c state := by
  constructor
  · exact fun h edge hedge c hc => (evaluate_iff c state).mp (h.conditions edge hedge c hc)
  · exact fun h => routed_of_conditions fun edge hedge c hc =>
      (evaluate_iff c state).mpr (h edge hedge c hc)

/-! ### A check of a score -/

/-- A condition node that is done. -/
def checked : Supersteps.Completed :=
  ⟨⟨"check", .condition, "Check", []⟩, .null, .none, [],
    [("outputs", .obj []), ("current_node", .str "check")]⟩

/-- The state its router reads, in a run with these inputs. -/
def checkedState (inputs : Dict) : Dict :=
  Supersteps.routerState (Supersteps.openChannels [("inputs", .obj inputs)]) checked

/-- What the check leads on to. -/
def scoreEdges (operator : ConditionOperator) : List FlowEdge :=
  [⟨"check", "review", some ⟨"inputs.score", operator, .num 5⟩⟩, ⟨"check", "publish", none⟩]

/-- Without a score the run goes to review: None is not 5. With a score that is a text it fails:
    the router compares it with 5. -/
theorem missing_score_reviewed :
    Supersteps.Made (Supersteps.openChannels [("inputs", .obj [])]) checked ∧
    router (fun (_ : Value Unit) _ => .json .null) (fun _ _ _ => none) (scoreEdges .ne) "publish"
      (checkedState []) = some "review" ∧
    chosen (scoreEdges .ne) (checkedState []) = .node "publish" ∧
    ¬ Routed (fun (_ : Value Unit) _ => .json .null) (fun _ _ _ => none) (scoreEdges .ne)
      (checkedState []) ∧
    router (fun (_ : Value Unit) _ => .json .null) (fun _ _ _ => none) (scoreEdges .gt) "publish"
      (checkedState [("score", .str "high")]) = none := by
  refine ⟨⟨rfl, rfl, by decide⟩, by decide +kernel, by decide, fun h => ?_, by decide +kernel⟩
  have hcondition := h.conditions _ List.mem_cons_self ⟨"inputs.score", .ne, .num 5⟩ rfl
  exact absurd hcondition (by decide +kernel)

end LunaCore.Flow
