import LunaCore.Flow.TriggerIdentity
import LunaCore.Schemes.Keyed

/-! The inputs of a run: what a trigger gives, checked against what the flow declares.

        declared   name      type     required  default        given
                   profile   string   yes                      "p-1"   ─→ "p-1"
                   limit     integer            20                     ─→ 20
                   note      string                            null    ─→ null
                                                               extra   ─→ "unknown input"

    A null is not looked at, whatever the type, and a default is taken as it is declared. The result
    is stored with the trigger, and every node of the run reads it as `inputs`. -/

namespace LunaCore.Flow.RunInputs
open LunaCore.Values LunaCore.Schemes

/-! ### What is declared and given -/

inductive FlowInputType where
  | string | integer | number | boolean | object | array
  deriving DecidableEq

def FlowInputType.value : FlowInputType → String
  | .string => "string"
  | .integer => "integer"
  | .number => "number"
  | .boolean => "boolean"
  | .object => "object"
  | .array => "array"

/-- A decoded JSON value, integers and floats apart. -/
inductive InputValue where
  | null
  | bool (b : Bool)
  | int (n : ℤ)
  | float (q : ℚ)
  | str (s : String)
  | list (items : List Json)
  | dict (fields : Dict)
  deriving DecidableEq

def InputValue.json : InputValue → Json
  | .null => .null
  | .bool b => .bool b
  | .int n => .num n
  | .float q => .num q
  | .str s => .str s
  | .list items => .arr items
  | .dict fields => .obj fields

/-- `type(value).__name__`. -/
def InputValue.typeName : InputValue → String
  | .null => "NoneType"
  | .bool _ => "bool"
  | .int _ => "int"
  | .float _ => "float"
  | .str _ => "str"
  | .list _ => "list"
  | .dict _ => "dict"

structure FlowInputDef where
  name : String
  type : FlowInputType
  required : Bool
  default : InputValue

/-- A dict of inputs; in which order its keys stand nothing here reads. -/
abbrev Inputs := Table String InputValue

/-- The inputs as the row's JSON has them. -/
def asJson (inputs : Inputs) : Dict :=
  inputs.entries.reverse.map fun entry => (entry.1, entry.2.json)

/-! ### `FlowDefinition` -/

/-- The loop of `_no_duplicate_input_names`: the first name that was seen before. -/
def duplicateName : List String → List FlowInputDef → Option String
  | _, [] => none
  | seen, spec :: inputs =>
    if spec.name ∈ seen then some spec.name else duplicateName (spec.name :: seen) inputs

/-- `_no_duplicate_input_names`. -/
def noDuplicateInputNames (repr : String → String) (inputs : List FlowInputDef) :
    Except String (List FlowInputDef) :=
  match duplicateName [] inputs with
  | some name => .error ("duplicate flow input name: " ++ repr name)
  | none => .ok inputs

/-! ### `validate_flow_inputs` -/

/-- The `isinstance` check of a type; a bool is no int. -/
def FlowInputType.accepts : FlowInputType → InputValue → Bool
  | .string, .str _ => true
  | .integer, .int _ => true
  | .number, .int _ | .number, .float _ => true
  | .boolean, .bool _ => true
  | .object, .dict _ => true
  | .array, .list _ => true
  | _, _ => false

/-- What is said of a value of another type. -/
def typeError (targetType : FlowInputType) (value : InputValue) : String :=
  "expected " ++ targetType.value ++ ", got " ++ value.typeName

/-- `_coerce_input_value`. -/
def coerceInputValue (value : InputValue) (targetType : FlowInputType) :
    Except String InputValue :=
  if value = .null then .ok .null
  else if targetType.accepts value then .ok value
  else .error (typeError targetType value)

/-- What a declared input comes to: an error, a value or neither. -/
def settle (payload : Inputs) (spec : FlowInputDef) : Option (Except String InputValue) :=
  match payload.lookup spec.name with
  | some value => some (coerceInputValue value spec.type)
  | none =>
    if spec.required then some (.error "required input is missing")
    else if spec.default ≠ .null then some (.ok spec.default)
    else none

abbrev Errors := Table String String

/-- One round of the loop over the declared inputs. -/
def resolveInput (payload : Inputs) (found : Errors × Inputs) (spec : FlowInputDef) :
    Errors × Inputs :=
  match settle payload spec with
  | some (.ok value) => (found.1, found.2.insert spec.name value)
  | some (.error message) => (found.1.insert spec.name message, found.2)
  | none => found

/-- The loop over the payload's keys. -/
def unknownInputs (inputs : List FlowInputDef) (payload : Inputs) : Errors :=
  payload.keys.foldl (fun errors key =>
    if key ∈ inputs.map FlowInputDef.name then errors else errors.insert key "unknown input") ∅

/-- `validate_flow_inputs`; an absent payload is an empty one. -/
def validateFlowInputs (inputs : List FlowInputDef) (payload : Inputs) : Except Errors Inputs :=
  let found := inputs.foldl (resolveInput payload) (unknownInputs inputs payload, ∅)
  if found.1 = ∅ then .ok found.2 else .error found.1

/-- `create_flow_run` of an active flow, and its task: the trigger with what its inputs came to. -/
def createFlowRun (inputs : List FlowInputDef) (flowId : String) (trigger : Dict) (payload : Inputs)
    (createdAt : Option String) : Except Errors State :=
  (validateFlowInputs inputs payload).map fun resolved =>
    .triggered flowId (trigger.set "inputs" (.obj (asJson resolved))) createdAt

/-! ### What is wrong with a payload, and what it comes to -/

section
variable (inputs : List FlowInputDef) (payload : Inputs)

/-- The keys that offend, each with what is said of it. -/
inductive Offends : String → String → Prop
  | unknown {key} (given : key ∈ payload) (undeclared : ∀ spec ∈ inputs, spec.name ≠ key) :
      Offends key "unknown input"
  | missing {spec} (declared : spec ∈ inputs) (required : spec.required = true)
      (absent : payload.lookup spec.name = none) : Offends spec.name "required input is missing"
  | wrongType {spec value} (declared : spec ∈ inputs)
      (given : payload.lookup spec.name = some value) (present : value ≠ .null)
      (wrong : spec.type.accepts value = false) : Offends spec.name (typeError spec.type value)

/-- A given value is null or of the declared type; a default is what was declared. -/
inductive Resolves : String → InputValue → Prop
  | given {spec value} (declared : spec ∈ inputs) (given : payload.lookup spec.name = some value)
      (fits : value = .null ∨ spec.type.accepts value = true) : Resolves spec.name value
  | default {spec} (declared : spec ∈ inputs) (absent : payload.lookup spec.name = none)
      (optional : spec.required = false) (declares : spec.default ≠ .null) :
      Resolves spec.name spec.default

end

theorem duplicateName_eq_none {inputs : List FlowInputDef} {seen : List String} :
    duplicateName seen inputs = none ↔
      (inputs.map FlowInputDef.name).Nodup ∧ ∀ spec ∈ inputs, spec.name ∉ seen := by
  induction inputs generalizing seen with
  | nil => simp [duplicateName]
  | cons spec inputs ih =>
    rw [duplicateName]
    split
    case isTrue hseen => simp [hseen]
    case isFalse hseen =>
      rw [ih, List.map_cons, List.nodup_cons, List.forall_mem_cons]
      constructor
      · rintro ⟨hnodup, hrest⟩
        refine ⟨⟨fun hmem => ?_, hnodup⟩, hseen, fun other hother hmem => ?_⟩
        · obtain ⟨other, hother, heq⟩ := List.mem_map.mp hmem
          exact hrest other hother (heq ▸ List.mem_cons_self)
        · exact hrest other hother (List.mem_cons_of_mem _ hmem)
      · rintro ⟨⟨hnot, hnodup⟩, -, hrest⟩
        refine ⟨hnodup, fun other hother hmem => ?_⟩
        rcases List.mem_cons.mp hmem with heq | hmem
        · exact hnot (heq ▸ List.mem_map_of_mem hother)
        · exact hrest other hother hmem

theorem noDuplicateInputNames_iff {repr : String → String} {inputs : List FlowInputDef} :
    noDuplicateInputNames repr inputs = .ok inputs ↔ (inputs.map FlowInputDef.name).Nodup := by
  unfold noDuplicateInputNames
  have hnone := @duplicateName_eq_none inputs []
  split
  case h_1 name hname => simp_all
  case h_2 hname => simp_all

/-! ### The loops -/

/-- What is said of a declared input. -/
def errorOf (payload : Inputs) (spec : FlowInputDef) : Option String :=
  match settle payload spec with
  | some (.error message) => some message
  | _ => none

/-- What a declared input is given. -/
def valueOf (payload : Inputs) (spec : FlowInputDef) : Option InputValue :=
  match settle payload spec with
  | some (.ok value) => some value
  | _ => none

variable {inputs : List FlowInputDef} {payload : Inputs}

/-- The loop fills the two tables independently. -/
theorem foldl_resolveInput (found : Errors × Inputs) :
    inputs.foldl (resolveInput payload) found =
      (inputs.foldl (fillTable FlowInputDef.name (errorOf payload)) found.1,
        inputs.foldl (fillTable FlowInputDef.name (valueOf payload)) found.2) := by
  induction inputs generalizing found with
  | nil => rfl
  | cons spec inputs ih =>
    have hround : resolveInput payload found spec =
        (fillTable FlowInputDef.name (errorOf payload) found.1 spec,
          fillTable FlowInputDef.name (valueOf payload) found.2 spec) := by
      unfold resolveInput fillTable errorOf valueOf
      generalize settle payload spec = outcome
      rcases outcome with _ | message | value <;> rfl
    rw [List.foldl_cons, hround, ih, List.foldl_cons, List.foldl_cons]

/-- SPEC: the keys nobody declared. -/
theorem lookup_unknownInputs {key message : String} :
    (unknownInputs inputs payload).lookup key = some message ↔
      (key ∈ payload ∧ ∀ spec ∈ inputs, spec.name ≠ key) ∧ message = "unknown input" := by
  have hloop : unknownInputs inputs payload = payload.keys.foldl (fillTable id fun key =>
      if key ∈ inputs.map FlowInputDef.name then none else some "unknown input") ∅ := by
    unfold unknownInputs
    congr 1
    funext errors key
    by_cases hkey : key ∈ inputs.map FlowInputDef.name
    · simp only [fillTable, if_pos hkey]
    · simp only [fillTable, if_neg hkey, id]
  have hkeys : (payload.keys.map id).Nodup := by
    rw [List.map_id]
    exact payload.nodupKeys
  have hdeclared : key ∉ inputs.map FlowInputDef.name ↔ ∀ spec ∈ inputs, spec.name ≠ key := by
    simp only [List.mem_map, not_exists, not_and]
  rw [hloop, lookup_foldl_fillTable hkeys fun _ _ => AList.lookup_empty _, AList.lookup_empty,
    ← hdeclared]
  constructor
  · rintro (⟨given, hgiven, rfl, hsaid⟩ | hempty)
    · obtain ⟨hkey, hsaid⟩ := Option.ite_none_left_eq_some.mp hsaid
      exact ⟨⟨AList.mem_keys.mpr hgiven, hkey⟩, (Option.some.inj hsaid).symm⟩
    · cases hempty
  · rintro ⟨⟨hgiven, hkey⟩, rfl⟩
    exact .inl ⟨key, AList.mem_keys.mp hgiven, rfl, if_neg hkey⟩

theorem errorOf_eq_some {spec : FlowInputDef} {message : String} :
    errorOf payload spec = some message ↔
      (payload.lookup spec.name = none ∧ spec.required = true ∧
        "required input is missing" = message) ∨
      ∃ value, payload.lookup spec.name = some value ∧ value ≠ .null ∧
        spec.type.accepts value = false ∧ typeError spec.type value = message := by
  unfold errorOf settle
  cases payload.lookup spec.name with
  | none =>
    cases spec.required with
    | true => simp
    | false => by_cases hdefault : spec.default = .null <;> simp [hdefault]
  | some value =>
    by_cases hnull : value = .null
    · simp [coerceInputValue, hnull]
    · cases hfits : spec.type.accepts value <;> simp [coerceInputValue, hnull, hfits]

theorem valueOf_eq_some {spec : FlowInputDef} {value : InputValue} :
    valueOf payload spec = some value ↔
      (payload.lookup spec.name = some value ∧
        (value = .null ∨ spec.type.accepts value = true)) ∨
      (payload.lookup spec.name = none ∧ spec.required = false ∧ spec.default ≠ .null ∧
        spec.default = value) := by
  unfold valueOf settle
  cases payload.lookup spec.name with
  | none =>
    cases spec.required with
    | true => simp
    | false => by_cases hdefault : spec.default = .null <;> simp [hdefault]
  | some given =>
    have hgiven : some given = some value ↔ given = value := Option.some_inj
    by_cases hnull : given = .null
    · subst hnull
      simp only [coerceInputValue, if_true, hgiven, reduceCtorEq, false_and, or_false]
      exact ⟨fun heq => ⟨heq, .inl heq.symm⟩, fun h => h.1⟩
    · cases hfits : spec.type.accepts given with
      | true =>
        simp only [coerceInputValue, if_neg hnull, hfits, if_true, hgiven, reduceCtorEq, false_and,
          or_false]
        exact ⟨fun heq => ⟨heq, .inr (heq ▸ hfits)⟩, fun h => h.1⟩
      | false =>
        simp only [coerceInputValue, if_neg hnull, hfits, hgiven, Bool.false_eq_true, if_false,
          reduceCtorEq, false_and, or_false, false_iff]
        rintro ⟨rfl, hnone | htrue⟩
        · exact hnull hnone
        · cases hfits.symm.trans htrue

/-- SPEC: the errors found are what offends. -/
theorem lookup_errors (hnames : (inputs.map FlowInputDef.name).Nodup) {key message : String} :
    (inputs.foldl (resolveInput payload) (unknownInputs inputs payload, ∅)).1.lookup key =
      some message ↔ Offends inputs payload key message := by
  have hfresh : ∀ spec ∈ inputs, (unknownInputs inputs payload).lookup spec.name = none := by
    intro spec hspec
    rw [Option.eq_none_iff_forall_ne_some]
    intro said hsaid
    exact (lookup_unknownInputs.mp hsaid).1.2 spec hspec rfl
  rw [foldl_resolveInput, lookup_foldl_fillTable hnames hfresh, lookup_unknownInputs]
  constructor
  · rintro (⟨spec, hspec, rfl, hsaid⟩ | ⟨⟨hgiven, hundeclared⟩, rfl⟩)
    · rcases errorOf_eq_some.mp hsaid with
        ⟨habsent, hrequired, rfl⟩ | ⟨value, hgiven, hnull, hwrong, rfl⟩
      · exact .missing hspec hrequired habsent
      · exact .wrongType hspec hgiven hnull hwrong
    · exact .unknown hgiven hundeclared
  · rintro (⟨hgiven, hundeclared⟩ | ⟨hspec, hrequired, habsent⟩ | ⟨hspec, hgiven, hnull, hwrong⟩)
    · exact .inr ⟨⟨hgiven, hundeclared⟩, rfl⟩
    · exact .inl ⟨_, hspec, rfl, errorOf_eq_some.mpr (.inl ⟨habsent, hrequired, rfl⟩)⟩
    · exact .inl ⟨_, hspec, rfl, errorOf_eq_some.mpr (.inr ⟨_, hgiven, hnull, hwrong, rfl⟩)⟩

/-- SPEC: the values found are what the payload and the defaults come to. -/
theorem lookup_resolved (hnames : (inputs.map FlowInputDef.name).Nodup) {key : String}
    {value : InputValue} :
    (inputs.foldl (resolveInput payload) (unknownInputs inputs payload, ∅)).2.lookup key =
      some value ↔ Resolves inputs payload key value := by
  rw [foldl_resolveInput, lookup_foldl_fillTable hnames fun _ _ => AList.lookup_empty _,
    AList.lookup_empty]
  constructor
  · rintro (⟨spec, hspec, rfl, hvalue⟩ | hempty)
    · rcases valueOf_eq_some.mp hvalue with ⟨hgiven, hfits⟩ | ⟨habsent, hoptional, hset, rfl⟩
      · exact .given hspec hgiven hfits
      · exact .default hspec habsent hoptional hset
    · cases hempty
  · rintro (⟨hspec, hgiven, hfits⟩ | ⟨hspec, habsent, hoptional, hset⟩)
    · exact .inl ⟨_, hspec, rfl, valueOf_eq_some.mpr (.inl ⟨hgiven, hfits⟩)⟩
    · exact .inl ⟨_, hspec, rfl, valueOf_eq_some.mpr (.inr ⟨habsent, hoptional, hset, rfl⟩)⟩

/-! ### In a run -/

/-- RUN: every node of a run reads what its trigger's inputs came to. -/
theorem reads_inputs {sys : System} (hengine : KeepsUnwritten sys.engine) {flowId : String}
    {trigger : Dict} {createdAt : Option String} {s t : State} {as : List Action} {resolved : Inputs}
    (hresolved : validateFlowInputs inputs payload = .ok resolved)
    (hcreate : createFlowRun inputs flowId trigger payload createdAt = .ok s)
    (hrun : runFrom (step sys) s as = some t) {w : Worker} (hw : w ∈ t.workers)
    {entry : String × Dict} (hentry : entry ∈ w.inflight) :
    entry.2.get "inputs" = some (.obj (asJson resolved)) := by
  rw [createFlowRun, hresolved] at hcreate
  obtain rfl : State.triggered flowId _ createdAt = s := Except.ok.inj hcreate
  have hrow : (trigger.set "inputs" (.obj (asJson resolved))).get "inputs" =
      some (.obj (asJson resolved)) := Dict.get_set_self ..
  have hlasting : Lasting sys ⟨flowId, .pending, trigger.set "inputs" (.obj (asJson resolved)), [],
      createdAt, none, none⟩ (fun state => state.get "inputs" = some (.obj (asJson resolved)))
      (fun state => state.get "inputs" = some (.obj (asJson resolved))) := by
    refine lasting_get (by decide) (fun run hsame => ?_) fun g input consumed hconsumed h =>
      get_view hengine (by decide) hconsumed h
    change some ((run.trigger.get "inputs").getD (.obj [])) = _
    rw [hsame.trigger, hrow]
    rfl
  exact ((lasts_run hlasting hrun).workers w hw).reads entry hentry

theorem validateFlowInputs_cases (inputs : List FlowInputDef) (payload : Inputs) :
    let found := inputs.foldl (resolveInput payload) (unknownInputs inputs payload, ∅)
    (found.1 ≠ ∅ ∧ validateFlowInputs inputs payload = .error found.1) ∨
      (found.1 = ∅ ∧ validateFlowInputs inputs payload = .ok found.2) := by
  intro found
  by_cases hfound : found.1 = ∅
  · exact .inr ⟨hfound, if_pos hfound⟩
  · exact .inl ⟨hfound, if_neg hfound⟩

/-- SPEC: what an accepted payload came to. -/
theorem lookup_validated (hnames : (inputs.map FlowInputDef.name).Nodup) {resolved : Inputs}
    (h : validateFlowInputs inputs payload = .ok resolved) {key : String} {value : InputValue} :
    resolved.lookup key = some value ↔ Resolves inputs payload key value := by
  rcases validateFlowInputs_cases inputs payload with ⟨-, hfound⟩ | ⟨-, hfound⟩
  · cases hfound.symm.trans h
  · obtain rfl := Except.ok.inj (hfound.symm.trans h)
    exact lookup_resolved hnames

/-- SPEC: nothing in it offends. -/
theorem sound_of_validated (hnames : (inputs.map FlowInputDef.name).Nodup) {resolved : Inputs}
    (h : validateFlowInputs inputs payload = .ok resolved) (key message : String) :
    ¬ Offends inputs payload key message := by
  rcases validateFlowInputs_cases inputs payload with ⟨-, hfound⟩ | ⟨hnone, -⟩
  · cases hfound.symm.trans h
  · rw [← lookup_errors hnames, hnone, AList.lookup_empty]
    exact (Option.some_ne_none message).symm

/-- A payload in which nothing offends is accepted. -/
theorem validateFlowInputs_ok (hnames : (inputs.map FlowInputDef.name).Nodup)
    (hsound : ∀ key message, ¬ Offends inputs payload key message) :
    ∃ resolved, validateFlowInputs inputs payload = .ok resolved := by
  rcases validateFlowInputs_cases inputs payload with ⟨hsome, -⟩ | ⟨-, hfound⟩
  · have hnone : (inputs.foldl (resolveInput payload) (unknownInputs inputs payload, ∅)).1 = ∅ := by
      refine eq_empty_of_lookup fun key => Option.eq_none_iff_forall_ne_some.mpr fun said hsaid => ?_
      exact hsound key said ((lookup_errors hnames).mp hsaid)
    exact absurd hnone hsome
  · exact ⟨_, hfound⟩

/-- A required string, and an optional integer whose default is a string. -/
def profileInputs : List FlowInputDef :=
  [⟨"profile", .string, true, .null⟩, ⟨"limit", .integer, false, .str "ten"⟩]

/-- A profile is accepted if it is a string or null. -/
theorem profile_accepted {value : InputValue}
    (hvalue : value = .null ∨ FlowInputType.string.accepts value = true) :
    ∃ resolved, validateFlowInputs profileInputs (AList.insert "profile" value ∅) = .ok resolved := by
  refine validateFlowInputs_ok (by decide) fun key message hoffends => ?_
  have hpayload (name : String) : (AList.insert "profile" value ∅ : Inputs).lookup name =
      if name = "profile" then some value else none := by
    rw [lookup_insert_ite, AList.lookup_empty]
  cases hoffends with
  | unknown hgiven hundeclared =>
    obtain ⟨given, hgiven⟩ := Option.isSome_iff_exists.mp (AList.lookup_isSome.mpr hgiven)
    obtain ⟨hname, -⟩ := Option.ite_none_right_eq_some.mp ((hpayload _).symm.trans hgiven)
    exact hundeclared ⟨"profile", .string, true, .null⟩ List.mem_cons_self hname.symm
  | missing hspec hrequired habsent =>
    rcases List.mem_pair.mp hspec with rfl | rfl
    · cases (hpayload "profile").symm.trans habsent
    · cases hrequired
  | wrongType hspec hgiven hnull hwrong =>
    rcases List.mem_pair.mp hspec with rfl | rfl
    · obtain rfl := Option.some.inj ((hpayload "profile").symm.trans hgiven)
      rcases hvalue with rfl | hfits
      · exact hnull rfl
      · cases hfits.symm.trans hwrong
    · cases (hpayload "limit").symm.trans hgiven

/-- CORRECT: the inputs of a trigger are refused with one error for each key that offends, or come to
    a value for each declared key that is given or has a default, and for no other. A required one is
    among them, null or of its type, and every node of the run reads them. -/
theorem flowInputs_correct {repr : String → String} {inputs : List FlowInputDef}
    (haccepted : noDuplicateInputNames repr inputs = .ok inputs) (payload : Inputs) :
    (∀ errors, validateFlowInputs inputs payload = .error errors →
      errors ≠ ∅ ∧ ∀ key message,
        errors.lookup key = some message ↔ Offends inputs payload key message) ∧
    ∀ resolved, validateFlowInputs inputs payload = .ok resolved →
      (∀ key message, ¬ Offends inputs payload key message) ∧
      (∀ key value, resolved.lookup key = some value ↔ Resolves inputs payload key value) ∧
      (∀ key ∈ resolved, ∃ spec ∈ inputs, spec.name = key) ∧
      (∀ spec ∈ inputs, spec.required = true → ∃ value, resolved.lookup spec.name = some value ∧
        (value = .null ∨ spec.type.accepts value = true)) ∧
      ∀ sys : System, KeepsUnwritten sys.engine → ∀ flowId trigger createdAt as s t,
        createFlowRun inputs flowId trigger payload createdAt = .ok s →
          runFrom (step sys) s as = some t → ∀ w ∈ t.workers, ∀ entry ∈ w.inflight,
            entry.2.get "inputs" = some (.obj (asJson resolved)) := by
  have hnames := noDuplicateInputNames_iff.mp haccepted
  constructor
  · intro errors herrors
    rcases validateFlowInputs_cases inputs payload with ⟨hsome, hfound⟩ | ⟨-, hfound⟩
    · obtain rfl := Except.error.inj (hfound.symm.trans herrors)
      exact ⟨hsome, fun key message => lookup_errors hnames⟩
    · cases hfound.symm.trans herrors
  · intro resolved hresolved
    have hsound := sound_of_validated hnames hresolved
    refine ⟨hsound, fun key value => lookup_validated hnames hresolved, fun key hkey => ?_,
      fun spec hspec hrequired => ?_, fun sys hengine flowId trigger createdAt as s t hcreate hrun w
        hw entry hentry => reads_inputs hengine hresolved hcreate hrun hw hentry⟩
    · obtain ⟨value, hvalue⟩ := Option.isSome_iff_exists.mp (AList.lookup_isSome.mpr hkey)
      cases (lookup_validated hnames hresolved).mp hvalue with
      | given hspec _ _ => exact ⟨_, hspec, rfl⟩
      | default hspec _ _ _ => exact ⟨_, hspec, rfl⟩
    · cases hgiven : payload.lookup spec.name with
      | none => exact absurd (.missing hspec hrequired hgiven) (hsound _ _)
      | some value =>
        have hfits : value = .null ∨ spec.type.accepts value = true := by
          by_contra hwrong
          rw [not_or, Bool.not_eq_true] at hwrong
          exact hsound _ _ (.wrongType hspec hgiven hwrong.1 hwrong.2)
        exact ⟨value, (lookup_validated hnames hresolved).mpr (.given hspec hgiven hfits), hfits⟩

/-- A null for the required string is a value, and so is the default that is no integer. -/
theorem null_and_default_pass :
    noDuplicateInputNames id profileInputs = .ok profileInputs ∧
      ∃ resolved, validateFlowInputs profileInputs (AList.insert "profile" .null ∅) = .ok resolved ∧
        ∀ spec ∈ profileInputs, ∃ value, resolved.lookup spec.name = some value ∧
          spec.type.accepts value = false := by
  obtain ⟨resolved, hresolved⟩ := profile_accepted (.inl rfl)
  have hnames : (profileInputs.map FlowInputDef.name).Nodup := by decide
  refine ⟨rfl, resolved, hresolved, fun spec hspec => ?_⟩
  rcases List.mem_pair.mp hspec with rfl | rfl
  · refine ⟨.null, (lookup_validated hnames hresolved).mpr ?_, rfl⟩
    exact .given hspec (AList.lookup_insert _) (.inl rfl)
  · refine ⟨.str "ten", (lookup_validated hnames hresolved).mpr ?_, rfl⟩
    have habsent : (AList.insert "profile" .null ∅ : Inputs).lookup "limit" = none := by
      rw [lookup_insert_ite, if_neg (by decide), AList.lookup_empty]
    exact .default hspec habsent rfl (by decide)

/-- The profile given is resolved, and the first node of the run reads it. -/
theorem profile_resolved : ∃ (resolved : Inputs) (s t : State) (w : Worker) (entry : String × Dict),
    validateFlowInputs profileInputs (AList.insert "profile" (.str "p-1") ∅) = .ok resolved ∧
      resolved.lookup "profile" = some (.str "p-1") ∧
      createFlowRun profileInputs "f1" [] (AList.insert "profile" (.str "p-1") ∅) none = .ok s ∧
      runFrom (step reviewSystem) s startsFetch = some t ∧ w ∈ t.workers ∧ entry ∈ w.inflight ∧
      entry.2.get "inputs" = some (.obj (asJson resolved)) := by
  have hstring : FlowInputType.string.accepts (.str "p-1") = true := rfl
  obtain ⟨resolved, hresolved⟩ := profile_accepted (.inr hstring)
  have haccepted : noDuplicateInputNames id profileInputs = .ok profileInputs := rfl
  obtain ⟨-, hvalues, -, -, hreads⟩ := (flowInputs_correct haccepted
    (AList.insert "profile" (.str "p-1") ∅)).2 resolved hresolved
  have hspec : (⟨"profile", .string, true, .null⟩ : FlowInputDef) ∈ profileInputs :=
    List.mem_cons_self
  have hgiven := (hvalues "profile" (.str "p-1")).mpr
    (.given hspec (AList.lookup_insert _) (.inr hstring))
  have hcreate : createFlowRun profileInputs "f1" [] (AList.insert "profile" (.str "p-1") ∅) none =
      .ok (.triggered "f1" (Dict.set [] "inputs" (.obj (asJson resolved))) none) := by
    rw [createFlowRun, hresolved]
    rfl
  exact ⟨resolved, _, _, _, _, hresolved, hgiven, hcreate, rfl, List.mem_singleton.mpr rfl,
    List.mem_singleton.mpr rfl, hreads reviewSystem chain_keepsUnwritten "f1" [] none startsFetch _ _
      hcreate rfl _ (List.mem_singleton.mpr rfl) _ (List.mem_singleton.mpr rfl)⟩

end LunaCore.Flow.RunInputs
