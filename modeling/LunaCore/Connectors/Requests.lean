import LunaCore.Connectors.Placeholders
import Mathlib.Data.List.DropRight

/-! The HTTP request of an operation: where each key of the input goes.

    input ─ defaults ─┬─ {name} of the path ──────────────▶ url
                      ├─ `in` of each parameter ──────────▶ query, header, body
                      └─ {name} of the fixed templates ───▶ fixed headers, fixed body

    headers   accept, agent ◁ fixed ◁ header ◁ auth        what is on the right replaces
    params    auth ◁ query
    json      fixed body ◁ body, but for the keys the fixed body has taken in

    Every lookup in the request is given by lookups in the input after defaults. -/

namespace LunaCore.Connectors
open LunaCore.Schemes LunaCore.Values

/-! ### Operations -/

inductive HttpMethod where
  | get
  | post
  | put
  | delete
  | patch
  deriving DecidableEq

/-- `method in _BODY_METHODS`. -/
def HttpMethod.hasBody : HttpMethod → Bool
  | .post | .put | .patch => true
  | .get | .delete => false

inductive ParameterType where
  | string
  | integer
  | number
  | boolean
  | array
  | object
  deriving DecidableEq

/-- Where in the request a parameter is rendered. -/
inductive ParameterIn where
  | path
  | query
  | body
  | header
  deriving DecidableEq

/-- A parameter as it was saved; `default` is null where there is none. -/
structure ParameterDef where
  name : String
  type : ParameterType
  description : String
  required : Bool
  in_ : ParameterIn
  enumValues : Option (List String)
  itemType : Option ParameterType
  properties : Option (List ParameterDef)
  default : Json

/-- What of an operation its request is made from; a missing fixed body is null. -/
structure OperationDefinition where
  method : HttpMethod
  path : String
  parameters : List ParameterDef
  fixedHeaders : Dict
  fixedBody : Json
  distinct : fixedHeaders.Distinct

/-- What authentication adds to a request. -/
structure PreparedRequest where
  headers : Dict
  params : Dict
  basicAuth : Option (String × String)
  headersDistinct : headers.Distinct
  paramsDistinct : params.Distinct

/-! ### The passes over the input -/

/-- One round of `_apply_parameter_defaults`. -/
def fillDefault (out : Dict) (p : ParameterDef) : Dict :=
  if p.name = "" ∨ (out.get p.name).isSome then out
  else if p.default = .null then out
  else out.set p.name p.default

/-- `_apply_parameter_defaults`. -/
def applyParameterDefaults (parameters : List ParameterDef) (input : Dict) : Dict :=
  parameters.foldl fillDefault input

/-- `_path_placeholders`. -/
def pathPlaceholders (path : String) : List String := holes (partsOf path)

/-- The query, header and body values. -/
structure Buckets where
  query : Dict
  header : Dict
  body : Dict

def Buckets.put (b : Buckets) (dest : ParameterIn) (name : String) (value : Json) : Buckets :=
  match dest with
  | .query => { b with query := b.query.set name value }
  | .header => { b with header := b.header.set name value }
  | .body => { b with body := b.body.set name value }
  | .path => b

/-- One round of `_distribute_input` over declared parameters. -/
def distribute (payload : Dict) (b : Buckets) (p : ParameterDef) : Buckets :=
  if p.name = "" then b
  else match payload.get p.name with
    | none => b
    | some value => b.put p.in_ p.name value

/-- `_distribute_input`. -/
def distributeInput (method : HttpMethod) (parameters : List ParameterDef) (path : String)
    (input : Dict) : Buckets :=
  let payload := input.filter fun kv => kv.1 ∉ pathPlaceholders path
  if parameters.isEmpty then
    if method.hasBody then ⟨[], [], payload⟩ else ⟨payload, [], []⟩
  else parameters.foldl (distribute payload) ⟨[], [], []⟩

/-- `_merge_body`, where null is None. -/
def mergeBody (fixedBody : Json) (bodyVals : Dict) : Json := match fixedBody with
  | .null => if bodyVals.isEmpty then .null else .obj bodyVals
  | .obj fields => .obj (Dict.update fields bodyVals)
  | other => other

/-- `_join_url`. -/
def joinUrl (baseUrl : String) (path : List Char) : List Char :=
  baseUrl.toList.rdropWhile (· == '/') ++ '/' :: path.dropWhile (· == '/')

variable (repr : Json → String)

/-- `_replace`. -/
def pathValue (payload : Dict) (key : String) : Except String (List Char) :=
  match payload.get key with
  | none => .error ("path parameter '" ++ key ++ "' missing from input")
  | some .null => .error ("path parameter '" ++ key ++ "' must not be null")
  | some value => .ok (strOf repr value).toList

/-- `_substitute_path_params`: the path rewritten, and the keys that are left. -/
def substitutePathParams (path : String) (payload : Dict) : Except String (List Char × Dict) :=
  (fillOr (pathValue repr payload) (partsOf path)).map fun rewritten =>
    (rewritten, payload.filter fun kv => kv.1 ∉ pathPlaceholders path)

/-- What is made of the input before the first attempt. -/
structure Assembled where
  url : List Char
  query : Dict
  header : Dict
  body : Dict
  fixedHeaders : Dict
  fixedBody : Json

/-- The body values the fixed body has not taken in. -/
def unconsumed (fixedBody : Json) (bodyVals : Dict) : Dict :=
  if fixedBody = .null then bodyVals
  else bodyVals.filter fun kv => kv.1 ∉ templatePlaceholders fixedBody

/-- `_execute_http` up to its loop. -/
def assemble (d : OperationDefinition) (baseUrl : String) (input : Dict) :
    Except String Assembled :=
  let effective := applyParameterDefaults d.parameters input
  (substitutePathParams repr d.path effective).map fun (urlPath, _) =>
    let buckets := distributeInput d.method d.parameters d.path effective
    { url := joinUrl baseUrl urlPath
      query := buckets.query
      header := buckets.header
      body := unconsumed d.fixedBody buckets.body
      fixedHeaders := mapStringsFields (interpolateText repr effective) d.fixedHeaders
      fixedBody := interpolate repr effective d.fixedBody }

/-- The arguments of `client.request`; `json` null and `params` empty stand for ones not given. -/
structure RequestKwargs where
  method : HttpMethod
  url : List Char
  headers : Dict
  json : Json
  params : Dict
  auth : Option (String × String)

/-- The headers every request has. -/
def defaultHeaders : Dict :=
  [("Accept", .str "application/json"), ("User-Agent", .str "luna-core/connector")]

/-- Header values as text. -/
def headerTexts (values : Dict) : Dict := values.map fun kv => (kv.1, .str (textOf repr kv.2))

/-- What one attempt sends. -/
def requestKwargs (d : OperationDefinition) (a : Assembled) (prepared : PreparedRequest) :
    RequestKwargs where
  method := d.method
  url := a.url
  headers := ((defaultHeaders.update (headerTexts repr a.fixedHeaders)).update
    (headerTexts repr a.header)).update prepared.headers
  json := if d.method.hasBody then mergeBody a.fixedBody a.body else .null
  params := prepared.params.update (a.query.filter fun kv => kv.2 ≠ .null)
  auth := prepared.basicAuth

/-! ### What the passes do -/

variable {repr}

theorem get_fillDefault (out : Dict) (p : ParameterDef) (k : String) :
    (fillDefault out p).get k =
      (out.get k).or (if p.name = k ∧ k ≠ "" ∧ p.default ≠ .null then some p.default else none) := by
  unfold fillDefault
  split
  case isTrue hskip =>
    cases hk : out.get k with
    | some v => rfl
    | none =>
      rw [if_neg, Option.or_none]
      rintro ⟨rfl, hne, -⟩
      rcases hskip with hempty | hthere
      · exact hne hempty
      · simp [hk] at hthere
  case isFalse hgo =>
    rw [not_or] at hgo
    split
    case isTrue hnull => simp [hnull]
    case isFalse hnull =>
      rw [Dict.get_set]
      split
      case isTrue hk =>
        subst hk
        have hout : out.get p.name = none := by simpa using hgo.2
        simp [hout, hgo.1, hnull]
      case isFalse hk => simp [Ne.symm hk]

/-- A key that is there keeps its value. -/
theorem get_applyParameterDefaults_of_some {k : String} {v : Json} :
    ∀ {parameters : List ParameterDef} {input : Dict}, input.get k = some v →
      (applyParameterDefaults parameters input).get k = some v
  | [], _, h => h
  | p :: parameters, input, h => by
    have hnext : (fillDefault input p).get k = some v := by rw [get_fillDefault, h, Option.some_or]
    have hrest : (applyParameterDefaults parameters (fillDefault input p)).get k = some v :=
      get_applyParameterDefaults_of_some hnext
    exact hrest

/-- A key is there after defaults when it was before, or a parameter of its name has a default. -/
theorem get_applyParameterDefaults_ne_none {k : String} (hk : k ≠ "") :
    ∀ {parameters : List ParameterDef} {input : Dict},
      (applyParameterDefaults parameters input).get k ≠ none ↔
        input.get k ≠ none ∨ ∃ p ∈ parameters, p.name = k ∧ p.default ≠ .null
  | [], input => by simp [applyParameterDefaults]
  | p :: parameters, input => by
    have hrest : (applyParameterDefaults parameters (fillDefault input p)).get k ≠ none ↔
        (fillDefault input p).get k ≠ none ∨ ∃ q ∈ parameters, q.name = k ∧ q.default ≠ .null :=
      get_applyParameterDefaults_ne_none hk
    rw [show applyParameterDefaults (p :: parameters) input =
      applyParameterDefaults parameters (fillDefault input p) from rfl, hrest, get_fillDefault]
    cases input.get k with
    | some v => simp
    | none =>
      by_cases hp : p.name = k ∧ p.default ≠ .null
      · simp [hp, hk]
      · have hp' : ¬ (p.name = k ∧ k ≠ "" ∧ p.default ≠ .null) := fun h => hp ⟨h.1, h.2.2⟩
        simp only [hp', List.exists_mem_cons_iff, hp, if_false, Option.or_none, ne_eq, not_true,
          false_or]

/-- Defaults depend on a key's own value. -/
theorem get_applyParameterDefaults_congr {k : String} :
    ∀ {parameters : List ParameterDef} {input other : Dict}, input.get k = other.get k →
      (applyParameterDefaults parameters input).get k =
        (applyParameterDefaults parameters other).get k
  | [], _, _, h => h
  | p :: parameters, input, other, h => by
    have hnext : (fillDefault input p).get k = (fillDefault other p).get k := by
      rw [get_fillDefault, get_fillDefault, h]
    have hrest : (applyParameterDefaults parameters (fillDefault input p)).get k =
        (applyParameterDefaults parameters (fillDefault other p)).get k :=
      get_applyParameterDefaults_congr hnext
    exact hrest

theorem distinct_applyParameterDefaults : ∀ (parameters : List ParameterDef) {input : Dict},
    input.Distinct → (applyParameterDefaults parameters input).Distinct
  | [], _, h => h
  | p :: parameters, input, h => by
    have hnext : (fillDefault input p).Distinct := by
      unfold fillDefault
      split
      · exact h
      · split
        · exact h
        · exact h.set _ _
    exact distinct_applyParameterDefaults parameters hnext

/-- The bucket of a place. -/
def Buckets.at (b : Buckets) : ParameterIn → Dict
  | .query => b.query
  | .header => b.header
  | .body => b.body
  | .path => []

theorem at_put (b : Buckets) (dest : ParameterIn) (name : String) (value : Json)
    {place : ParameterIn} (hplace : place ≠ .path) : (b.put dest name value).at place =
      if dest = place then (b.at place).set name value else b.at place := by
  cases place with
  | path => exact absurd rfl hplace
  | query => cases dest <;> rfl
  | header => cases dest <;> rfl
  | body => cases dest <;> rfl

theorem get_distribute {payload : Dict} (b : Buckets) (p : ParameterDef) {place : ParameterIn}
    (hplace : place ≠ .path) (k : String) : ((distribute payload b p).at place).get k =
      if p.name = k ∧ p.in_ = place ∧ k ≠ "" then (payload.get k).or ((b.at place).get k)
      else (b.at place).get k := by
  unfold distribute
  split
  case isTrue hempty =>
    rw [if_neg]
    rintro ⟨rfl, -, hne⟩
    exact hne hempty
  case isFalse hne =>
    split
    case h_1 hnone =>
      split
      case isTrue hk => rw [← hk.1, hnone, Option.none_or]
      case isFalse => rfl
    case h_2 value hvalue =>
      rw [at_put b p.in_ p.name value hplace]
      by_cases hin : p.in_ = place
      · rw [if_pos hin, Dict.get_set]
        by_cases hk : k = p.name
        · subst hk
          rw [if_pos rfl, if_pos ⟨rfl, hin, hne⟩, hvalue, Option.some_or]
        · rw [if_neg hk, if_neg fun h => hk h.1.symm]
      · rw [if_neg hin, if_neg fun h => hin h.2.1]

/-- Declared parameters put each key where one of its name says. -/
theorem get_distributeAll {payload : Dict} {place : ParameterIn} (hplace : place ≠ .path)
    (k : String) : ∀ (parameters : List ParameterDef) (b : Buckets),
      ((parameters.foldl (distribute payload) b).at place).get k =
        if k ≠ "" ∧ ∃ p ∈ parameters, p.name = k ∧ p.in_ = place then
          (payload.get k).or ((b.at place).get k)
        else (b.at place).get k
  | [], b => by simp
  | p :: parameters, b => by
    rw [List.foldl_cons, get_distributeAll hplace k parameters, get_distribute b p hplace]
    by_cases hp : p.name = k ∧ p.in_ = place ∧ k ≠ ""
    · have hcons : k ≠ "" ∧ ∃ q ∈ p :: parameters, q.name = k ∧ q.in_ = place :=
        ⟨hp.2.2, p, List.mem_cons_self, hp.1, hp.2.1⟩
      rw [if_pos hcons, if_pos hp]
      split
      · cases payload.get k <;> simp
      · rfl
    · rw [if_neg hp]
      refine if_congr ?_ rfl rfl
      refine and_congr_right fun hk => ?_
      rw [List.exists_mem_cons_iff, or_iff_right fun h => hp ⟨h.1, h.2, hk⟩]

theorem distinct_distribute {payload : Dict} {b : Buckets} (h : ∀ place, (b.at place).Distinct)
    (p : ParameterDef) : ∀ place, ((distribute payload b p).at place).Distinct := by
  intro place
  unfold distribute
  split
  · exact h place
  · split
    · exact h place
    · by_cases hplace : place = .path
      · subst hplace
        exact h .path
      · rw [at_put b p.in_ _ _ hplace]
        split
        · exact (h place).set _ _
        · exact h place

theorem distinct_distributeAll {payload : Dict} : ∀ (parameters : List ParameterDef) {b : Buckets},
    (∀ place, (b.at place).Distinct) →
      ∀ place, ((parameters.foldl (distribute payload) b).at place).Distinct
  | [], _, h => h
  | p :: parameters, _, h => distinct_distributeAll parameters (distinct_distribute h p)

end LunaCore.Connectors
