import LunaCore.Connectors.Requests

/-! Where the request has the value of a key.

    Each entry of the URL, the query, the headers and the body root is given by the input after
    defaults: a key stands where it is directed to, and where the path or a fixed template names it.
    A key that is directed nowhere and named nowhere changes nothing. -/

namespace LunaCore.Connectors
open LunaCore.Schemes LunaCore.Values

/-- The key's value goes to this place of the request: a parameter of its name says so, or without
    parameters the method does. A placeholder of the path is directed nowhere. -/
def Directed (d : OperationDefinition) (key : String) (place : ParameterIn) : Prop :=
  key ∉ pathPlaceholders d.path ∧
    if d.parameters.isEmpty then place = if d.method.hasBody then .body else .query
    else key ≠ "" ∧ ∃ p ∈ d.parameters, p.name = key ∧ p.in_ = place

instance (d : OperationDefinition) (key : String) (place : ParameterIn) :
    Decidable (Directed d key place) :=
  inferInstanceAs (Decidable (key ∉ pathPlaceholders d.path ∧
    if d.parameters.isEmpty then place = if d.method.hasBody then .body else .query
    else key ≠ "" ∧ ∃ p ∈ d.parameters, p.name = key ∧ p.in_ = place))

/-- What the input has for a key, where it is directed to the place. -/
def sentAt (d : OperationDefinition) (input : Dict) (place : ParameterIn) (key : String) :
    Option Json :=
  if Directed d key place then input.get key else none

/-- What the input has for a placeholder of the path, as text. -/
def pathText (repr : Json → String) (input : Dict) (key : String) : List Char :=
  match input.get key with
  | some value => (strOf repr value).toList
  | none => []

/-- A field of the root of a body. -/
def bodyField (json : Json) (key : String) : Option Json := match json with
  | .obj fields => Dict.get fields key
  | _ => none

/-- The fields of a fixed body that is an object or missing. -/
def fixedFields : Json → Option Dict
  | .null => some []
  | .obj fields => some fields
  | _ => none

/-- Where everything in the request is from; `raw` is the caller's input. -/
structure Placed (repr : Json → String) (d : OperationDefinition) (baseUrl : String)
    (prepared : PreparedRequest) (raw : Dict) (r : RequestKwargs) : Prop where
  /-- Every placeholder of the path is filled by its key's value. -/
  url : let input := applyParameterDefaults d.parameters raw
    (∀ key ∈ pathPlaceholders d.path, ∃ value, input.get key = some value ∧ value ≠ .null) ∧
      r.url = joinUrl baseUrl (fill (pathText repr input) (partsOf d.path))
  query : ∀ key, r.params.get key =
    ((sentAt d (applyParameterDefaults d.parameters raw) .query key).filter (· ≠ .null)).or
      (prepared.params.get key)
  /-- The headers of the authentication come before the caller's, these before the fixed ones. -/
  header : ∀ key, let input := applyParameterDefaults d.parameters raw
    r.headers.get key = (prepared.headers.get key).or
      (((sentAt d input .header key).map fun value => .str (textOf repr value)).or
        (((d.fixedHeaders.get key).map fun template =>
          .str (textOf repr (interpolate repr input template))).or (defaultHeaders.get key)))
  /-- The body root has what is directed there and not taken in by the fixed body, and the fields of
      the fixed body. -/
  body : d.method.hasBody → ∀ fields, fixedFields d.fixedBody = some fields →
    ∀ key, let input := applyParameterDefaults d.parameters raw
      bodyField r.json key = (if key ∈ templatePlaceholders d.fixedBody then none
        else sentAt d input .body key).or
          ((Dict.get fields key).map (interpolate repr input))
  /-- Where the parameters of a name agree, its key is directed to the one place they say. -/
  once : ∀ p ∈ d.parameters, p.name ≠ "" → (∀ q ∈ d.parameters, q.name = p.name → q.in_ = p.in_) →
    ∀ place, Directed d p.name place ↔ p.name ∉ pathPlaceholders d.path ∧ place = p.in_
  /-- What is neither declared nor named by the path or a fixed template changes nothing. -/
  undeclared : ∀ key, d.parameters ≠ [] → (∀ p ∈ d.parameters, p.name ≠ key) →
    key ∉ pathPlaceholders d.path → key ∉ templatePlaceholders d.fixedBody →
    key ∉ templatePlaceholders (.obj d.fixedHeaders) →
    ∀ other : Dict, (∀ k, k ≠ key → raw.get k = other.get k) →
      assemble repr d baseUrl raw = assemble repr d baseUrl other

variable {repr : Json → String} {d : OperationDefinition} {baseUrl : String}

theorem get_distributeInput (input : Dict) (place : ParameterIn) (hplace : place ≠ .path)
    (key : String) : ((distributeInput d.method d.parameters d.path input).at place).get key =
      sentAt d input place key := by
  have hpayload : Dict.get (input.filter fun kv => kv.1 ∉ pathPlaceholders d.path) key =
      if key ∉ pathPlaceholders d.path then input.get key else none := by
    simpa using Dict.get_filter (fun k => k ∉ pathPlaceholders d.path) input key
  unfold distributeInput sentAt Directed
  by_cases hempty : d.parameters.isEmpty = true
  · simp only [hempty, if_true]
    cases place with
    | path => exact absurd rfl hplace
    | header => cases d.method.hasBody <;> simp [Buckets.at, Dict.get]
    | query =>
      cases d.method.hasBody with
      | true => simp [Buckets.at, Dict.get]
      | false => simpa [Buckets.at] using hpayload
    | body =>
      cases d.method.hasBody with
      | true => simpa [Buckets.at] using hpayload
      | false => simp [Buckets.at, Dict.get]
  · have hnone : ((⟨[], [], []⟩ : Buckets).at place).get key = none := by cases place <;> rfl
    simp only [hempty, if_false, Bool.false_eq_true]
    rw [get_distributeAll hplace, hpayload, hnone, Option.or_none]
    by_cases hpath : key ∈ pathPlaceholders d.path
    · simp [hpath]
    · simp [hpath]

theorem distinct_distributeInput {input : Dict} (h : input.Distinct) (place : ParameterIn) :
    ((distributeInput d.method d.parameters d.path input).at place).Distinct := by
  have hnil : ∀ place, ((⟨[], [], []⟩ : Buckets).at place).Distinct := by
    intro place
    cases place <;> exact List.nodup_nil
  have hpayload : Dict.Distinct (input.filter fun kv => kv.1 ∉ pathPlaceholders d.path) :=
    h.filter _
  unfold distributeInput
  by_cases hempty : d.parameters.isEmpty = true
  · simp only [hempty, if_true]
    cases d.method.hasBody with
    | true => cases place <;> first | exact hpayload | exact List.nodup_nil
    | false => cases place <;> first | exact hpayload | exact List.nodup_nil
  · simp only [hempty, if_false, Bool.false_eq_true]
    exact distinct_distributeAll d.parameters hnil place

theorem directed_iff {p : ParameterDef} (hp : p ∈ d.parameters) (hne : p.name ≠ "")
    (hagree : ∀ q ∈ d.parameters, q.name = p.name → q.in_ = p.in_) (place : ParameterIn) :
    Directed d p.name place ↔ p.name ∉ pathPlaceholders d.path ∧ place = p.in_ := by
  have hnonempty : d.parameters.isEmpty = false := by
    cases hparameters : d.parameters with
    | nil => rw [hparameters] at hp; cases hp
    | cons => rfl
  rw [Directed, hnonempty, if_neg Bool.false_ne_true]
  refine and_congr_right fun _ => ⟨?_, ?_⟩
  · rintro ⟨-, q, hq, hname, rfl⟩
    exact hagree q hq hname
  · rintro rfl
    exact ⟨hne, p, hp, rfl, rfl⟩

theorem distinct_headerTexts {values : Dict} (h : values.Distinct) :
    (headerTexts repr values).Distinct := h.map fun v => .str (textOf repr v)

theorem get_headerTexts (values : Dict) (key : String) : (headerTexts repr values).get key =
    (values.get key).map fun v => .str (textOf repr v) :=
  Dict.get_map (fun v => .str (textOf repr v)) values key

theorem keys_mapStringsFields (f : String → Json) : ∀ fields : Dict,
    (mapStringsFields f fields).map Prod.fst = fields.map Prod.fst
  | [] => rfl
  | (key, value) :: fields => by
    rw [mapStringsFields, List.map_cons, List.map_cons, keys_mapStringsFields f fields]

/-- The path parameters of a request that was assembled are there and not null. -/
theorem pathValue_eq_ok_iff {payload : Dict} {key : String} {text : List Char} :
    pathValue repr payload key = .ok text ↔
      ∃ value, payload.get key = some value ∧ value ≠ .null ∧
        text = (strOf repr value).toList := by
  unfold pathValue
  cases payload.get key with
  | none => simp
  | some value => cases value <;> simp [eq_comm]

theorem pathValue_eq_error {payload : Dict} {key message : String}
    (h : pathValue repr payload key = .error message) :
    (payload.get key = none ∧ message = "path parameter '" ++ key ++ "' missing from input") ∨
      (payload.get key = some .null ∧
        message = "path parameter '" ++ key ++ "' must not be null") := by
  rw [pathValue] at h
  split at h
  case h_1 hnone => exact .inl ⟨hnone, (Except.error.inj h).symm⟩
  case h_2 hnull => exact .inr ⟨hnull, (Except.error.inj h).symm⟩
  case h_3 => cases h

/-- A request that is not assembled says which path parameter the input leaves out. -/
theorem assemble_eq_error {raw : Dict} {message : String}
    (h : assemble repr d baseUrl raw = .error message) : ∃ key ∈ pathPlaceholders d.path,
      let value := (applyParameterDefaults d.parameters raw).get key
      (value = none ∧ message = "path parameter '" ++ key ++ "' missing from input") ∨
        (value = some .null ∧ message = "path parameter '" ++ key ++ "' must not be null") := by
  rw [assemble, map_eq_error_iff, substitutePathParams, map_eq_error_iff] at h
  obtain ⟨key, hkey, herror⟩ := exists_of_fillOr_error h
  exact ⟨key, hkey, pathValue_eq_error herror⟩

/-- The path is rewritten just when its parameters are there and not null. -/
theorem assemble_isOk_iff {raw : Dict} : (∃ a, assemble repr d baseUrl raw = .ok a) ↔
    ∀ key ∈ pathPlaceholders d.path, ∃ value,
      (applyParameterDefaults d.parameters raw).get key = some value ∧ value ≠ .null := by
  have hok : (∃ text, fillOr (pathValue repr (applyParameterDefaults d.parameters raw))
      (partsOf d.path) = .ok text) ↔ ∀ key ∈ pathPlaceholders d.path, ∃ value,
        (applyParameterDefaults d.parameters raw).get key = some value ∧ value ≠ .null := by
    rw [fillOr_isOk_iff]
    refine forall_congr' fun key => forall_congr' fun _ => ?_
    constructor
    · rintro ⟨text, htext⟩
      obtain ⟨value, hvalue, hne, -⟩ := pathValue_eq_ok_iff.mp htext
      exact ⟨value, hvalue, hne⟩
    · rintro ⟨value, hvalue, hne⟩
      exact ⟨_, pathValue_eq_ok_iff.mpr ⟨value, hvalue, hne, rfl⟩⟩
  simp only [← hok, assemble, substitutePathParams, map_isOk_iff]

/-- What is assembled, part by part. -/
theorem assemble_eq_ok {raw : Dict} {a : Assembled} (h : assemble repr d baseUrl raw = .ok a) :
    let input := applyParameterDefaults d.parameters raw
    let buckets := distributeInput d.method d.parameters d.path input
    a = { url := joinUrl baseUrl (fill (pathText repr input) (partsOf d.path))
          query := buckets.query
          header := buckets.header
          body := unconsumed d.fixedBody buckets.body
          fixedHeaders := mapStringsFields (interpolateText repr input) d.fixedHeaders
          fixedBody := interpolate repr input d.fixedBody } := by
  have hpath := assemble_isOk_iff.mp ⟨a, h⟩
  rw [assemble, substitutePathParams, fillOr_eq_ok fun key hkey => ?_] at h
  · exact (Except.ok.inj h).symm
  · obtain ⟨value, hvalue, hne⟩ := hpath key hkey
    rw [pathValue_eq_ok_iff.mpr ⟨value, hvalue, hne, rfl⟩, pathText, hvalue]

theorem get_unconsumed (fixedBody : Json) (bodyVals : Dict) (key : String) :
    (unconsumed fixedBody bodyVals).get key =
      if key ∈ templatePlaceholders fixedBody then none else bodyVals.get key := by
  unfold unconsumed
  split
  case isTrue hnull =>
    subst hnull
    rw [if_neg]
    exact List.not_mem_nil
  case isFalse =>
    simpa using Dict.get_filter (fun k => k ∉ templatePlaceholders fixedBody) bodyVals key

theorem distinct_unconsumed {fixedBody : Json} {bodyVals : Dict} (h : bodyVals.Distinct) :
    (unconsumed fixedBody bodyVals).Distinct := by
  unfold unconsumed
  split
  · exact h
  · exact h.filter _

/-- The fields of a merged body, where the fixed body is an object or missing. -/
theorem bodyField_mergeBody {fixedBody : Json} {fields bodyVals : Dict}
    (hfields : fixedFields fixedBody = some fields) (h : bodyVals.Distinct) (key : String) :
    bodyField (mergeBody fixedBody bodyVals) key = (bodyVals.get key).or (fields.get key) := by
  cases fixedBody with
  | null =>
    obtain rfl := Option.some.inj hfields
    cases bodyVals with
    | nil => rfl
    | cons kv rest => exact Option.or_none.symm
  | obj fixed =>
    obtain rfl := Option.some.inj hfields
    exact Dict.get_update_of_distinct fixed h key
  | _ => cases hfields

/-- Interpolating keeps a fixed body an object, or missing. -/
theorem fixedFields_interpolate {input : Dict} {fixedBody : Json} {fields : Dict}
    (h : fixedFields fixedBody = some fields) :
    fixedFields (interpolate repr input fixedBody) =
      some (mapStringsFields (interpolateText repr input) fields) := by
  cases fixedBody with
  | null =>
    obtain rfl := Option.some.inj h
    rfl
  | obj fixed =>
    obtain rfl := Option.some.inj h
    rfl
  | _ => cases h

/-- What the input has for the keys that count decides the request. -/
theorem assemble_congr {raw other : Dict} (hdeclared : d.parameters ≠ []) (key : String)
    (hname : ∀ p ∈ d.parameters, p.name ≠ key) (hpath : key ∉ pathPlaceholders d.path)
    (hbody : key ∉ templatePlaceholders d.fixedBody)
    (hheaders : key ∉ templatePlaceholders (.obj d.fixedHeaders))
    (hsame : ∀ k, k ≠ key → raw.get k = other.get k) :
    assemble repr d baseUrl raw = assemble repr d baseUrl other := by
  have heffective (k : String) (hk : k ≠ key) :
      (applyParameterDefaults d.parameters raw).get k =
        (applyParameterDefaults d.parameters other).get k :=
    get_applyParameterDefaults_congr (hsame k hk)
  have hpayload (k : String) (hk : k ≠ key) :
      Dict.get ((applyParameterDefaults d.parameters raw).filter
        fun kv => kv.1 ∉ pathPlaceholders d.path) k =
      Dict.get ((applyParameterDefaults d.parameters other).filter
        fun kv => kv.1 ∉ pathPlaceholders d.path) k := by
    have hraw := Dict.get_filter (fun k => decide (k ∉ pathPlaceholders d.path))
      (applyParameterDefaults d.parameters raw) k
    have hother := Dict.get_filter (fun k => decide (k ∉ pathPlaceholders d.path))
      (applyParameterDefaults d.parameters other) k
    rw [hraw, hother, heffective k hk]
  have hbuckets : distributeInput d.method d.parameters d.path
      (applyParameterDefaults d.parameters raw) =
        distributeInput d.method d.parameters d.path
          (applyParameterDefaults d.parameters other) := by
    unfold distributeInput
    simp only [List.isEmpty_iff, hdeclared, if_false]
    refine List.foldl_ext _ _ _ fun b p hp => ?_
    rw [distribute, distribute, hpayload p.name (hname p hp)]
  have hurl : fillOr (pathValue repr (applyParameterDefaults d.parameters raw)) (partsOf d.path) =
      fillOr (pathValue repr (applyParameterDefaults d.parameters other)) (partsOf d.path) := by
    refine fillOr_congr fun k hk => ?_
    rw [pathValue, pathValue, heffective k fun heq => hpath (heq ▸ hk)]
  have hfixedBody : interpolate repr (applyParameterDefaults d.parameters raw) d.fixedBody =
      interpolate repr (applyParameterDefaults d.parameters other) d.fixedBody :=
    interpolate_congr fun k hk => heffective k fun heq => hbody (heq ▸ hk)
  have hfixedHeaders : interpolate repr (applyParameterDefaults d.parameters raw)
      (.obj d.fixedHeaders) =
        interpolate repr (applyParameterDefaults d.parameters other) (.obj d.fixedHeaders) :=
    interpolate_congr fun k hk => heffective k fun heq => hheaders (heq ▸ hk)
  unfold assemble substitutePathParams
  simp only [hurl, hbuckets, hfixedBody, Json.obj.inj hfixedHeaders]
  cases fillOr (pathValue repr (applyParameterDefaults d.parameters other)) (partsOf d.path) <;> rfl

variable (prepared : PreparedRequest)

theorem get_headers {a : Assembled} (hfixed : a.fixedHeaders.Distinct) (hheader : a.header.Distinct)
    (key : String) : (requestKwargs repr d a prepared).headers.get key =
      (prepared.headers.get key).or
        (((a.header.get key).map fun value => .str (textOf repr value)).or
          (((a.fixedHeaders.get key).map fun value => .str (textOf repr value)).or
            (defaultHeaders.get key))) := by
  rw [requestKwargs, Dict.get_update_of_distinct _ prepared.headersDistinct,
    Dict.get_update_of_distinct _ (distinct_headerTexts hheader),
    Dict.get_update_of_distinct _ (distinct_headerTexts hfixed), get_headerTexts, get_headerTexts]

theorem get_params {a : Assembled} (hquery : a.query.Distinct) (key : String) :
    (requestKwargs repr d a prepared).params.get key =
      ((a.query.get key).filter (· ≠ .null)).or (prepared.params.get key) := by
  have hvalue := Dict.get_filter_value hquery (fun value => decide (value ≠ .null)) key
  rw [requestKwargs, Dict.get_update_of_distinct _ (hquery.filter _), hvalue]

variable (repr d baseUrl)

/-- The request has the value of every key where it is directed to or named, and nowhere else. -/
theorem request_placed {raw : Dict} (hraw : raw.Distinct) {a : Assembled}
    (h : assemble repr d baseUrl raw = .ok a) :
    Placed repr d baseUrl prepared raw (requestKwargs repr d a prepared) := by
  have hinput := distinct_applyParameterDefaults d.parameters hraw
  have hpath := assemble_isOk_iff.mp ⟨a, h⟩
  have ha := assemble_eq_ok h
  simp only at ha
  have hfixed : a.fixedHeaders.Distinct := by
    rw [ha, Dict.Distinct, keys_mapStringsFields]
    exact d.distinct
  have hheader : a.header.Distinct := by
    rw [ha]
    exact distinct_distributeInput hinput .header
  have hquery : a.query.Distinct := by
    rw [ha]
    exact distinct_distributeInput hinput .query
  have hbody : (distributeInput d.method d.parameters d.path
      (applyParameterDefaults d.parameters raw)).body.Distinct :=
    distinct_distributeInput hinput .body
  refine ⟨⟨hpath, by rw [requestKwargs, ha]⟩, fun key => ?_, fun key => ?_,
    fun hmethod fields hfields key => ?_, fun p hp hne hagree => directed_iff hp hne hagree,
    fun key hdeclared hname hkey hbodyKey hheaderKey other hsame =>
      assemble_congr hdeclared key hname hkey hbodyKey hheaderKey hsame⟩
  · have hsent := get_distributeInput (d := d) (applyParameterDefaults d.parameters raw) .query
      (by decide) key
    rw [get_params prepared hquery, ← hsent, ha]
    rfl
  · intro input
    have hsent := get_distributeInput (d := d) input .header (by decide) key
    have hfixedKey : a.fixedHeaders.get key =
        (d.fixedHeaders.get key).map (interpolate repr input) := by
      rw [ha]
      exact get_mapStringsFields key d.fixedHeaders
    rw [get_headers prepared hfixed hheader, ← hsent, hfixedKey, Option.map_map, ha]
    rfl
  · intro input
    have hsent := get_distributeInput (d := d) input .body (by decide) key
    have hmerged : (requestKwargs repr d a prepared).json = mergeBody a.fixedBody a.body := by
      rw [requestKwargs, hmethod, if_pos rfl]
    rw [hmerged, ha, bodyField_mergeBody (fixedFields_interpolate hfields)
      (distinct_unconsumed hbody), get_unconsumed, ← hsent, get_mapStringsFields]
    rfl

/-- A search over the fields of a fixed body, of which only `limit` is declared. -/
def searchOperation : OperationDefinition where
  method := .post
  path := "/search"
  parameters := [⟨"limit", .integer, "", true, .query, none, none, none, .null⟩]
  fixedHeaders := []
  fixedBody := .obj [("filter", .str "\x7bskill\x7d")]
  distinct := List.nodup_nil

/-- No authentication. -/
def noAuth : PreparedRequest := ⟨[], [], none, List.nodup_nil, List.nodup_nil⟩

theorem search_placed : ∃ a, assemble (fun _ => "5") searchOperation "https://api.test"
    [("limit", .num 5), ("skill", .str "lean")] = .ok a ∧
      Placed (fun _ => "5") searchOperation "https://api.test" noAuth
        [("limit", .num 5), ("skill", .str "lean")]
        (requestKwargs (fun _ => "5") searchOperation a noAuth) :=
  ⟨_, rfl, request_placed _ _ _ _ (by decide) rfl⟩

/-- `skill` is no parameter and no placeholder of the path, and the body has it. -/
theorem undeclared_skill_sent : ¬ ∀ raw other : Dict, (∀ k, k ≠ "skill" → raw.get k = other.get k) →
    assemble (fun _ => "5") searchOperation "https://api.test" raw =
      assemble (fun _ => "5") searchOperation "https://api.test" other := by
  intro h
  have hsame := h [("limit", .num 5), ("skill", .str "lean")] [("limit", .num 5)] fun k hk => by
    simp [Dict.get, Ne.symm hk]
  have hbody (raw : Dict) : (assemble (fun _ => "5") searchOperation "https://api.test" raw).map
      (fun a => a.fixedBody) =
        .ok (interpolate (fun _ => "5") (applyParameterDefaults searchOperation.parameters raw)
          searchOperation.fixedBody) := by
    rfl
  have hfixed := congrArg (Except.map fun a => a.fixedBody) hsame
  rw [hbody, hbody] at hfixed
  revert hfixed
  decide +kernel

end LunaCore.Connectors
