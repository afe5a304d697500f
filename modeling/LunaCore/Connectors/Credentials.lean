import LunaCore.Connectors.Placement
import LunaCore.Flow.NodeConfig

/-! The credential of a connector, and the request it is put into.

    api_key   bearer    Authorization: Bearer <token>
              header    <header_name>: <token>
              query     ?<param_name>=<token>
    basic               Authorization: Basic <username:password>, by the HTTP client
    oauth2              Authorization: Bearer <access_token>

    The dict of the headers tells names apart by letter case, HTTP does not. The headers of the
    credential are merged over the others, the query parameter of it is merged under the others. -/

namespace LunaCore.Connectors
open LunaCore.Schemes LunaCore.Values
open LunaCore.Flow (truthy getOr)

inductive AuthType where
  | none
  | apiKey
  | basic
  | oauth2
  deriving DecidableEq

/-- What a call of an operation raises; `foreign` is anything else the HTTP client does. -/
inductive Raised where
  | connectorExecutionError (message : String)
  | connectorAuthError (message : String)
  | httpError (message : String)
  | attributeError
  | typeError
  | keyError
  | valueError
  | overflowError
  | recursionError
  | foreign
  deriving DecidableEq

variable (repr : Json → String) (lower : String → String)

/-- `PreparedRequest(headers={name: value}, params={})`. -/
def inHeader (name value : String) : PreparedRequest where
  headers := [(name, .str value)]
  params := []
  basicAuth := none
  headersDistinct := List.nodup_singleton _
  paramsDistinct := List.nodup_nil

/-- `PreparedRequest(headers={}, params={name: value})`. -/
def inQuery (name value : String) : PreparedRequest where
  headers := []
  params := [(name, .str value)]
  basicAuth := none
  headersDistinct := List.nodup_nil
  paramsDistinct := List.nodup_singleton _

def bearer (token : Json) : PreparedRequest :=
  inHeader "Authorization" ("Bearer " ++ strOf repr token)

/-- `creds.get("token") or creds.get("api_key")`. -/
def apiToken (creds : Dict) : Json := getOr creds "token" ((creds.get "api_key").getD .null)

/-- `_prepare_api_key`. -/
def prepareApiKey (creds : Dict) : Except Raised PreparedRequest :=
  let token := apiToken creds
  if truthy token = false then
    .error (.connectorAuthError "api_key auth requires credentials.token (or .api_key)")
  else match getOr creds "scheme" (.str "bearer") with
    | .str text =>
      let scheme := lower text
      if scheme = "bearer" then .ok (bearer repr token)
      else if scheme = "header" then
        .ok (inHeader (strOf repr (getOr creds "header_name" (.str "X-API-Key")))
          (strOf repr token))
      else if scheme = "query" then
        .ok (inQuery (strOf repr (getOr creds "param_name" (.str "api_key"))) (strOf repr token))
      else .error (.connectorAuthError
        ("unknown api_key scheme '" ++ scheme ++ "' (expected bearer|header|query)"))
    | _ => .error .attributeError

/-- `_prepare_basic`. -/
def prepareBasic (creds : Dict) : Except Raised PreparedRequest :=
  match (creds.get "username").getD .null, (creds.get "password").getD .null with
  | .null, _ | _, .null => .error (.connectorAuthError
      "basic auth requires credentials.username and credentials.password")
  | username, password =>
    .ok { noAuth with basicAuth := some (strOf repr username, strOf repr password) }

/-- The request of an oauth2 connector, by the credentials after any refresh. -/
def bearerOf (creds : Dict) : Except Raised PreparedRequest := match creds.get "access_token" with
  | some token => .ok (bearer repr token)
  | none => .error .keyError

/-- `prepare`; `current` gives an oauth2 connector its credentials, refreshed where they have to
    be. -/
def prepare (current : Dict → Except Raised Dict) (authType : AuthType) (creds : Dict) :
    Except Raised PreparedRequest := match authType with
  | .none => .ok noAuth
  | .apiKey => prepareApiKey repr lower creds
  | .basic => prepareBasic repr creds
  | .oauth2 => (current creds).bind (bearerOf repr)

/-! ### Where the credential stands -/

/-- The header of the credential. -/
def authHeader (authType : AuthType) (creds : Dict) : Option String := match authType with
  | .oauth2 => some "Authorization"
  | .apiKey => match getOr creds "scheme" (.str "bearer") with
    | .str text =>
      if lower text = "bearer" then some "Authorization"
      else if lower text = "header" then
        some (strOf repr (getOr creds "header_name" (.str "X-API-Key")))
      else none
    | _ => none
  | _ => none

/-- The query parameter of the credential. -/
def authParam (authType : AuthType) (creds : Dict) : Option String := match authType with
  | .apiKey => match getOr creds "scheme" (.str "bearer") with
    | .str text =>
      if lower text = "query" then some (strOf repr (getOr creds "param_name" (.str "api_key")))
      else none
    | _ => none
  | _ => none

/-- HTTP takes two header names for one. -/
def sameHeader (name other : String) : Bool := name.toLower = other.toLower

/-- The request has the credential as it was prepared: of the names that HTTP takes for that of its
    header there is that one, and so of the parameters with the name of its parameter. -/
structure CarriesCredential (prepared : PreparedRequest) (r : RequestKwargs) : Prop where
  header : ∀ name value, prepared.headers.get name = some value →
    (r.headers.filter fun kv => sameHeader name kv.1) = [(name, value)]
  query : ∀ name value, prepared.params.get name = some value →
    (r.params.filter fun kv => kv.1 = name) = [(name, value)]
  basic : r.auth = prepared.basicAuth

/-- No other header has the name of the credential's in other letters, and no query value has that
    of its parameter, but for null and the credential itself. -/
structure Unshadowed (authType : AuthType) (creds : Dict) (d : OperationDefinition)
    (input : Dict) : Prop where
  header : ∀ name ∈ authHeader repr lower authType creds, ∀ other, sameHeader name other = true →
    (defaultHeaders.get other).isSome ∨ (d.fixedHeaders.get other).isSome ∨
      (sentAt d input .header other).isSome → other = name
  query : ∀ name ∈ authParam repr lower authType creds, ∀ value ∈ sentAt d input .query name,
    value = .null ∨ value = .str (strOf repr (apiToken creds))

/-! ### What is prepared -/

/-- What is prepared has the header and the parameter of the credential, and no others. -/
structure PreparedAs (authType : AuthType) (creds : Dict) (prepared : PreparedRequest) : Prop where
  header : ∀ name, (prepared.headers.get name).isSome ↔ name ∈ authHeader repr lower authType creds
  query : ∀ name, prepared.params.get name =
    if name ∈ authParam repr lower authType creds then some (.str (strOf repr (apiToken creds)))
    else none

variable {repr lower}

theorem isSome_get_inHeader {name value key : String} :
    ((inHeader name value).headers.get key).isSome ↔ name = key := by
  by_cases h : name = key
  · simp [inHeader, Dict.get, h]
  · simp [inHeader, Dict.get, h]

theorem get_inQuery {name value key : String} :
    (inQuery name value).params.get key = if name = key then some (.str value) else none := by
  by_cases h : name = key
  · simp [inQuery, Dict.get, h]
  · simp [inQuery, Dict.get, h]

theorem preparedAs_bearer {authType : AuthType} {creds : Dict} {token : Json}
    (hheader : authHeader repr lower authType creds = some "Authorization")
    (hparam : authParam repr lower authType creds = none) :
    PreparedAs repr lower authType creds (bearer repr token) where
  header name := by simp [bearer, isSome_get_inHeader, hheader]
  query name := by simp [bearer, inHeader, Dict.get, hparam]

theorem preparedAs_apiKey {creds : Dict} {prepared : PreparedRequest}
    (h : prepareApiKey repr lower creds = .ok prepared) :
    PreparedAs repr lower .apiKey creds prepared := by
  simp only [prepareApiKey] at h
  split at h
  case isTrue => cases h
  case isFalse =>
    split at h
    case h_2 => cases h
    case h_1 text hscheme =>
      split at h
      case isTrue hbearer =>
        obtain rfl := Except.ok.inj h
        exact preparedAs_bearer (by simp [authHeader, hscheme, hbearer])
          (by simp [authParam, hscheme, hbearer])
      case isFalse hbearer =>
        split at h
        case isTrue hheader =>
          obtain rfl := Except.ok.inj h
          constructor
          · intro name
            simp [isSome_get_inHeader, authHeader, hscheme, hheader]
          · intro name
            simp [inHeader, Dict.get, authParam, hscheme, hheader]
        case isFalse hheader =>
          split at h
          case isFalse => cases h
          case isTrue hquery =>
            obtain rfl := Except.ok.inj h
            constructor
            · intro name
              simp [inQuery, Dict.get, authHeader, hscheme, hbearer, hheader]
            · intro name
              simp [get_inQuery, authParam, hscheme, hquery]

theorem preparedAs_of_prepare {current : Dict → Except Raised Dict} {authType : AuthType}
    {creds : Dict} {prepared : PreparedRequest}
    (h : prepare repr lower current authType creds = .ok prepared) :
    PreparedAs repr lower authType creds prepared := by
  cases authType with
  | none =>
    obtain rfl := Except.ok.inj h
    exact ⟨fun _ => by simp [noAuth, Dict.get, authHeader], fun _ => by
      simp [noAuth, Dict.get, authParam]⟩
  | apiKey => exact preparedAs_apiKey h
  | basic =>
    simp only [prepare, prepareBasic] at h
    split at h
    case h_3 =>
      obtain rfl := Except.ok.inj h
      exact ⟨fun _ => by simp [noAuth, Dict.get, authHeader], fun _ => by
        simp [noAuth, Dict.get, authParam]⟩
    all_goals cases h
  | oauth2 =>
    obtain ⟨merged, -, hbearer⟩ := bind_eq_ok_iff.mp h
    rw [bearerOf] at hbearer
    split at hbearer
    case h_2 => cases hbearer
    case h_1 token _ =>
      obtain rfl := Except.ok.inj hbearer
      exact preparedAs_bearer rfl rfl

/-! ### What is sent -/

/-- All the entries whose key counts as this one are this one. -/
theorem filter_eq_singleton_iff {entries : Dict} (h : entries.Distinct) {name : String}
    {value : Json} (hname : entries.get name = some value) (same : String → Bool)
    (hself : same name = true) :
    (entries.filter fun kv => same kv.1) = [(name, value)] ↔
      ∀ other, same other = true → (entries.get other).isSome → other = name := by
  constructor
  · intro hfilter other hsame hother
    obtain ⟨found, hfound⟩ := Option.isSome_iff_exists.mp hother
    have hmem : (other, found) ∈ entries.filter fun kv => same kv.1 :=
      List.mem_filter.mpr ⟨Dict.mem_of_get hfound, hsame⟩
    rw [hfilter, List.mem_singleton] at hmem
    exact congrArg Prod.fst hmem
  · intro honly
    rw [← Dict.filter_key h hname]
    refine List.filter_congr fun kv hkv => ?_
    have hget : entries.get kv.1 = some kv.2 := h.get_of_mem hkv
    rw [Bool.eq_iff_iff, decide_eq_true_iff]
    constructor
    · intro hsame
      exact honly kv.1 hsame (by rw [hget]; rfl)
    · intro heq
      rw [heq]
      exact hself

theorem sameHeader_self (name : String) : sameHeader name name = true := by simp [sameHeader]

theorem sameHeader_iff {name other : String} : sameHeader name other = true ↔
    name.toList.map Char.toLower = other.toList.map Char.toLower := by
  have hlower (s : String) : s.toLower.toList = s.toList.map Char.toLower := String.toList_map
  rw [sameHeader, decide_eq_true_iff, ← String.toList_inj, hlower, hlower]

variable {d : OperationDefinition} {baseUrl : String} {raw : Dict} {a : Assembled}

/-- Each name of a header that is sent is from the credential, the input, the fixed headers or the
    defaults. -/
theorem isSome_get_headers (hraw : raw.Distinct) (h : assemble repr d baseUrl raw = .ok a)
    (prepared : PreparedRequest) (name : String) :
    ((requestKwargs repr d a prepared).headers.get name).isSome ↔
      (prepared.headers.get name).isSome ∨ (defaultHeaders.get name).isSome ∨
        (d.fixedHeaders.get name).isSome ∨
        (sentAt d (applyParameterDefaults d.parameters raw) .header name).isSome := by
  rw [(request_placed repr d baseUrl prepared hraw h).header name]
  simp only [Option.isSome_or, Option.isSome_map, Bool.or_eq_true]
  tauto

theorem distinct_headers (prepared : PreparedRequest) :
    (requestKwargs repr d a prepared).headers.Distinct := by
  have hdefaults : defaultHeaders.Distinct := by decide
  exact ((hdefaults.update _).update _).update _

theorem distinct_params (prepared : PreparedRequest) :
    (requestKwargs repr d a prepared).params.Distinct := prepared.paramsDistinct.update _

/-- A header of the credential is sent as prepared when no other name is taken for it. -/
theorem carriesHeader_iff (hraw : raw.Distinct) (h : assemble repr d baseUrl raw = .ok a)
    {prepared : PreparedRequest} {name : String} {value : Json}
    (hname : prepared.headers.get name = some value)
    (honly : ∀ other, (prepared.headers.get other).isSome → other = name) :
    ((requestKwargs repr d a prepared).headers.filter fun kv => sameHeader name kv.1) =
      [(name, value)] ↔
    ∀ other, sameHeader name other = true →
      (defaultHeaders.get other).isSome ∨ (d.fixedHeaders.get other).isSome ∨
        (sentAt d (applyParameterDefaults d.parameters raw) .header other).isSome →
      other = name := by
  have hsent : (requestKwargs repr d a prepared).headers.get name = some value := by
    rw [(request_placed repr d baseUrl prepared hraw h).header name, hname, Option.some_or]
  rw [filter_eq_singleton_iff (distinct_headers prepared) hsent (sameHeader name)
    (sameHeader_self name)]
  refine forall_congr' fun other => forall_congr' fun _ => ?_
  rw [isSome_get_headers hraw h]
  exact ⟨fun hall hothers => hall (.inr hothers), fun hall => Or.rec (honly other) hall⟩

/-- A parameter of the credential is sent as prepared when no query value is put over it. -/
theorem carriesParam_iff (hraw : raw.Distinct) (h : assemble repr d baseUrl raw = .ok a)
    {prepared : PreparedRequest} {name : String} {value : Json}
    (hname : prepared.params.get name = some value) :
    ((requestKwargs repr d a prepared).params.filter fun kv => kv.1 = name) = [(name, value)] ↔
    ∀ other ∈ sentAt d (applyParameterDefaults d.parameters raw) .query name,
      other = .null ∨ other = value := by
  have hsent := (request_placed repr d baseUrl prepared hraw h).query name
  rw [hname] at hsent
  have hone : ((requestKwargs repr d a prepared).params.filter fun kv => kv.1 = name) =
      [(name, value)] ↔ (requestKwargs repr d a prepared).params.get name = some value := by
    constructor
    · intro hfilter
      have hmem : (name, value) ∈ (requestKwargs repr d a prepared).params.filter
          fun kv => kv.1 = name := by
        rw [hfilter]
        exact List.mem_singleton_self _
      exact (distinct_params prepared).get_of_mem (List.mem_filter.mp hmem).1
    · exact Dict.filter_key (distinct_params prepared)
  rw [hone, hsent]
  cases sentAt d (applyParameterDefaults d.parameters raw) .query name with
  | none => simp
  | some other =>
    simp only [Option.mem_def, Option.some.injEq, forall_eq']
    by_cases hnull : other = .null
    · simp [hnull, Option.filter]
    · simp [hnull, Option.filter]

variable (repr lower d baseUrl)

/-- The request carries the credential just when nothing else has its name. -/
theorem carriesCredential_iff {current : Dict → Except Raised Dict} {authType : AuthType}
    {creds : Dict} {prepared : PreparedRequest} {raw : Dict} {a : Assembled}
    (hprepared : prepare repr lower current authType creds = .ok prepared)
    (hraw : raw.Distinct) (h : assemble repr d baseUrl raw = .ok a) :
    CarriesCredential prepared (requestKwargs repr d a prepared) ↔
      Unshadowed repr lower authType creds d (applyParameterDefaults d.parameters raw) := by
  have has := preparedAs_of_prepare hprepared
  constructor
  · intro hcarries
    constructor
    · intro name hname
      obtain ⟨value, hvalue⟩ := Option.isSome_iff_exists.mp ((has.header name).mpr hname)
      refine (carriesHeader_iff hraw h hvalue fun other hother => ?_).mp
        (hcarries.header name value hvalue)
      exact Option.mem_unique ((has.header other).mp hother) hname
    · intro name hname
      have hvalue := has.query name
      rw [if_pos hname] at hvalue
      exact (carriesParam_iff hraw h hvalue).mp (hcarries.query name _ hvalue)
  · intro hunshadowed
    refine ⟨?_, ?_, rfl⟩
    · intro name value hvalue
      have hname := (has.header name).mp (by rw [hvalue]; rfl)
      refine (carriesHeader_iff hraw h hvalue fun other hother => ?_).mpr
        (hunshadowed.header name hname)
      exact Option.mem_unique ((has.header other).mp hother) hname
    · intro name value hvalue
      have hquery := has.query name
      rw [hvalue] at hquery
      split at hquery
      case isFalse => cases hquery
      case isTrue hname =>
        obtain rfl := Option.some.inj hquery
        exact (carriesParam_iff hraw h hvalue).mpr (hunshadowed.query name hname)

/-- A search whose caller can give a header `authorization`. -/
def searchAs : OperationDefinition where
  method := .get
  path := "/search"
  parameters := [⟨"authorization", .string, "", false, .header, none, none, none, .null⟩]
  fixedHeaders := []
  fixedBody := .null
  distinct := List.nodup_nil

/-- Without it the token is the only one. -/
theorem searchAs_carries : ∃ a, assemble (fun _ => "") searchAs "https://api.test" [] = .ok a ∧
    CarriesCredential (bearer (fun _ => "") (.str "s3cret"))
      (requestKwargs (fun _ => "") searchAs a (bearer (fun _ => "") (.str "s3cret"))) := by
  refine ⟨_, rfl, (carriesCredential_iff (fun _ => "") String.toLower searchAs "https://api.test"
    (rfl : prepare _ _ .ok .oauth2 [("access_token", .str "s3cret")] = .ok _)
    (by decide) rfl).mpr ⟨?_, nofun⟩⟩
  intro name hname other hsame hthere
  obtain rfl := Option.some.inj hname
  rcases hthere with hdefault | hfixed | hsent
  · rw [Option.isSome_iff_exists] at hdefault
    obtain ⟨value, hvalue⟩ := hdefault
    have hmem := Dict.mem_of_get hvalue
    simp only [defaultHeaders, List.mem_cons, Prod.mk.injEq, List.not_mem_nil, or_false] at hmem
    rcases hmem with ⟨rfl, -⟩ | ⟨rfl, -⟩
    · exact absurd (sameHeader_iff.mp hsame) (by decide)
    · exact absurd (sameHeader_iff.mp hsame) (by decide)
  · cases hfixed
  · rw [sentAt] at hsent
    split at hsent <;> cases hsent

/-- A caller who gives one has two `Authorization` headers sent. -/
theorem second_authorization_sent : ∃ a, assemble (fun _ => "") searchAs "https://api.test"
    [("authorization", .str "Bearer other")] = .ok a ∧
      prepare (fun _ => "") String.toLower .ok .oauth2 [("access_token", .str "s3cret")] =
        .ok (bearer (fun _ => "") (.str "s3cret")) ∧
      ¬ CarriesCredential (bearer (fun _ => "") (.str "s3cret"))
        (requestKwargs (fun _ => "") searchAs a (bearer (fun _ => "") (.str "s3cret"))) := by
  refine ⟨_, rfl, rfl, fun h => ?_⟩
  have hone := h.header "Authorization" (.str "Bearer s3cret") (by decide +kernel)
  have hother : ("authorization", Json.str "Bearer other") ∈
      [("Authorization", Json.str "Bearer s3cret")] := by
    rw [← hone, List.mem_filter]
    exact ⟨by decide +kernel, sameHeader_iff.mpr (by decide)⟩
  revert hother
  decide

end LunaCore.Connectors
