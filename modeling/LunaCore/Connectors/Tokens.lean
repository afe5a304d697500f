import LunaCore.Connectors.Credentials

/-! The tokens of an oauth2 connector: which are fresh, and what a refresh makes of them.

    creds       access_token  refresh_token  expires_at  token_url …
    request     grant_type=refresh_token&refresh_token=… ─▶ token_url
    patch       access_token  [refresh_token]  [expires_at = now + expires_in]
    merged      creds ◁ patch

    A token counts as fresh up to a minute before `expires_at`, and without one for good. Times are
    microseconds. -/

namespace LunaCore.Connectors
open LunaCore.Schemes LunaCore.Values
open LunaCore.Flow (truthy given getOr)

/-- What `datetime.fromisoformat` gives: a time, or one without a zone. -/
inductive Datetime where
  | aware (time : ℤ)
  | naive
  deriving DecidableEq

/-- The ISO 8601 texts of the standard library; `fromisoformat` gives nothing where it raises
    ValueError. -/
structure Iso where
  fromisoformat : String → Option Datetime
  isoformat : ℤ → String
  fromisoformat_isoformat : ∀ time, fromisoformat (isoformat time) = some (.aware time)
  zone : ∀ time, ∃ front, isoformat time = front ++ "+00:00"

/-- What `response.json()` comes to: the body, ValueError where it is no JSON, or RecursionError
    where it is nested too deep. -/
inductive Parsed where
  | body (value : Json)
  | valueError
  | recursionError

/-- A response of the upstream service or of the IdP. -/
structure Response where
  status : ℤ
  contentType : String
  content : List UInt8
  text : String
  json : Parsed

/-- What comes back from a request. -/
inductive Outcome where
  | response (r : Response)
  | raised (e : Raised)

/-- `_REFRESH_LEEWAY`. -/
def refreshLeeway : ℤ := 60 * 1000000

/-- The last time a datetime can have, 9999-12-31T23:59:59.999999Z. -/
def maxTime : ℤ := 253402300799999999

variable (repr : Json → String) (iso : Iso)

/-- A `Z` at the end is written as an offset. -/
def withOffset (text : String) : String :=
  if text.toList.getLast? = some 'Z' then
    String.ofList (text.toList.dropLast ++ "+00:00".toList)
  else text

/-- `_parse_datetime`. -/
def parseDatetime (raw : Json) : Option Datetime :=
  iso.fromisoformat (withOffset (strOf repr raw))

/-- `_access_token_is_fresh`. -/
def accessTokenIsFresh (now : ℤ) (creds : Dict) : Except Raised Bool :=
  if given creds "access_token" = false then .ok false
  else if given creds "expires_at" = false then .ok true
  else match parseDatetime repr iso ((creds.get "expires_at").getD .null) with
    | none => .ok false
    | some (.aware time) => .ok (decide (now + refreshLeeway < time))
    | some .naive => .error .typeError

/-! ### The token request -/

structure TokenRequest where
  url : String
  form : Dict
  auth : Option (String × String)

/-- A field of the form, where the credentials have it. -/
def formField (creds : Dict) (key : String) : Dict :=
  if given creds key then [(key, .str (strOf repr ((creds.get key).getD .null)))] else []

/-- What `_oauth2_refresh` posts. -/
def tokenRequest (creds : Dict) : TokenRequest where
  url := strOf repr ((creds.get "token_url").getD .null)
  form :=
    (if given creds "refresh_token" then
      ("grant_type", .str "refresh_token") :: formField repr creds "refresh_token"
    else [("grant_type", .str "client_credentials")]) ++
    formField repr creds "scope" ++ formField repr creds "client_id" ++
    formField repr creds "client_secret"
  auth :=
    if given creds "client_id" ∧ given creds "client_secret" then
      some (strOf repr ((creds.get "client_id").getD .null),
        strOf repr ((creds.get "client_secret").getD .null))
    else none

/-- `int(expires_in)`, where it is a number above 0. -/
def lifetime : Json → Option ℤ
  | .num q => if 0 < q then some q.floor else none
  | .bool true => some 1
  | _ => none

/-- The `expires_at` of a patch, where there is one. -/
def expiresAt (now : ℤ) (body : Dict) : Except Raised Dict :=
  match lifetime ((body.get "expires_in").getD .null) with
  | none => .ok []
  | some seconds =>
    if now + seconds * 1000000 ≤ maxTime then
      .ok [("expires_at", .str (iso.isoformat (now + seconds * 1000000)))]
    else .error .overflowError

/-- What `_oauth2_refresh` makes of the body of a good response. -/
def tokenPatch (now : ℤ) : Parsed → Except Raised Dict
  | .valueError => .error .valueError
  | .recursionError => .error .recursionError
  | .body (.obj body) => match Dict.get body "access_token" with
    | none => .error .keyError
    | some token => (expiresAt iso now body).map fun expiry =>
      ("access_token", token) ::
        (if given body "refresh_token" then
          [("refresh_token", (Dict.get body "refresh_token").getD .null)] else []) ++ expiry
  | .body _ => .error .typeError

/-- `_oauth2_refresh`, from its response on. -/
def oauth2Refresh (now : ℤ) : Outcome → Except Raised Dict
  | .raised e => .error e
  | .response r =>
    if 400 ≤ r.status then .error (.connectorAuthError ("oauth2 token refresh failed: HTTP " ++
      toString r.status ++ " " ++ String.ofList (r.text.toList.take 300)))
    else tokenPatch iso now r.json

/-- `{**creds, **new_tokens}`. -/
def merged (creds patch : Dict) : Dict := creds.update patch

/-! ### What a refresh brings -/

/-- What the IdP has issued. -/
structure Grant where
  accessToken : Json
  refreshToken : Option Json
  endsAt : Option ℤ

/-- What is issued by a response, of which the body is an object. -/
def grantOf (now : ℤ) : Outcome → Grant
  | .response ⟨_, _, _, _, .body (.obj body)⟩ =>
    { accessToken := (Dict.get body "access_token").getD .null
      refreshToken := if given body "refresh_token" then Dict.get body "refresh_token" else none
      endsAt := (lifetime ((Dict.get body "expires_in").getD .null)).map
        fun seconds => now + seconds * 1000000 }
  | _ => ⟨.null, none, none⟩

/-- What a patch has of a grant. -/
structure IsPatch (g : Grant) (patch : Dict) : Prop where
  distinct : patch.Distinct
  access : patch.get "access_token" = some g.accessToken
  refresh : patch.get "refresh_token" = g.refreshToken
  expiry : patch.get "expires_at" = g.endsAt.map fun time => .str (iso.isoformat time)

variable {repr iso}

theorem exists_of_given {config : Dict} {key : String} (h : given config key = true) :
    ∃ value, config.get key = some value ∧ truthy value = true := by
  unfold given at h
  cases hvalue : config.get key with
  | none => rw [hvalue] at h; cases h
  | some value => exact ⟨value, rfl, by simpa [hvalue] using h⟩

theorem expiresAt_eq_ok {now : ℤ} {body expiry : Dict} (h : expiresAt iso now body = .ok expiry) :
    expiry = (((lifetime ((body.get "expires_in").getD .null)).map
      fun seconds => now + seconds * 1000000).map
        fun time => ("expires_at", .str (iso.isoformat time))).toList := by
  unfold expiresAt at h
  split at h
  case h_1 hnone =>
    obtain rfl := Except.ok.inj h
    rw [hnone]
    rfl
  case h_2 seconds hseconds =>
    split at h
    case isFalse => cases h
    case isTrue =>
      obtain rfl := Except.ok.inj h
      rw [hseconds]
      rfl

theorem isPatch_fields {now : ℤ} {status : ℤ} {contentType text : String} {content : List UInt8}
    {body : Dict} {token : Json} (htoken : body.get "access_token" = some token) :
    IsPatch iso (grantOf now (.response ⟨status, contentType, content, text, .body (.obj body)⟩))
      (("access_token", token) :: (if given body "refresh_token" then
          [("refresh_token", (body.get "refresh_token").getD .null)] else []) ++
        (((lifetime ((body.get "expires_in").getD .null)).map
          fun seconds => now + seconds * 1000000).map
            fun time => ("expires_at", .str (iso.isoformat time))).toList) := by
  by_cases hgiven : given body "refresh_token" = true
  · obtain ⟨refresh, hrefresh, -⟩ := exists_of_given hgiven
    cases hlife : lifetime ((body.get "expires_in").getD .null) with
    | none =>
      exact ⟨by simp [hgiven, Dict.Distinct], by simp [Dict.get, grantOf, htoken],
        by simp [Dict.get, grantOf, hgiven, hrefresh], by simp [Dict.get, grantOf, hgiven, hlife]⟩
    | some seconds =>
      exact ⟨by simp [hgiven, Dict.Distinct], by simp [Dict.get, grantOf, htoken],
        by simp [Dict.get, grantOf, hgiven, hrefresh], by simp [Dict.get, grantOf, hgiven, hlife]⟩
  · rw [Bool.not_eq_true] at hgiven
    cases hlife : lifetime ((body.get "expires_in").getD .null) with
    | none =>
      exact ⟨by simp [hgiven, Dict.Distinct], by simp [Dict.get, grantOf, htoken],
        by simp [Dict.get, grantOf, hgiven], by simp [Dict.get, grantOf, hgiven, hlife]⟩
    | some seconds =>
      exact ⟨by simp [hgiven, Dict.Distinct], by simp [Dict.get, grantOf, htoken],
        by simp [Dict.get, grantOf, hgiven], by simp [Dict.get, grantOf, hgiven, hlife]⟩

/-- A refresh that succeeds makes a patch of the grant. -/
theorem isPatch_of_refresh {now : ℤ} {answer : Outcome} {patch : Dict}
    (h : oauth2Refresh iso now answer = .ok patch) : IsPatch iso (grantOf now answer) patch := by
  unfold oauth2Refresh at h
  split at h
  case h_1 => cases h
  case h_2 r =>
    split at h
    case isTrue => cases h
    case isFalse =>
      obtain ⟨status, contentType, content, text, json⟩ := r
      unfold tokenPatch at h
      split at h
      case h_1 => cases h
      case h_2 => cases h
      case h_4 => cases h
      case h_3 body hjson =>
        obtain rfl : json = .body (.obj body) := hjson
        split at h
        case h_1 => cases h
        case h_2 token htoken =>
          obtain ⟨expiry, hexpiry, rfl⟩ := map_eq_ok_iff.mp h
          rw [expiresAt_eq_ok hexpiry]
          exact isPatch_fields htoken

theorem truthy_refreshToken {now : ℤ} {answer : Outcome} {token : Json}
    (h : (grantOf now answer).refreshToken = some token) : truthy token = true := by
  unfold grantOf at h
  split at h
  case h_1 body =>
    simp only at h
    split at h
    case isFalse => cases h
    case isTrue hgiven =>
      obtain ⟨value, hvalue, htruthy⟩ := exists_of_given hgiven
      rw [hvalue] at h
      exact Option.some.inj h ▸ htruthy
  case h_2 => cases h

theorem parseDatetime_isoformat (time : ℤ) :
    parseDatetime repr iso (.str (iso.isoformat time)) = some (.aware time) := by
  obtain ⟨front, hfront⟩ := iso.zone time
  have hlast : (iso.isoformat time).toList.getLast? ≠ some 'Z' := by
    have hzone : "+00:00".toList.getLast? = some '0' := by decide
    rw [hfront, String.toList_append, List.getLast?_append, hzone, Option.some_or]
    decide
  rw [parseDatetime, strOf, withOffset, if_neg hlast, iso.fromisoformat_isoformat]

variable (iso)

/-- The credentials have the access token of the grant, and its end. -/
structure Holds (g : Grant) (creds : Dict) : Prop where
  access : creds.get "access_token" = some g.accessToken
  ends : ∀ time, g.endsAt = some time → creds.get "expires_at" = some (.str (iso.isoformat time))
  endless : g.endsAt = none → given creds "expires_at" = false

variable {iso}

/-- The access token of a grant counts as fresh up to a minute before its end. -/
theorem fresh_of_holds {g : Grant} {creds : Dict} (h : Holds iso g creds)
    (htoken : truthy g.accessToken = true) (now : ℤ) :
    accessTokenIsFresh repr iso now creds =
      .ok ((g.endsAt.map fun time => decide (now + refreshLeeway < time)).getD true) := by
  have haccess : given creds "access_token" = true := by simp [given, h.access, htoken]
  rw [accessTokenIsFresh, haccess, if_neg (by decide)]
  cases hends : g.endsAt with
  | none =>
    rw [h.endless hends, if_pos rfl]
    rfl
  | some time =>
    have hget := h.ends time hends
    have hnonempty : iso.isoformat time ≠ "" := by
      obtain ⟨front, hfront⟩ := iso.zone time
      rw [hfront]
      intro hempty
      have hlength := congrArg (fun text => text.toList.length) hempty
      simp at hlength
    have hgiven : given creds "expires_at" = true := by simp [given, hget, truthy, hnonempty]
    rw [hgiven, if_neg (by decide), hget, Option.getD_some, parseDatetime_isoformat]
    rfl

theorem get_merged {g : Grant} {creds patch : Dict} (h : IsPatch iso g patch) (key : String) :
    (merged creds patch).get key = (patch.get key).or (creds.get key) :=
  Dict.get_update_of_distinct creds h.distinct key

/-- Merged credentials hold the grant, where it has an end or they had none. -/
theorem holds_merged {g : Grant} {creds patch : Dict} (h : IsPatch iso g patch)
    (hold : g.endsAt = none → given creds "expires_at" = false) :
    Holds iso g (merged creds patch) where
  access := by rw [get_merged h, h.access, Option.some_or]
  ends time htime := by rw [get_merged h, h.expiry, htime, Option.map_some, Option.some_or]
  endless hnone := by
    have hget : (merged creds patch).get "expires_at" = creds.get "expires_at" := by
      rw [get_merged h, h.expiry, hnone, Option.map_none, Option.none_or]
    rw [given, hget]
    exact hold hnone

/-- A token that counts as fresh is there to be sent. -/
theorem bearerOf_of_fresh {now : ℤ} {creds : Dict}
    (h : accessTokenIsFresh repr iso now creds = .ok true) :
    ∃ request, bearerOf repr creds = .ok request := by
  unfold accessTokenIsFresh at h
  split at h
  case isTrue => cases h
  case isFalse hgiven =>
    obtain ⟨token, htoken, -⟩ := exists_of_given (Bool.not_eq_false _ ▸ hgiven)
    exact ⟨bearer repr token, by rw [bearerOf, htoken]⟩

/-- So is one that was issued. -/
theorem bearerOf_of_refresh {now : ℤ} {answer : Outcome} {creds patch : Dict}
    (h : oauth2Refresh iso now answer = .ok patch) :
    ∃ request, bearerOf repr (merged creds patch) = .ok request := by
  have hpatch := isPatch_of_refresh h
  have htoken : (merged creds patch).get "access_token" = some (grantOf now answer).accessToken := by
    rw [get_merged hpatch, hpatch.access, Option.some_or]
  exact ⟨bearer repr (grantOf now answer).accessToken, by rw [bearerOf, htoken]⟩

/-- The refresh token that is presented is that of the credentials. -/
theorem form_tokenRequest {creds : Dict} {token : Json}
    (h : creds.get "refresh_token" = some token) (htoken : truthy token = true) :
    (tokenRequest repr creds).form.get "refresh_token" = some (.str (strOf repr token)) := by
  have hgiven : given creds "refresh_token" = true := by simp [given, h, htoken]
  simp [tokenRequest, formField, hgiven, h, Dict.get]

/-- Merged credentials have the refresh token of the grant, or the one they had. -/
theorem refresh_merged {g : Grant} {creds patch : Dict} (h : IsPatch iso g patch) :
    (merged creds patch).get "refresh_token" = g.refreshToken.or (creds.get "refresh_token") := by
  rw [get_merged h, h.refresh]

/-! ### Texts of times -/

/-- The start of 2020. -/
def start2020 : ℤ := 1577836800 * 1000000

/-- A text for any time, counted out. -/
def talliedText (time : ℤ) : String :=
  String.ofList (List.replicate time.toNat 'p' ++ List.replicate (-time).toNat 'n') ++ "+00:00"

/-- The times of `sampleIso` with the text that the standard library has for them. -/
def sampleText (time : ℤ) : String :=
  if time = start2020 then "2020-01-01T00:00:00+00:00"
  else if time = start2020 + 3600 * 1000000 then "2020-01-01T01:00:00+00:00"
  else talliedText time

def sampleRead (text : String) : Option Datetime :=
  if text = "2020-01-01T00:00:00" then some .naive
  else if text = "2020-01-01T00:00:00+00:00" then some (.aware start2020)
  else if text = "2020-01-01T01:00:00+00:00" then some (.aware (start2020 + 3600 * 1000000))
  else if text.toList.getLast? = some '0' then
    some (.aware (text.toList.count 'p' - text.toList.count 'n'))
  else none

theorem sampleRead_sampleText (time : ℤ) : sampleRead (sampleText time) = some (.aware time) := by
  unfold sampleText
  split
  case isTrue h =>
    subst h
    decide +kernel
  case isFalse =>
    split
    case isTrue h =>
      subst h
      decide +kernel
    case isFalse =>
      -- the other texts have no digit 2
      have hne {text : String} (h2 : '2' ∈ text.toList) : talliedText time ≠ text := by
        rintro rfl
        simp [talliedText] at h2
      have hlast : (talliedText time).toList.getLast? = some '0' := by simp [talliedText]
      have hcountP : (talliedText time).toList.count 'p' = time.toNat := by
        simp [talliedText, List.count_replicate]
      have hcountN : (talliedText time).toList.count 'n' = (-time).toNat := by
        simp [talliedText, List.count_replicate]
      have htime : (time.toNat : ℤ) - (-time).toNat = time := by omega
      rw [sampleRead, if_neg (hne (by decide)), if_neg (hne (by decide)), if_neg (hne (by decide)),
        if_pos hlast, hcountP, hcountN, htime]

/-- Some texts for times: what the standard library has for the first hours of 2020. -/
def sampleIso : Iso where
  fromisoformat := sampleRead
  isoformat := sampleText
  fromisoformat_isoformat := sampleRead_sampleText
  zone time := by
    unfold sampleText
    split
    · exact ⟨"2020-01-01T00:00:00", by decide⟩
    · split
      · exact ⟨"2020-01-01T01:00:00", by decide⟩
      · exact ⟨_, rfl⟩

end LunaCore.Connectors
