import LunaCore.Connectors.Rotation
import LunaCore.Connectors.UrlStructure

/-! What comes of a call: `perform` and `execute`.

    decoding ──▶ calling ──▶ performed ──▶ executed
       │            │            │
       ▼            ▼            ▼
    ciphertext   what is not   operation
    path values  caught        unregistered

    `perform` gives a result, of which the response is an object or missing, and raises only what is
    not caught on the way. `execute` looks the operation up again before it reads the result. -/

namespace LunaCore.Connectors.Execution
open LunaCore.Schemes LunaCore.Values
open LunaCore.Flow (truthy given getOr)

/-- A registered operation and its connector. -/
structure Registered where
  name : String
  connectorName : String
  definition : OperationDefinition
  retryPolicy : Option RetryPolicyModel
  authType : AuthType
  baseUrl : String
  factory : Bool

def Registered.setting (op : Registered) (url : List Char) : Setting where
  authType := op.authType
  method := op.definition.method
  url := url
  retryPolicy := parseRetryPolicy op.retryPolicy
  factory := op.factory

inductive Phase where
  | decoding
  | calling (x : Setting) (c : Call)
  | performed (outcome : Except Raised OperationCallResult)
  | executed (result : OperationCallResult) (outcome : Except Raised Json)

/-- The credentials are decrypted, the call goes on, or the operation is looked up again. -/
inductive Event where
  | decoded (credentials : Except Raised (Option Dict))
  | act (a : Action)
  | relookup (registered : Bool)

namespace Registered

variable (op : Registered) (repr : Json → String) (lower : String → String) (iso : Iso)
  (input : Dict)

/-- `perform` up to the loop. -/
def enter : Except Raised (Option Dict) → Phase
  | .error e => .performed (.error e)
  | .ok credentials => match assemble repr op.definition op.baseUrl input with
    | .error message => .performed (.error (.connectorExecutionError message))
    | .ok a => .calling (op.setting a.url) ((op.setting a.url).start (credentials.getD []))

/-- The call goes on, or `perform` is over. -/
def leave (x : Setting) (c : Call) : Phase := match c.pc with
  | .returned result => .performed (.ok result)
  | .raised e => .performed (.error e)
  | _ => .calling x c

/-- `execute` from its second lookup on. -/
def finish (registered : Bool) (result : OperationCallResult) : Except Raised Json :=
  let label := "connector " ++ op.connectorName ++ "." ++ op.name
  let preview := if result.response = .null then ""
    else String.ofList ((strOf repr result.response).toList.take 400)
  if registered = false then .error .keyError
  else match result.error, result.statusCode with
    | some error, _ => .error (.connectorExecutionError (label ++ " transport error: " ++ error))
    | none, some status =>
      if 400 ≤ status then .error (.connectorExecutionError
        (label ++ " returned HTTP " ++ toString status ++ ": " ++ preview))
      else .ok (if truthy result.response then result.response else .obj [])
    | none, none => .ok (if truthy result.response then result.response else .obj [])

def step : Phase → Event → Option Phase
  | .decoding, .decoded credentials => op.enter repr input credentials
  | .calling x c, .act a => (x.step repr lower iso c a).map (leave x)
  | .performed (.ok result), .relookup registered =>
    some (.executed result (op.finish repr registered result))
  | _, _ => none

end Registered

/-! ### What is promised -/

def IsDict (value : Json) : Prop := ∃ fields, value = .obj fields

/-- The response of a result is an object, or missing. -/
def OperationCallResult.Sound (result : OperationCallResult) : Prop :=
  result.response = .null ∨ IsDict result.response

/-- `perform` has returned a sound result, and `execute` an object or its own error. -/
def Phase.Lawful : Phase → Prop
  | .decoding | .calling _ _ => True
  | .performed (.ok result) => result.Sound
  | .performed (.error _) => False
  | .executed result (.ok value) => result.Sound ∧ IsDict value
  | .executed result (.error (.connectorExecutionError _)) => result.Sound
  | .executed _ (.error _) => False

/-! ### What breaks the promise -/

section
variable (repr : Json → String) (iso : Iso)

/-- The expiry has no zone: it cannot be compared. -/
def NaiveExpiry (creds : Dict) : Prop :=
  given creds "access_token" = true ∧ given creds "expires_at" = true ∧
    parseDatetime repr iso ((creds.get "expires_at").getD .null) = some .naive

/-- The IdP refuses, or answers with an access token that ends before the year 10000. -/
def Usable (now : ℤ) : Outcome → Prop
  | .raised e => ∃ message, e = .connectorAuthError message
  | .response r => 400 ≤ r.status ∨ ∃ body, r.json = .body (.obj body) ∧
    (Dict.get body "access_token").isSome ∧
    ∀ seconds, lifetime ((Dict.get body "expires_in").getD .null) = some seconds →
      now + seconds * 1000000 ≤ maxTime

/-- The body is a JSON text, number or boolean by itself. -/
def BareScalar (r : Response) : Prop :=
  r.content ≠ [] ∧ looksLikeJson r = true ∧
    ((∃ text, r.json = .body (.str text)) ∨ (∃ q, r.json = .body (.num q)) ∨
      ∃ b, r.json = .body (.bool b))

/-- The body is nested too deep to be read. -/
def TooDeep (r : Response) : Prop :=
  r.content ≠ [] ∧ looksLikeJson r = true ∧ r.json = .recursionError

/-- A rule repeats the request after the response. -/
def Repeated (x : Setting) (c : Call) (r : Response) : Prop :=
  (c.refreshUsed = false ∧ r.status ∈ authStatuses ∧ x.authType = .oauth2) ∨
    (0 < c.retriesLeft ∧ x.repeats r.status = true)

/-- No exception that is not caught, and no response that is not an object. -/
def HarmlessAct (x : Setting) (c : Call) : Action → Prop
  | .prepare _ => match x.authType with
    | .oauth2 => ¬ NaiveExpiry repr iso c.currentCreds
    | .apiKey => truthy (apiToken c.currentCreds) = true →
      ∃ text, getOr c.currentCreds "scheme" (.str "bearer") = .str text
    | _ => True
  | .recheck _ => ¬ NaiveExpiry repr iso c.currentCreds
  | .token now answer | .force now answer => Usable now answer
  | .respond (.raised e) => ∃ message, e = .httpError message
  | .respond (.response r) => BareScalar r ∨ TooDeep r → Repeated x c r

/-- The credentials are decrypted, no path parameter is null, nothing harmful happens in the call,
    and the operation stays registered. -/
def Harmless (op : Registered) (input : Dict) : Phase → Event → Prop
  | .decoding, .decoded credentials => (∃ creds, credentials = .ok creds) ∧
    ∀ key ∈ pathPlaceholders op.definition.path,
      (applyParameterDefaults op.definition.parameters input).get key ≠ some .null
  | .calling x c, .act a => HarmlessAct repr iso x c a
  | .performed (.ok _), .relookup registered => registered = true
  | _, _ => True

end

/-! ### What the steps of a call come to -/

variable {x : Setting} {repr : Json → String} {lower : String → String} {iso : Iso}

/-- The exception is one that the loop catches. -/
def Caught (e : Raised) : Prop := ∃ message, e = .connectorAuthError message

/-- The call has not ended in an exception or an unsound result. -/
def Pc.Lawful : Pc → Prop
  | .returned result => result.Sound
  | .raised _ => False
  | _ => True

theorem caught_error_iff {α : Type} {e : Raised} :
    (∀ e', (.error e : Except Raised α) = .error e' → Caught e') ↔ Caught e :=
  ⟨fun h => h e rfl, fun h _ he => Except.error.inj he ▸ h⟩

theorem lawful_authFailure {e : Raised} : (x.authFailure e).Lawful ↔ Caught e := by
  cases e with
  | connectorAuthError message => exact iff_of_true (.inl rfl) ⟨message, rfl⟩
  | _ => exact iff_of_false id nofun

theorem lawful_requestFailure {e : Raised} :
    (x.requestFailure e).Lawful ↔ ∃ message, e = .httpError message := by
  cases e with
  | httpError message => exact iff_of_true (.inl rfl) ⟨message, rfl⟩
  | _ => exact iff_of_false id nofun

theorem lawful_send {c : Call} {refreshed : Option Dict} {p : Except Raised PreparedRequest} :
    (x.send c refreshed p).pc.Lawful ↔ ∀ e, p = .error e → Caught e := by
  cases p with
  | ok prepared => exact iff_of_true trivial nofun
  | error e => exact lawful_authFailure.trans caught_error_iff.symm

theorem caught_prepareApiKey {creds : Dict} :
    (∀ e, prepareApiKey repr lower creds = .error e → Caught e) ↔
      (truthy (apiToken creds) = true → ∃ text, getOr creds "scheme" (.str "bearer") = .str text) := by
  unfold prepareApiKey
  by_cases htoken : truthy (apiToken creds) = true
  · simp only [htoken, Bool.true_eq_false, if_false, true_imp_iff]
    cases hscheme : getOr creds "scheme" (.str "bearer") with
    | str text =>
      refine iff_of_true ?_ ⟨text, rfl⟩
      intro e he
      simp only at he
      split at he
      · cases he
      · split at he
        · cases he
        · split at he
          · cases he
          · exact ⟨_, (Except.error.inj he).symm⟩
    | _ =>
      refine iff_of_false (caught_error_iff.not.mpr ?_) ?_
      · rintro ⟨message, h⟩
        cases h
      · rintro ⟨text, h⟩
        cases h
  · rw [Bool.not_eq_true] at htoken
    simp only [htoken, if_true]
    refine iff_of_true (caught_error_iff.mpr ⟨_, rfl⟩) fun h => ?_
    cases h

theorem caught_prepareBasic {creds : Dict} :
    ∀ e, prepareBasic repr creds = .error e → Caught e := by
  intro e he
  unfold prepareBasic at he
  split at he
  case h_1 => exact ⟨_, (Except.error.inj he).symm⟩
  case h_2 => exact ⟨_, (Except.error.inj he).symm⟩
  case h_3 => cases he

/-- Freshness cannot be told just when the expiry is naive. -/
theorem fresh_error_iff {now : ℤ} {creds : Dict} {e : Raised} :
    accessTokenIsFresh repr iso now creds = .error e ↔
      NaiveExpiry repr iso creds ∧ e = .typeError := by
  unfold accessTokenIsFresh NaiveExpiry
  cases given creds "access_token" with
  | false => simp
  | true =>
    cases given creds "expires_at" with
    | false => simp
    | true =>
      simp only [Bool.true_eq_false, if_false, true_and]
      cases parseDatetime repr iso ((creds.get "expires_at").getD .null) with
      | none => simp
      | some datetime => cases datetime <;> simp [eq_comm]

theorem caught_of_fresh {now : ℤ} {creds : Dict} {e : Raised}
    (h : accessTokenIsFresh repr iso now creds = .error e) :
    NaiveExpiry repr iso creds ∧ ¬ Caught e := by
  obtain ⟨hnaive, rfl⟩ := fresh_error_iff.mp h
  exact ⟨hnaive, nofun⟩

theorem not_naive_of_fresh {now : ℤ} {creds : Dict} {fresh : Bool}
    (h : accessTokenIsFresh repr iso now creds = .ok fresh) : ¬ NaiveExpiry repr iso creds := by
  intro hnaive
  rw [fresh_error_iff.mpr ⟨hnaive, rfl⟩] at h
  cases h

variable (iso) in
theorem expiresAt_ok_iff {now : ℤ} {body : Dict} :
    (∀ e, expiresAt iso now body = .error e → Caught e) ↔
      ∀ seconds, lifetime ((body.get "expires_in").getD .null) = some seconds →
        now + seconds * 1000000 ≤ maxTime := by
  unfold expiresAt
  cases lifetime ((body.get "expires_in").getD .null) with
  | none => exact iff_of_true nofun nofun
  | some seconds =>
    by_cases hrange : now + seconds * 1000000 ≤ maxTime
    · simp [hrange]
    · simp [hrange, Caught]

variable (iso) in
/-- A refresh raises only what is caught just when the answer is usable. -/
theorem caught_refresh {now : ℤ} {answer : Outcome} :
    (∀ e, oauth2Refresh iso now answer = .error e → Caught e) ↔ Usable now answer := by
  cases answer with
  | raised e => exact caught_error_iff
  | response r =>
    simp only [oauth2Refresh, Usable]
    by_cases hstatus : 400 ≤ r.status
    · rw [if_pos hstatus]
      exact iff_of_true (caught_error_iff.mpr ⟨_, rfl⟩) (.inl hstatus)
    · rw [if_neg hstatus, or_iff_right hstatus]
      unfold tokenPatch
      split
      case h_1 hjson =>
        refine iff_of_false (caught_error_iff.not.mpr ?_) (by simp [hjson])
        rintro ⟨message, h⟩
        cases h
      case h_2 hjson =>
        refine iff_of_false (caught_error_iff.not.mpr ?_) (by simp [hjson])
        rintro ⟨message, h⟩
        cases h
      case h_4 hnot hjson =>
        refine iff_of_false (caught_error_iff.not.mpr ?_) ?_
        · rintro ⟨message, h⟩
          cases h
        · rintro ⟨body, hbody, -⟩
          exact hnot body (Parsed.body.inj (hjson.symm.trans hbody))
      case h_3 body hjson =>
        simp only [hjson, Parsed.body.injEq, Json.obj.injEq, exists_eq_left']
        cases htoken : Dict.get body "access_token" with
        | none =>
          refine iff_of_false (caught_error_iff.not.mpr ?_) (by simp)
          rintro ⟨message, h⟩
          cases h
        | some token =>
          rw [← expiresAt_ok_iff iso]
          simp only [Option.isSome_some, true_and]
          cases expiresAt iso now body with
          | ok expiry =>
            refine iff_of_true ?_ ?_
            · intro e he
              cases he
            · intro e he
              cases he
          | error e => exact Iff.rfl

/-- The last response leads to a sound result, unless its body is a bare scalar or too deep. -/
theorem lawful_conclude {r : Response} :
    (x.conclude r).Lawful ↔ ¬ (BareScalar r ∨ TooDeep r) := by
  have hobject (fields : List (String × Json)) : (x.describe r (.obj fields)).Sound :=
    .inr ⟨fields, rfl⟩
  have hbare {body : Json} (hnull : body ≠ .null) (hobj : ∀ fields, body ≠ .obj fields) :
      ¬ (x.describe r body).Sound := fun h => h.elim hnull fun ⟨fields, h⟩ => hobj fields h
  unfold Setting.conclude decodeResponse BareScalar TooDeep
  by_cases hcontent : r.content = []
  · rw [if_pos hcontent]
    exact iff_of_true (hobject _) fun h => h.elim (fun h => h.1 hcontent) fun h => h.1 hcontent
  · rw [if_neg hcontent]
    by_cases hjson : looksLikeJson r = true
    · rw [if_pos hjson]
      simp only [hcontent, hjson, ne_eq, not_false_iff, true_and]
      cases hbody : r.json with
      | valueError => exact iff_of_true (hobject _) (by simp)
      | recursionError => exact iff_of_false id (by simp)
      | body value =>
        cases value with
        | null => exact iff_of_true (hobject _) (by simp)
        | arr items => exact iff_of_true (hobject _) (by simp)
        | obj fields => exact iff_of_true (hobject _) (by simp)
        | _ => exact iff_of_false (hbare nofun nofun) (by simp)
    · rw [if_neg hjson]
      exact iff_of_true (hobject _) fun h => h.elim (fun h => hjson h.2.1) fun h => hjson h.2.1

/-- What follows the check of the token: a failure, a request with the token, or lawful else. -/
theorem lawful_checked {c next : Call} {now : ℤ}
    (herror : ∀ e, accessTokenIsFresh repr iso now c.currentCreds = .error e →
      next.pc = x.authFailure e)
    (hfresh : accessTokenIsFresh repr iso now c.currentCreds = .ok true →
      next = x.send c none (bearerOf repr c.currentCreds))
    (hstale : accessTokenIsFresh repr iso now c.currentCreds = .ok false → next.pc.Lawful) :
    next.pc.Lawful ↔ ¬ NaiveExpiry repr iso c.currentCreds := by
  cases hcheck : accessTokenIsFresh repr iso now c.currentCreds with
  | error e =>
    obtain ⟨hnaive, hcaught⟩ := caught_of_fresh hcheck
    rw [herror e hcheck]
    exact iff_of_false (fun h => hcaught (lawful_authFailure.mp h)) fun h => h hnaive
  | ok fresh =>
    refine iff_of_true ?_ (not_naive_of_fresh hcheck)
    cases fresh with
    | true =>
      rw [hfresh hcheck]
      obtain ⟨request, hbearer⟩ := bearerOf_of_fresh hcheck
      rw [hbearer]
      exact lawful_send.mpr nofun
    | false => exact hstale hcheck

theorem lawful_prepareStep {c : Call} {now : ℤ} :
    (x.prepareStep repr lower iso c now).pc.Lawful ↔ HarmlessAct repr iso x c (.prepare now) := by
  simp only [Setting.prepareStep, HarmlessAct]
  cases hauth : x.authType with
  | none =>
    rw [if_neg nofun, lawful_send]
    exact iff_of_true nofun trivial
  | apiKey =>
    rw [if_neg nofun, lawful_send]
    exact caught_prepareApiKey
  | basic =>
    rw [if_neg nofun, lawful_send]
    exact iff_of_true caught_prepareBasic trivial
  | oauth2 =>
    simp only [if_true]
    refine lawful_checked (fun e hcheck => by rw [hcheck]) (fun hcheck => by rw [hcheck])
      fun hcheck => ?_
    rw [hcheck]
    dsimp only
    split
    · exact trivial
    · exact lawful_authFailure.mpr ⟨_, rfl⟩

theorem lawful_recheckStep {c : Call} {now : ℤ} :
    (x.recheckStep repr iso c now).pc.Lawful ↔ HarmlessAct repr iso x c (.recheck now) := by
  rw [Setting.recheckStep]
  refine lawful_checked (fun e hcheck => by rw [hcheck]) (fun hcheck => by rw [hcheck])
    fun hcheck => ?_
  rw [hcheck]
  exact trivial

theorem lawful_tokenStep {c : Call} {now : ℤ} {answer : Outcome} :
    (x.tokenStep repr iso c now answer).pc.Lawful ↔ Usable now answer := by
  rw [← caught_refresh iso, Setting.tokenStep]
  cases hrefresh : oauth2Refresh iso now answer with
  | error e => exact lawful_authFailure.trans caught_error_iff.symm
  | ok patch =>
    obtain ⟨request, hbearer⟩ := bearerOf_of_refresh hrefresh
    dsimp only
    rw [hbearer]
    exact iff_of_true (lawful_send.mpr nofun) nofun

theorem lawful_forceStep {c : Call} {now : ℤ} {answer : Outcome} :
    (x.forceStep iso c now answer).pc.Lawful ↔ Usable now answer := by
  rw [← caught_refresh iso, Setting.forceStep]
  cases oauth2Refresh iso now answer with
  | error e => exact lawful_authFailure.trans caught_error_iff.symm
  | ok patch => exact iff_of_true trivial nofun

theorem lawful_respondStep {c : Call} {refreshed : Option Dict} {answer : Outcome} :
    (x.respondStep c refreshed answer).pc.Lawful ↔ HarmlessAct repr iso x c (.respond answer) := by
  cases answer with
  | raised e => exact lawful_requestFailure
  | response r =>
    simp only [Setting.respondStep, HarmlessAct, Repeated]
    by_cases hrecover : c.refreshUsed = false ∧ r.status ∈ authStatuses ∧ x.authType = .oauth2
    · rw [if_pos hrecover]
      refine iff_of_true ?_ fun _ => .inl hrecover
      split
      · exact trivial
      · exact lawful_authFailure.mpr ⟨_, rfl⟩
    · rw [if_neg hrecover, or_iff_right hrecover]
      by_cases hagain : 0 < c.retriesLeft ∧ x.repeats r.status = true
      · rw [if_pos hagain]
        exact iff_of_true trivial fun _ => hagain
      · rw [if_neg hagain]
        exact lawful_conclude.trans ⟨fun h hbad => absurd hbad h, fun h hbad => hagain (h hbad)⟩

/-- A step of a call is lawful just when it is harmless. -/
theorem lawful_step {c c' : Call} {a : Action} (h : x.step repr lower iso c a = some c') :
    c'.pc.Lawful ↔ HarmlessAct repr iso x c a := by
  obtain ⟨now, hpc, rfl, rfl⟩ | ⟨now, hpc, rfl, rfl⟩ | ⟨now, answer, hpc, rfl, rfl⟩ |
    ⟨prepared, refreshed, answer, hpc, rfl, rfl⟩ | ⟨now, answer, hpc, rfl, rfl⟩ := step_cases h
  · exact lawful_prepareStep
  · exact lawful_recheckStep
  · exact lawful_tokenStep
  · exact lawful_respondStep
  · exact lawful_forceStep

/-! ### What the phases come to -/

variable {op : Registered} {input : Dict}

theorem lawful_leave (x : Setting) (c : Call) :
    (Registered.leave x c).Lawful ↔ c.pc.Lawful := by
  unfold Registered.leave
  cases c.pc <;> exact Iff.rfl

theorem lawful_enter {credentials : Except Raised (Option Dict)}
    (hpresent : ∀ key ∈ pathPlaceholders op.definition.path,
      ((applyParameterDefaults op.definition.parameters input).get key).isSome) :
    (op.enter repr input credentials).Lawful ↔
      Harmless repr iso op input .decoding (.decoded credentials) := by
  simp only [Harmless]
  cases credentials with
  | error e => exact iff_of_false id fun ⟨⟨_, h⟩, _⟩ => nomatch h
  | ok creds =>
    rw [and_iff_right ⟨creds, rfl⟩]
    have hpath : (∃ a, assemble repr op.definition op.baseUrl input = .ok a) ↔
        ∀ key ∈ pathPlaceholders op.definition.path,
          (applyParameterDefaults op.definition.parameters input).get key ≠ some .null := by
      rw [assemble_isOk_iff]
      refine forall_congr' fun key => forall_congr' fun hkey => ?_
      obtain ⟨value, hvalue⟩ := Option.isSome_iff_exists.mp (hpresent key hkey)
      simp [hvalue]
    rw [← hpath, Registered.enter]
    cases assemble repr op.definition op.baseUrl input with
    | error message => exact iff_of_false id fun ⟨_, h⟩ => nomatch h
    | ok a => exact iff_of_true trivial ⟨a, rfl⟩

/-- A sound result is executed to an object or to its error while the operation is registered. -/
theorem lawful_finish {registered : Bool} {result : OperationCallResult} (h : result.Sound) :
    (Phase.executed result (op.finish repr registered result)).Lawful ↔ registered = true := by
  have hok : (Phase.executed result
      (.ok (if truthy result.response then result.response else .obj []))).Lawful := by
    refine ⟨h, ?_⟩
    split
    case isFalse => exact ⟨[], rfl⟩
    case isTrue htruthy =>
      refine h.resolve_left fun hnull => ?_
      rw [hnull] at htruthy
      cases htruthy
  unfold Registered.finish
  cases registered with
  | false => exact iff_of_false id nofun
  | true =>
    refine iff_of_true ?_ rfl
    simp only [Bool.true_eq_false, if_false]
    split
    · exact h
    · split
      · exact h
      · exact hok
    · exact hok

/-- From a lawful phase, an event leads to a lawful one just when it is harmless. -/
theorem lawful_phase
    (hpresent : ∀ key ∈ pathPlaceholders op.definition.path,
      ((applyParameterDefaults op.definition.parameters input).get key).isSome)
    {s t : Phase} {e : Event} (hs : s.Lawful) (h : op.step repr lower iso input s e = some t) :
    t.Lawful ↔ Harmless repr iso op input s e := by
  unfold Registered.step at h
  split at h
  case h_1 =>
    obtain rfl := Option.some.inj h
    exact lawful_enter hpresent
  case h_2 x c a =>
    obtain ⟨c', hc', rfl⟩ := Option.map_eq_some_iff.mp h
    rw [lawful_leave]
    exact lawful_step hc'
  case h_3 result registered =>
    obtain rfl := Option.some.inj h
    exact lawful_finish hs
  case h_4 => cases h

/-- What is broken stays broken. -/
theorem not_lawful_step {s t : Phase} {e : Event} (hs : ¬ s.Lawful)
    (h : op.step repr lower iso input s e = some t) : ¬ t.Lawful := by
  unfold Registered.step at h
  split at h
  case h_1 => exact absurd trivial hs
  case h_2 => exact absurd trivial hs
  case h_3 result registered =>
    obtain rfl := Option.some.inj h
    intro ht
    cases hfinish : op.finish repr registered result with
    | ok value =>
      rw [hfinish] at ht
      exact hs ht.1
    | error e =>
      rw [hfinish] at ht
      cases e <;> first | exact hs ht | exact ht
  case h_4 => cases h

/-! ### Every call is performed -/

/-- `perform` is over. -/
def Phase.over : Phase → Bool
  | .performed _ | .executed _ _ => true
  | _ => false

/-- The event by which a phase goes on: the credentials as they are decrypted, and the moment. -/
def Phase.next (credentials : Except Raised (Option Dict)) (m : Moment) : Phase → Event
  | .decoding => .decoded credentials
  | .calling _ c => .act (c.pc.next m)
  | .performed _ | .executed _ _ => .relookup true

variable (op) in
/-- The steps that are left. -/
def phaseLeft : Phase → ℕ
  | .decoding => 5 * ((op.setting []).attempts + 1) + 5
  | .calling x c => stepsLeft x c + 1
  | .performed _ => 1
  | .executed _ _ => 0

theorem phaseLeft_leave (c : Call) : phaseLeft op (Registered.leave x c) ≤ stepsLeft x c + 1 := by
  unfold Registered.leave
  cases c.pc <;> simp [phaseLeft]

theorem phaseLeft_enter (credentials : Except Raised (Option Dict)) :
    phaseLeft op (op.enter repr input credentials) < phaseLeft op .decoding := by
  unfold Registered.enter
  cases credentials with
  | error e => simp [phaseLeft]
  | ok creds =>
    cases assemble repr op.definition op.baseUrl input with
    | error message => simp [phaseLeft]
    | ok a =>
      have hrequests := requestsLeft_start (x := op.setting a.url) (creds.getD [])
      have hattempts : (op.setting a.url).attempts = (op.setting []).attempts := rfl
      have hone : (if (op.setting a.url).authType = .oauth2 then 1 else 0) ≤ 1 := by split <;> simp
      simp only [phaseLeft]
      rw [stepsLeft_of_not_ended rfl, hrequests, hattempts]
      simp only [Setting.start, Pc.distance]
      omega

theorem decreasing_phase : Decreasing (op.step repr lower iso input) (phaseLeft op) := by
  intro s e t h
  unfold Registered.step at h
  split at h
  case h_1 =>
    obtain rfl := Option.some.inj h
    exact phaseLeft_enter _
  case h_2 x c a =>
    obtain ⟨c', hc', rfl⟩ := Option.map_eq_some_iff.mp h
    calc phaseLeft op (Registered.leave x c') ≤ stepsLeft x c' + 1 := phaseLeft_leave c'
      _ < stepsLeft x c + 1 := Nat.succ_lt_succ (decreasing_step c a c' hc')
  case h_3 =>
    obtain rfl := Option.some.inj h
    simp [phaseLeft]
  case h_4 => cases h

/-- What is being called has not ended. -/
def Phase.Running : Phase → Prop
  | .calling _ c => c.pc.ended = false
  | _ => True

theorem running_leave (c : Call) : (Registered.leave x c).Running := by
  unfold Registered.leave
  cases hpc : c.pc <;> simp [Phase.Running, Pc.ended, hpc]

theorem running_step {s t : Phase} {e : Event} (h : op.step repr lower iso input s e = some t) :
    t.Running := by
  unfold Registered.step at h
  split at h
  case h_1 credentials =>
    obtain rfl := Option.some.inj h
    unfold Registered.enter
    cases credentials with
    | error e => exact trivial
    | ok creds =>
      cases assemble repr op.definition op.baseUrl input with
      | error message => exact trivial
      | ok a => exact rfl
  case h_2 x c a =>
    obtain ⟨c', -, rfl⟩ := Option.map_eq_some_iff.mp h
    exact running_leave c'
  case h_3 =>
    obtain rfl := Option.some.inj h
    exact trivial
  case h_4 => cases h

/-- A phase that is running goes on until `perform` is over. -/
theorem phase_next {s : Phase} (hs : s.Running) (hover : s.over = false)
    (credentials : Except Raised (Option Dict)) (m : Moment) :
    ∃ t, op.step repr lower iso input s (s.next credentials m) = some t := by
  cases s with
  | decoding => exact ⟨_, rfl⟩
  | calling x c =>
    obtain ⟨c', hc'⟩ : ∃ c', x.step repr lower iso c (c.pc.next m) = some c' := step_next hs m
    exact ⟨Registered.leave x c', by simp [Registered.step, Phase.next, hc']⟩
  | performed outcome => cases hover
  | executed result outcome => cases hover

variable (op repr lower iso input)

/-- `getUser` of an API without authentication. -/
def publicUser : Registered where
  name := "get_user"
  connectorName := "directory"
  definition := getUser
  retryPolicy := none
  authType := .none
  baseUrl := "https://api.test"
  factory := true

/-- A number alone, as JSON. -/
def bareNumber : Response := ⟨200, "application/json", [0x35], "5", .body (.num 5)⟩

end LunaCore.Connectors.Execution
