import LunaCore.Connectors.Tokens
import LunaCore.Schemes.Terminating

/-! One call of an operation: the loop that prepares, sends and repeats a request.

    preparing ── fresh ──────────────────────────▶ sending ── 401, 403 ──▶ forcing ──▶ preparing
        └─ stale ─▶ waiting ─ stale ─▶ refreshing ────┘  └── a status of the policy ──▶ preparing

    `waiting` is for the lock, `refreshing` and `forcing` are for the IdP, `sending` is for the
    upstream service. A refresh is forced once, for oauth2, and a policy repeats one time less than
    its attempts. What ends the call is a result, or an exception that goes through. -/

namespace LunaCore.Connectors.Execution
open LunaCore.Schemes LunaCore.Values
open LunaCore.Flow (truthy given getOr)

/-! ### The retry policy -/

/-- `_AUTH_STATUSES`. -/
def authStatuses : List ℤ := [401, 403]

/-- A policy as it is stored. -/
structure RetryPolicyModel where
  maxAttempts : ℕ
  retryOnStatus : List ℤ
  one_le : 1 ≤ maxAttempts
  le_ten : maxAttempts ≤ 10

structure RetryPolicy where
  maxAttempts : ℕ
  retryOnStatus : List ℤ
  one_le : 1 ≤ maxAttempts

def RetryPolicy.shouldRetry (p : RetryPolicy) (status : ℤ) : Bool :=
  status ∉ authStatuses ∧ status ∈ p.retryOnStatus

/-- `parse_retry_policy`. -/
def parseRetryPolicy (raw : Option RetryPolicyModel) : Option RetryPolicy := raw.map fun model =>
  { maxAttempts := model.maxAttempts
    retryOnStatus := model.retryOnStatus.filter fun status => status ∉ authStatuses
    one_le := model.one_le }

/-! ### A call -/

/-- What a call is given: `factory` tells whether the registry can open a session. -/
structure Setting where
  authType : AuthType
  method : HttpMethod
  url : List Char
  retryPolicy : Option RetryPolicy
  factory : Bool

/-- The result of a call; null is None. -/
structure OperationCallResult where
  ok : Bool
  statusCode : Option ℤ
  requestMethod : HttpMethod
  requestUrl : List Char
  response : Json
  error : Option String

inductive Pc where
  | preparing
  | waiting
  | refreshing
  | sending (prepared : PreparedRequest) (refreshed : Option Dict)
  | forcing
  | returned (result : OperationCallResult)
  | raised (e : Raised)

/-- `current_creds`, `oauth2_refresh_used` and `policy_retries_left`; `stored` are the credentials in
    the connector row. -/
structure Call where
  pc : Pc
  currentCreds : Dict
  refreshUsed : Bool
  retriesLeft : ℕ
  stored : Dict

/-- What happens next to a call: it goes on, at a time, or an answer arrives. -/
inductive Action where
  | prepare (now : ℤ)
  | recheck (now : ℤ)
  | token (now : ℤ) (answer : Outcome)
  | respond (answer : Outcome)
  | force (now : ℤ) (answer : Outcome)

/-- `looks_like_json`: the content type says so, or the body begins with a brace or a bracket. -/
def looksLikeJson (r : Response) : Bool :=
  "application/json".toList <:+: r.contentType.toList ∨
    r.content.head? = some 0x7b ∨ r.content.head? = some 0x5b

/-- `_decode_response`; only ValueError is caught. -/
def decodeResponse (r : Response) : Except Raised Json :=
  if r.content = [] then .ok (.obj [])
  else if looksLikeJson r then match r.json with
    | .recursionError => .error .recursionError
    | .valueError | .body .null => .ok (.obj [("text", .str r.text)])
    | .body (.arr items) => .ok (.obj [("items", .arr items)])
    | .body body => .ok body
  else .ok (.obj [("text", .str r.text)])

namespace Setting

variable (x : Setting)

/-- The policy has the status for repeating. -/
def repeats (status : ℤ) : Bool := (x.retryPolicy.map (·.shouldRetry status)).getD false

/-- The requests that the policy allows. -/
def attempts : ℕ := (x.retryPolicy.map (·.maxAttempts)).getD 1

def start (creds : Dict) : Call where
  pc := .preparing
  currentCreds := creds
  refreshUsed := false
  retriesLeft := x.attempts - 1
  stored := creds

/-- The result without a response. -/
def failure (error : String) : OperationCallResult := ⟨false, none, x.method, x.url, .null, error⟩

/-- The result of a response, of which the body was decoded. -/
def describe (r : Response) (body : Json) : OperationCallResult :=
  ⟨r.status < 400, some r.status, x.method, x.url, body, none⟩

/-- Where the last response leads. -/
def conclude (r : Response) : Pc := match decodeResponse r with
  | .ok body => .returned (x.describe r body)
  | .error e => .raised e

/-- Where an exception of the authentication leads. -/
def authFailure : Raised → Pc
  | .connectorAuthError message => .returned (x.failure message)
  | e => .raised e

/-- Where an exception of the request leads. -/
def requestFailure : Raised → Pc
  | .httpError message => .returned (x.failure message)
  | e => .raised e

/-- The row after a refresh. -/
def persist (c : Call) (creds : Dict) : Dict := if x.factory then creds else c.stored

/-- A call with its authentication prepared, or not. -/
def send (c : Call) (refreshed : Option Dict) : Except Raised PreparedRequest → Call
  | .ok prepared => { c with pc := .sending prepared refreshed }
  | .error e => { c with pc := x.authFailure e }

variable (repr : Json → String) (lower : String → String) (iso : Iso)

/-- `_prepare_auth` up to the lock. -/
def prepareStep (c : Call) (now : ℤ) : Call :=
  if x.authType = .oauth2 then match accessTokenIsFresh repr iso now c.currentCreds with
    | .error e => { c with pc := x.authFailure e }
    | .ok true => x.send c none (bearerOf repr c.currentCreds)
    | .ok false =>
      if given c.currentCreds "token_url" then { c with pc := .waiting }
      else { c with pc := x.authFailure (.connectorAuthError
        "oauth2 auth requires credentials.token_url to refresh") }
  else x.send c none (prepare repr lower .ok x.authType c.currentCreds)

/-- The check inside the lock. -/
def recheckStep (c : Call) (now : ℤ) : Call :=
  match accessTokenIsFresh repr iso now c.currentCreds with
  | .error e => { c with pc := x.authFailure e }
  | .ok true => x.send c none (bearerOf repr c.currentCreds)
  | .ok false => { c with pc := .refreshing }

/-- The rest of `_prepare_oauth2`; `current_creds` stay as they are. -/
def tokenStep (c : Call) (now : ℤ) (answer : Outcome) : Call :=
  match oauth2Refresh iso now answer with
  | .error e => { c with pc := x.authFailure e }
  | .ok patch =>
    let creds := merged c.currentCreds patch
    x.send { c with stored := x.persist c creds } (if x.factory then none else some creds)
      (bearerOf repr creds)

/-- What is made of a response: a forced refresh, a repetition, or the result. -/
def respondStep (c : Call) (refreshed : Option Dict) : Outcome → Call
  | .raised e => { c with pc := x.requestFailure e }
  | .response r =>
    if c.refreshUsed = false ∧ r.status ∈ authStatuses ∧ x.authType = .oauth2 then
      if given c.currentCreds "token_url" then { c with pc := .forcing }
      else { c with pc := x.authFailure (.connectorAuthError
        "oauth2 force-refresh requires credentials.token_url") }
    else if 0 < c.retriesLeft ∧ x.repeats r.status then
      { c with pc := .preparing, retriesLeft := c.retriesLeft - 1 }
    else { c with
      pc := x.conclude r
      stored := (refreshed.map (x.persist c)).getD c.stored }

/-- `_force_oauth2_refresh`, from its response on. -/
def forceStep (c : Call) (now : ℤ) (answer : Outcome) : Call :=
  match oauth2Refresh iso now answer with
  | .error e => { c with pc := x.authFailure e }
  | .ok patch =>
    let creds := merged c.currentCreds patch
    { c with
      pc := .preparing
      currentCreds := creds
      refreshUsed := true
      stored := x.persist c creds }

def step (c : Call) (a : Action) : Option Call := match c.pc, a with
  | .preparing, .prepare now => x.prepareStep repr lower iso c now
  | .waiting, .recheck now => x.recheckStep repr iso c now
  | .refreshing, .token now answer => x.tokenStep repr iso c now answer
  | .sending _ refreshed, .respond answer => x.respondStep c refreshed answer
  | .forcing, .force now answer => x.forceStep iso c now answer
  | _, _ => none

end Setting

/-! ### What a step does -/

/-- The call is before its next request. -/
def Pc.readying : Pc → Bool
  | .preparing | .waiting | .refreshing => true
  | _ => false

/-- The call is on the way to a response. -/
def Pc.underWay : Pc → Bool
  | .preparing | .waiting | .refreshing | .sending _ _ => true
  | _ => false

def Pc.ended : Pc → Bool
  | .returned _ | .raised _ => true
  | _ => false

/-- How many steps a call is from its next request at most. -/
def Pc.distance : Pc → ℕ
  | .forcing => 4
  | .preparing => 3
  | .waiting => 2
  | .refreshing => 1
  | _ => 0

/-- The call goes on by this action. -/
def Pc.awaits : Pc → Action → Bool
  | .preparing, .prepare _ => true
  | .waiting, .recheck _ => true
  | .refreshing, .token _ _ => true
  | .sending _ _, .respond _ => true
  | .forcing, .force _ _ => true
  | _, _ => false

/-- The call has failed: with a result without a response, or an exception. -/
def Failed (x : Setting) : Pc → Prop
  | .returned result => ∃ error, result = x.failure error
  | .raised _ => True
  | _ => False

section
variable (x : Setting) (repr : Json → String) (lower : String → String) (iso : Iso)

/-- Preparing the credentials raises this. An oauth2 connector has a token of which the end cannot
    be told, or a stale one and no `token_url`. -/
def Unprepared (creds : Dict) (now : ℤ) (e : Raised) : Prop :=
  if x.authType = .oauth2 then
    accessTokenIsFresh repr iso now creds = .error e ∨
      accessTokenIsFresh repr iso now creds = .ok false ∧ given creds "token_url" = false ∧
        e = .connectorAuthError "oauth2 auth requires credentials.token_url to refresh"
  else prepare repr lower .ok x.authType creds = .error e

/-- By this action preparing the credentials, refreshing the token or sending the request fails, and
    the call ends here. -/
inductive Failure (creds : Dict) : Action → Pc → Prop where
  | unprepared {now : ℤ} {e : Raised} (h : Unprepared x repr lower iso creds now e) :
      Failure creds (.prepare now) (x.authFailure e)
  | unchecked {now : ℤ} {e : Raised} (h : accessTokenIsFresh repr iso now creds = .error e) :
      Failure creds (.recheck now) (x.authFailure e)
  | unrefreshed {now : ℤ} {answer : Outcome} {e : Raised}
      (h : oauth2Refresh iso now answer = .error e) :
      Failure creds (.token now answer) (x.authFailure e)
  | unforced {now : ℤ} {answer : Outcome} {e : Raised}
      (h : oauth2Refresh iso now answer = .error e) :
      Failure creds (.force now answer) (x.authFailure e)
  | unsent {e : Raised} : Failure creds (.respond (.raised e)) (x.requestFailure e)

/-- The result of a rejected token that cannot be refreshed. -/
def Setting.unrecoverable : Pc :=
  x.authFailure (.connectorAuthError "oauth2 force-refresh requires credentials.token_url")

/-- What a step does of which the budgets know. -/
inductive Advance (c : Call) : Action → Call → Prop where
  /-- It comes nearer to the next request. -/
  | ready {a : Action} {pc : Pc} {stored : Dict} (hpc : c.pc.readying) (ha : c.pc.awaits a)
      (hnext : pc.underWay) (hnearer : pc.distance < c.pc.distance) :
      Advance c a { c with pc := pc, stored := stored }
  /-- It fails. -/
  | fail {a : Action} {pc : Pc} (ha : c.pc.awaits a)
      (hfailure : Failure x repr lower iso c.currentCreds a pc) :
      Advance c a { c with pc := pc }
  /-- A rejected token is to be refreshed. -/
  | recover {r : Response} {prepared : PreparedRequest} {refreshed : Option Dict}
      (hpc : c.pc = .sending prepared refreshed) (hused : c.refreshUsed = false)
      (hstatus : r.status ∈ authStatuses) (hauth : x.authType = .oauth2) :
      Advance c (.respond (.response r)) { c with pc := .forcing }
  /-- A rejected token cannot be refreshed. -/
  | stuck {r : Response} {prepared : PreparedRequest} {refreshed : Option Dict}
      (hpc : c.pc = .sending prepared refreshed) (hused : c.refreshUsed = false)
      (hstatus : r.status ∈ authStatuses) (hauth : x.authType = .oauth2)
      (hurl : given c.currentCreds "token_url" = false) :
      Advance c (.respond (.response r)) { c with pc := x.unrecoverable }
  /-- It was refreshed. -/
  | recovered {now : ℤ} {answer : Outcome} {creds stored : Dict} (hpc : c.pc = .forcing) :
      Advance c (.force now answer)
        { pc := .preparing, currentCreds := creds, refreshUsed := true,
          retriesLeft := c.retriesLeft, stored := stored }
  /-- The policy repeats the request. -/
  | again {r : Response} {prepared : PreparedRequest} {refreshed : Option Dict}
      (hpc : c.pc = .sending prepared refreshed)
      (hnot : ¬ (c.refreshUsed = false ∧ r.status ∈ authStatuses ∧ x.authType = .oauth2))
      (hleft : 0 < c.retriesLeft) (hstatus : x.repeats r.status) :
      Advance c (.respond (.response r))
        { c with pc := .preparing, retriesLeft := c.retriesLeft - 1 }
  /-- The response is the last one. -/
  | finish {r : Response} {prepared : PreparedRequest} {refreshed : Option Dict} {stored : Dict}
      (hpc : c.pc = .sending prepared refreshed)
      (hnot : ¬ (c.refreshUsed = false ∧ r.status ∈ authStatuses ∧ x.authType = .oauth2))
      (hno : ¬ (0 < c.retriesLeft ∧ x.repeats r.status)) :
      Advance c (.respond (.response r))
        { c with pc := x.conclude r, stored := stored }

end

variable {x : Setting} {repr : Json → String} {lower : String → String} {iso : Iso}

theorem failed_authFailure (e : Raised) : Failed x (x.authFailure e) := by
  cases e with
  | connectorAuthError message => exact ⟨message, rfl⟩
  | _ => exact trivial

theorem failed_requestFailure (e : Raised) : Failed x (x.requestFailure e) := by
  cases e with
  | httpError message => exact ⟨message, rfl⟩
  | _ => exact trivial

theorem failed_of_failure {creds : Dict} {a : Action} {pc : Pc}
    (h : Failure x repr lower iso creds a pc) : Failed x pc := by
  cases h with
  | unsent => exact failed_requestFailure _
  | _ => exact failed_authFailure _

/-- A call with its authentication prepared is nearer to the request. -/
theorem advance_send {c : Call} {a : Action} {stored : Dict} {refreshed : Option Dict}
    {p : Except Raised PreparedRequest} (hpc : c.pc.readying) (ha : c.pc.awaits a)
    (hp : ∃ request, p = .ok request) :
    Advance x repr lower iso c a (x.send { c with stored := stored } refreshed p) := by
  obtain ⟨request, rfl⟩ := hp
  refine .ready hpc ha rfl ?_
  revert hpc
  cases c.pc <;> simp [Pc.readying, Pc.distance]

theorem advance_prepareStep {c : Call} (hpc : c.pc = .preparing) (now : ℤ) :
    Advance x repr lower iso c (.prepare now) (x.prepareStep repr lower iso c now) := by
  have hready : c.pc.readying := by rw [hpc]; rfl
  have ha : c.pc.awaits (.prepare now) := by rw [hpc]; rfl
  unfold Setting.prepareStep
  split
  case isFalse hauth =>
    cases hprepare : prepare repr lower .ok x.authType c.currentCreds with
    | ok request => exact advance_send hready ha ⟨request, rfl⟩
    | error e => exact .fail ha (.unprepared (by rwa [Unprepared, if_neg hauth]))
  case isTrue hauth =>
    have hunprepared {e : Raised}
        (h : accessTokenIsFresh repr iso now c.currentCreds = .error e ∨
          accessTokenIsFresh repr iso now c.currentCreds = .ok false ∧
            given c.currentCreds "token_url" = false ∧
            e = .connectorAuthError "oauth2 auth requires credentials.token_url to refresh") :
        Unprepared x repr lower iso c.currentCreds now e := by
      rwa [Unprepared, if_pos hauth]
    split
    case h_1 e he => exact .fail ha (.unprepared (hunprepared (.inl he)))
    case h_2 hfresh => exact advance_send hready ha (bearerOf_of_fresh hfresh)
    case h_3 hstale =>
      split
      case isTrue => exact .ready hready ha rfl (by rw [hpc]; decide)
      case isFalse hurl =>
        exact .fail ha (.unprepared (hunprepared (.inr ⟨hstale, by simpa using hurl, rfl⟩)))

theorem advance_recheckStep {c : Call} (hpc : c.pc = .waiting) (now : ℤ) :
    Advance x repr lower iso c (.recheck now) (x.recheckStep repr iso c now) := by
  have hready : c.pc.readying := by rw [hpc]; rfl
  have ha : c.pc.awaits (.recheck now) := by rw [hpc]; rfl
  unfold Setting.recheckStep
  split
  case h_1 e he => exact .fail ha (.unchecked he)
  case h_2 hfresh => exact advance_send hready ha (bearerOf_of_fresh hfresh)
  case h_3 => exact .ready hready ha rfl (by rw [hpc]; decide)

theorem advance_tokenStep {c : Call} (hpc : c.pc = .refreshing) (now : ℤ) (answer : Outcome) :
    Advance x repr lower iso c (.token now answer) (x.tokenStep repr iso c now answer) := by
  have hready : c.pc.readying := by rw [hpc]; rfl
  have ha : c.pc.awaits (.token now answer) := by rw [hpc]; rfl
  unfold Setting.tokenStep
  split
  case h_1 e he => exact .fail ha (.unrefreshed he)
  case h_2 patch hpatch => exact advance_send hready ha (bearerOf_of_refresh hpatch)

theorem advance_respondStep {c : Call} {prepared : PreparedRequest} {refreshed : Option Dict}
    (hpc : c.pc = .sending prepared refreshed) (answer : Outcome) :
    Advance x repr lower iso c (.respond answer) (x.respondStep c refreshed answer) := by
  have ha : c.pc.awaits (.respond answer) := by rw [hpc]; rfl
  cases answer with
  | raised e => exact .fail ha .unsent
  | response r =>
    simp only [Setting.respondStep]
    split
    case isTrue hrecover =>
      split
      case isTrue => exact .recover hpc hrecover.1 hrecover.2.1 hrecover.2.2
      case isFalse hurl =>
        exact .stuck hpc hrecover.1 hrecover.2.1 hrecover.2.2 (by simpa using hurl)
    case isFalse hnot =>
      split
      case isTrue hagain => exact .again hpc hnot hagain.1 hagain.2
      case isFalse hno => exact .finish hpc hnot hno

theorem advance_forceStep {c : Call} (hpc : c.pc = .forcing) (now : ℤ) (answer : Outcome) :
    Advance x repr lower iso c (.force now answer) (x.forceStep iso c now answer) := by
  have ha : c.pc.awaits (.force now answer) := by rw [hpc]; rfl
  unfold Setting.forceStep
  split
  case h_1 e he => exact .fail ha (.unforced he)
  case h_2 => exact .recovered hpc

/-- A step is what the call awaits. -/
theorem step_cases {c c' : Call} {a : Action} (h : x.step repr lower iso c a = some c') :
    (∃ now, c.pc = .preparing ∧ a = .prepare now ∧ c' = x.prepareStep repr lower iso c now) ∨
    (∃ now, c.pc = .waiting ∧ a = .recheck now ∧ c' = x.recheckStep repr iso c now) ∨
    (∃ now answer, c.pc = .refreshing ∧ a = .token now answer ∧
      c' = x.tokenStep repr iso c now answer) ∨
    (∃ prepared refreshed answer, c.pc = .sending prepared refreshed ∧ a = .respond answer ∧
      c' = x.respondStep c refreshed answer) ∨
    ∃ now answer, c.pc = .forcing ∧ a = .force now answer ∧ c' = x.forceStep iso c now answer := by
  unfold Setting.step at h
  split at h
  case h_1 now hpc => exact .inl ⟨now, hpc, rfl, (Option.some.inj h).symm⟩
  case h_2 now hpc => exact .inr (.inl ⟨now, hpc, rfl, (Option.some.inj h).symm⟩)
  case h_3 now answer hpc =>
    exact .inr (.inr (.inl ⟨now, answer, hpc, rfl, (Option.some.inj h).symm⟩))
  case h_4 prepared refreshed answer hpc =>
    exact .inr (.inr (.inr (.inl ⟨prepared, refreshed, answer, hpc, rfl, (Option.some.inj h).symm⟩)))
  case h_5 now answer hpc =>
    exact .inr (.inr (.inr (.inr ⟨now, answer, hpc, rfl, (Option.some.inj h).symm⟩)))
  case h_6 => cases h

theorem advance_step {c c' : Call} {a : Action} (h : x.step repr lower iso c a = some c') :
    Advance x repr lower iso c a c' := by
  obtain ⟨now, hpc, rfl, rfl⟩ | ⟨now, hpc, rfl, rfl⟩ | ⟨now, answer, hpc, rfl, rfl⟩ |
    ⟨_, _, answer, hpc, rfl, rfl⟩ | ⟨now, answer, hpc, rfl, rfl⟩ := step_cases h
  · exact advance_prepareStep hpc now
  · exact advance_recheckStep hpc now
  · exact advance_tokenStep hpc now answer
  · exact advance_respondStep hpc answer
  · exact advance_forceStep hpc now answer

theorem step_isSome_iff {c : Call} {a : Action} :
    (x.step repr lower iso c a).isSome ↔ c.pc.awaits a := by
  unfold Setting.step Pc.awaits
  cases c.pc <;> cases a <;> simp

/-! ### The budgets -/

/-- What a call may still repeat: the recovery from a rejected token, and by the policy. -/
structure Budget where
  recovery : Bool
  retries : ℕ
  deriving DecidableEq

variable (x repr lower iso)

/-- What repeating after a status costs; where neither rule allows it there is nothing. -/
def spend (b : Budget) (status : ℤ) : Option Budget :=
  if b.recovery = true ∧ status ∈ authStatuses then some { b with recovery := false }
  else if 0 < b.retries ∧ x.repeats status then some { b with retries := b.retries - 1 }
  else none

/-- The budgets of a call at its start. -/
def Setting.budget : Budget := ⟨x.authType = .oauth2, x.attempts - 1⟩

/-- The budgets that are left. -/
def Call.budget (c : Call) : Budget :=
  ⟨x.authType = .oauth2 && !c.refreshUsed, c.retriesLeft⟩

/-- The responses of the upstream service, in order. -/
def responses (as : List Action) : List Response := as.filterMap fun
  | .respond (.response r) => some r
  | _ => none

def statuses (as : List Action) : List ℤ := (responses as).map (·.status)

/-- The answer is to a request, or what became of it. -/
def Action.requests : Action → ℕ
  | .respond _ => 1
  | _ => 0

/-- The answer is to a forced refresh. -/
def Action.forces : Action → ℕ
  | .force _ _ => 1
  | _ => 0

/-- The requests to the upstream service. -/
def requests (as : List Action) : ℕ := weightOf Action.requests as

/-- The forced refreshes. -/
def forcedRefreshes (as : List Action) : ℕ := weightOf Action.forces as

/-- Every repetition after these statuses was allowed, and so many budgets are left. -/
def Spent (statuses : List ℤ) (b : Budget) : Prop := runFrom (spend x) x.budget statuses = some b

/-- How a call has ended, by what it has seen and its last action. -/
inductive EndedBy (seen : List Action) (creds : Dict) : Action → Pc → Prop where
  /-- The result describes the response, after which no rule allows another request. -/
  | described {r : Response} {b : Budget} {body : Json} (hspent : Spent x (statuses seen) b)
      (hno : spend x b r.status = none) (hbody : decodeResponse r = .ok body) :
      EndedBy seen creds (.respond (.response r)) (.returned (x.describe r body))
  /-- The body of that response cannot be decoded. -/
  | undecoded {r : Response} {b : Budget} {e : Raised} (hspent : Spent x (statuses seen) b)
      (hno : spend x b r.status = none) (hbody : decodeResponse r = .error e) :
      EndedBy seen creds (.respond (.response r)) (.raised e)
  /-- The response is to be recovered from, and there is no `token_url`. -/
  | unrecovered {r : Response} {b : Budget} (hspent : Spent x (statuses seen) b)
      (hrecovery : b.recovery = true) (hstatus : r.status ∈ authStatuses)
      (hurl : given creds "token_url" = false) :
      EndedBy seen creds (.respond (.response r)) x.unrecoverable
  /-- Preparing the credentials, refreshing the token or sending the request has failed. -/
  | failed {a : Action} {pc : Pc} (h : Failure x repr lower iso creds a pc) : EndedBy seen creds a pc

/-- The actions that a call has seen explain where it is. -/
structure Explained (as : List Action) (c : Call) : Prop where
  /-- Each request was repeated by a rule with budget left. -/
  repeated : ∃ b, Spent x (statuses as).dropLast b
  /-- On the way to a response all of them were. -/
  onTheWay : c.pc.underWay → Spent x (statuses as) (c.budget x)
  /-- The last one made it recover. -/
  recovering : c.pc = .forcing → ∃ front status, statuses as = front ++ [status] ∧
    Spent x front (c.budget x) ∧ (c.budget x).recovery = true ∧ status ∈ authStatuses
  /-- Its last action has ended it. -/
  ended : c.pc.ended → ∃ seen a, as = seen ++ [a] ∧
    EndedBy x repr lower iso seen c.currentCreds a c.pc

variable {x repr lower iso}

theorem statuses_append (as : List Action) (a : Action) :
    statuses (as ++ [a]) = statuses as ++ statuses [a] := by
  simp [statuses, responses]

theorem statuses_respond (r : Response) : statuses [.respond (.response r)] = [r.status] := rfl

theorem Spent.snoc {before : List ℤ} {b b' : Budget} {status : ℤ} (h : Spent x before b)
    (hspend : spend x b status = some b') : Spent x (before ++ [status]) b' := by
  rw [Spent, runFrom_append, h]
  simp [hspend]

/-- Only the upstream service answers with a status. -/
theorem statuses_of_not_sending {c : Call} {a : Action} (ha : c.pc.awaits a)
    (hpc : ∀ prepared refreshed, c.pc ≠ .sending prepared refreshed) : statuses [a] = [] := by
  cases a with
  | respond answer =>
    cases hc : c.pc with
    | sending prepared refreshed => exact absurd hc (hpc prepared refreshed)
    | _ => rw [hc] at ha; cases ha
  | _ => rfl

/-- What has been spent is what the budgets of the call say. -/
theorem spend_recover {c : Call} {status : ℤ} (hused : c.refreshUsed = false)
    (hstatus : status ∈ authStatuses) (hauth : x.authType = .oauth2) :
    (c.budget x).recovery = true ∧
      spend x (c.budget x) status = some { c.budget x with recovery := false } := by
  have hrecovery : (c.budget x).recovery = true := by simp [Call.budget, hauth, hused]
  exact ⟨hrecovery, if_pos ⟨hrecovery, hstatus⟩⟩

theorem not_recovery_iff {c : Call} {status : ℤ} :
    ¬ ((c.budget x).recovery = true ∧ status ∈ authStatuses) ↔
      ¬ (c.refreshUsed = false ∧ status ∈ authStatuses ∧ x.authType = .oauth2) := by
  simp only [Call.budget, Bool.and_eq_true, decide_eq_true_iff, Bool.not_eq_true']
  tauto

theorem explained_start (creds : Dict) :
    Explained x repr lower iso [] (x.start creds) where
  repeated := ⟨x.budget, rfl⟩
  onTheWay _ := by simp [Spent, statuses, responses, Call.budget, Setting.start, Setting.budget]
  recovering h := by cases h
  ended h := by cases h

theorem underWay_of_sending {pc : Pc} (h : ∃ prepared refreshed, pc = .sending prepared refreshed) :
    pc.underWay := by
  obtain ⟨_, _, rfl⟩ := h
  rfl

theorem underWay_of_readying {pc : Pc} (h : pc.readying) : pc.underWay := by
  cases pc <;> first | rfl | cases h

theorem ended_of_failed {pc : Pc} (h : Failed x pc) : pc.ended := by
  cases pc <;> first | rfl | cases h

theorem ended_conclude (r : Response) : (x.conclude r).ended := by
  unfold Setting.conclude
  cases decodeResponse r <;> rfl

theorem not_underWay_of_ended {pc : Pc} (h : pc.ended) : pc.underWay = false := by
  cases pc <;> first | rfl | cases h

theorem repeated_step {seen : List Action} {c : Call} {a : Action} (hc : Explained x repr lower iso seen c)
    (ha : c.pc.awaits a) : ∃ b, Spent x (statuses (seen ++ [a])).dropLast b := by
  rw [statuses_append]
  by_cases hpc : ∃ prepared refreshed, c.pc = .sending prepared refreshed
  · have hspent := hc.onTheWay (underWay_of_sending hpc)
    cases a with
    | respond answer =>
      cases answer with
      | raised e =>
        rw [show statuses [.respond (.raised e)] = [] from rfl, List.append_nil]
        exact hc.repeated
      | response r =>
        rw [statuses_respond, List.dropLast_concat]
        exact ⟨_, hspent⟩
    | _ =>
      obtain ⟨prepared, refreshed, heq⟩ := hpc
      rw [heq] at ha
      cases ha
  · rw [statuses_of_not_sending ha fun prepared refreshed heq => hpc ⟨prepared, refreshed, heq⟩,
      List.append_nil]
    exact hc.repeated

theorem Explained.of_underWay {seen : List Action} {c : Call}
    (hrepeated : ∃ b, Spent x (statuses seen).dropLast b) (hpc : c.pc.underWay)
    (hspent : Spent x (statuses seen) (c.budget x)) : Explained x repr lower iso seen c where
  repeated := hrepeated
  onTheWay _ := hspent
  recovering heq := by rw [heq] at hpc; cases hpc
  ended hended := absurd hpc (Bool.eq_false_iff.mp (not_underWay_of_ended hended))

theorem Explained.of_ended {seen : List Action} {a : Action} {c : Call}
    (hrepeated : ∃ b, Spent x (statuses (seen ++ [a])).dropLast b) (hended : c.pc.ended)
    (h : EndedBy x repr lower iso seen c.currentCreds a c.pc) :
    Explained x repr lower iso (seen ++ [a]) c where
  repeated := hrepeated
  onTheWay hpc := absurd hpc (Bool.eq_false_iff.mp (not_underWay_of_ended hended))
  recovering heq := by rw [heq] at hended; cases hended
  ended _ := ⟨seen, a, rfl, h⟩

/-- After the last response the call has ended by it. -/
theorem endedBy_conclude {seen : List Action} {creds : Dict} {r : Response} {b : Budget}
    (hspent : Spent x (statuses seen) b) (hno : spend x b r.status = none) :
    EndedBy x repr lower iso seen creds (.respond (.response r)) (x.conclude r) := by
  unfold Setting.conclude
  cases hbody : decodeResponse r with
  | ok body => exact .described hspent hno hbody
  | error e => exact .undecoded hspent hno hbody

/-- Whatever happens, what the call has seen explains where it is. -/
theorem explained_step {seen : List Action} {c c' : Call} {a : Action}
    (hc : Explained x repr lower iso seen c) (h : x.step repr lower iso c a = some c') :
    Explained x repr lower iso (seen ++ [a]) c' := by
  have ha : c.pc.awaits a := step_isSome_iff.mp (by rw [h]; rfl)
  have hrepeated := repeated_step hc ha
  cases advance_step h with
  | ready hpc _ hnext _ =>
    refine .of_underWay hrepeated hnext ?_
    rw [statuses_append, statuses_of_not_sending ha, List.append_nil]
    · exact hc.onTheWay (underWay_of_readying hpc)
    · intro _ _ heq
      rw [heq] at hpc
      cases hpc
  | fail _ hfailure =>
    exact .of_ended hrepeated (ended_of_failed (failed_of_failure hfailure)) (.failed hfailure)
  | @recover r _ _ hpc hused hstatus hauth =>
    refine ⟨hrepeated, fun hpc' => ?_, fun _ => ?_, fun hpc' => ?_⟩
    · cases hpc'
    · exact ⟨statuses seen, r.status, by rw [statuses_append, statuses_respond],
        hc.onTheWay (underWay_of_sending ⟨_, _, hpc⟩), (spend_recover hused hstatus hauth).1, hstatus⟩
    · cases hpc'
  | @stuck r _ _ hpc hused hstatus hauth hurl =>
    exact .of_ended hrepeated rfl (.unrecovered (hc.onTheWay (underWay_of_sending ⟨_, _, hpc⟩))
      (spend_recover hused hstatus hauth).1 hstatus hurl)
  | @recovered now answer _ _ hpc =>
    refine .of_underWay hrepeated rfl ?_
    obtain ⟨front, status, hstatuses, hspent, hrecovery, hauth⟩ := hc.recovering hpc
    rw [statuses_append, show statuses [.force now answer] = [] from rfl, List.append_nil,
      hstatuses]
    refine hspent.snoc ?_
    rw [spend, if_pos ⟨hrecovery, hauth⟩]
    simp [Call.budget]
  | @again r _ _ hpc hnot hleft hstatus =>
    refine .of_underWay hrepeated rfl ?_
    rw [statuses_append, statuses_respond]
    refine (hc.onTheWay (underWay_of_sending ⟨_, _, hpc⟩)).snoc ?_
    rw [spend, if_neg (not_recovery_iff.mpr hnot), if_pos ⟨hleft, hstatus⟩]
    rfl
  | @finish r _ _ _ hpc hnot hno =>
    refine .of_ended hrepeated (ended_conclude r)
      (endedBy_conclude (hc.onTheWay (underWay_of_sending ⟨_, _, hpc⟩)) ?_)
    rw [spend, if_neg (not_recovery_iff.mpr hnot)]
    exact if_neg hno

/-! ### The call ends -/

variable (x)

/-- The recovery, where it is not used up. -/
def Call.recoveries (c : Call) : ℕ := if (c.budget x).recovery then 1 else 0

/-- The forced refreshes that a call can still make. -/
def refreshesLeft (c : Call) : ℕ := match c.pc with
  | .forcing => 1
  | .returned _ | .raised _ => 0
  | _ => c.recoveries x

/-- The requests that a call can still send. -/
def requestsLeft (c : Call) : ℕ := match c.pc with
  | .forcing => c.retriesLeft + 1
  | .returned _ | .raised _ => 0
  | _ => c.retriesLeft + c.recoveries x + 1

/-- The steps that a call can still take. -/
def stepsLeft (c : Call) : ℕ := match c.pc with
  | .returned _ | .raised _ => 0
  | _ => 5 * requestsLeft x c + c.pc.distance

variable {x}

theorem not_ended_of_awaits {pc : Pc} {a : Action} (h : pc.awaits a) : pc.ended = false := by
  cases pc <;> first | rfl | cases h

theorem requestsLeft_underWay {c : Call} (h : c.pc.underWay) :
    requestsLeft x c = c.retriesLeft + c.recoveries x + 1 := by
  unfold requestsLeft
  revert h
  cases c.pc <;> simp [Pc.underWay]

theorem requestsLeft_ended {c : Call} (h : c.pc.ended) : requestsLeft x c = 0 := by
  unfold requestsLeft
  revert h
  cases c.pc <;> simp [Pc.ended]

theorem stepsLeft_ended {c : Call} (h : c.pc.ended) : stepsLeft x c = 0 := by
  unfold stepsLeft
  revert h
  cases c.pc <;> simp [Pc.ended]

theorem stepsLeft_of_not_ended {c : Call} (h : c.pc.ended = false) :
    stepsLeft x c = 5 * requestsLeft x c + c.pc.distance := by
  unfold stepsLeft
  revert h
  cases c.pc <;> simp [Pc.ended]

theorem one_le_requestsLeft {c : Call} (h : c.pc.ended = false) : 1 ≤ requestsLeft x c := by
  unfold requestsLeft
  revert h
  cases c.pc <;> simp [Pc.ended]

theorem requests_of_readying {pc : Pc} {a : Action} (hpc : pc.readying) (ha : pc.awaits a) :
    a.requests = 0 ∧ a.forces = 0 := by
  cases pc <;> cases a <;> first | exact ⟨rfl, rfl⟩ | (cases hpc; done) | cases ha

theorem requests_le_one (a : Action) : a.requests ≤ 1 := by
  cases a <;> simp [Action.requests]

theorem recoveries_of_recover {c : Call} (hused : c.refreshUsed = false)
    (hauth : x.authType = .oauth2) : c.recoveries x = 1 := by
  simp [Call.recoveries, Call.budget, hused, hauth]

/-- A request takes one off those that are left. -/
theorem requestsLeft_step {c c' : Call} {a : Action}
    (h : x.step repr lower iso c a = some c') :
    requestsLeft x c' + a.requests ≤ requestsLeft x c := by
  cases advance_step h with
  | ready hpc ha hnext =>
    rw [requestsLeft_underWay (underWay_of_readying hpc), requestsLeft_underWay hnext,
      (requests_of_readying hpc ha).1]
    rfl
  | fail ha hfailure =>
    have hleft : 1 ≤ requestsLeft x c := one_le_requestsLeft (not_ended_of_awaits ha)
    have hone := requests_le_one a
    rw [requestsLeft_ended (ended_of_failed (failed_of_failure hfailure))]
    omega
  | stuck hpc =>
    rw [requestsLeft_underWay (underWay_of_sending ⟨_, _, hpc⟩), requestsLeft_ended rfl]
    simp [Action.requests]
  | recover hpc hused _ hauth =>
    have hone : c.recoveries x = 1 := recoveries_of_recover hused hauth
    rw [requestsLeft_underWay (underWay_of_sending ⟨_, _, hpc⟩), hone]
    rfl
  | @recovered _ _ creds stored hpc =>
    have hleft : requestsLeft x c = c.retriesLeft + 1 := by rw [requestsLeft, hpc]
    rw [hleft, requestsLeft_underWay rfl]
    simp [Call.recoveries, Call.budget, Action.requests]
  | again hpc _ hleft =>
    have hsame : ({ c with pc := .preparing, retriesLeft := c.retriesLeft - 1 } : Call).recoveries x =
        c.recoveries x := rfl
    rw [requestsLeft_underWay (underWay_of_sending ⟨_, _, hpc⟩), requestsLeft_underWay rfl, hsame]
    simp only [Action.requests]
    omega
  | @finish r _ _ _ hpc =>
    rw [requestsLeft_underWay (underWay_of_sending ⟨_, _, hpc⟩),
      requestsLeft_ended (ended_conclude r)]
    simp [Action.requests]

/-- Every step takes one off those that are left. -/
theorem decreasing_step : Decreasing (x.step repr lower iso) (stepsLeft x) := by
  intro c a c' h
  have hrequests := requestsLeft_step h
  have hc : c.pc.ended = false := not_ended_of_awaits (step_isSome_iff.mp (by rw [h]; rfl))
  have hleft : 1 ≤ requestsLeft x c := one_le_requestsLeft hc
  rw [stepsLeft_of_not_ended hc]
  cases advance_step h with
  | @ready _ pc _ _ _ hnext hnearer =>
    have hopen : pc.ended = false := by cases pc <;> first | rfl | cases hnext
    rw [stepsLeft_of_not_ended hopen]
    simp only
    omega
  | fail _ hfailure =>
    rw [stepsLeft_ended (ended_of_failed (failed_of_failure hfailure))]
    omega
  | stuck =>
    rw [stepsLeft_ended rfl]
    omega
  | recover =>
    rw [stepsLeft_of_not_ended rfl]
    simp only [Pc.distance, Action.requests] at hrequests ⊢
    omega
  | recovered hpc =>
    rw [stepsLeft_of_not_ended rfl, hpc]
    simp only [Pc.distance, Action.requests] at hrequests ⊢
    omega
  | again =>
    rw [stepsLeft_of_not_ended rfl]
    simp only [Pc.distance, Action.requests] at hrequests ⊢
    omega
  | @finish r =>
    rw [stepsLeft_ended (ended_conclude r)]
    omega

theorem refreshesLeft_underWay {c : Call} (h : c.pc.underWay) :
    refreshesLeft x c = c.recoveries x := by
  unfold refreshesLeft
  revert h
  cases c.pc <;> simp [Pc.underWay]

theorem refreshesLeft_ended {c : Call} (h : c.pc.ended) : refreshesLeft x c = 0 := by
  unfold refreshesLeft
  revert h
  cases c.pc <;> simp [Pc.ended]

theorem forces_le_refreshesLeft {c : Call} {a : Action} (h : c.pc.awaits a) :
    a.forces ≤ refreshesLeft x c := by
  unfold refreshesLeft
  revert h
  cases c.pc <;> cases a <;> simp [Pc.awaits, Action.forces]

/-- A forced refresh takes one off those that are left. -/
theorem refreshesLeft_step {c c' : Call} {a : Action}
    (h : x.step repr lower iso c a = some c') :
    refreshesLeft x c' + a.forces ≤ refreshesLeft x c := by
  cases advance_step h with
  | ready hpc ha hnext =>
    rw [refreshesLeft_underWay (underWay_of_readying hpc), refreshesLeft_underWay hnext,
      (requests_of_readying hpc ha).2]
    rfl
  | fail ha hfailure =>
    rw [refreshesLeft_ended (ended_of_failed (failed_of_failure hfailure)), Nat.zero_add]
    exact forces_le_refreshesLeft ha
  | stuck hpc =>
    rw [refreshesLeft_ended rfl, Nat.zero_add]
    exact forces_le_refreshesLeft (by rw [hpc]; rfl)
  | recover hpc hused _ hauth =>
    rw [refreshesLeft_underWay (underWay_of_sending ⟨_, _, hpc⟩),
      recoveries_of_recover hused hauth]
    rfl
  | recovered hpc =>
    have hleft : refreshesLeft x c = 1 := by rw [refreshesLeft, hpc]
    rw [hleft, refreshesLeft_underWay rfl]
    simp [Call.recoveries, Call.budget, Action.forces]
  | again hpc =>
    rw [refreshesLeft_underWay (underWay_of_sending ⟨_, _, hpc⟩), refreshesLeft_underWay rfl]
    rfl
  | @finish r _ _ _ hpc =>
    rw [refreshesLeft_ended (ended_conclude r), Nat.zero_add]
    exact forces_le_refreshesLeft (by rw [hpc]; rfl)

/-! ### What a call comes to -/

/-- What there is at a moment: the time, and what the IdP and the upstream service answer. -/
structure Moment where
  now : ℤ
  idp : Outcome
  upstream : Outcome

/-- The action by which the call goes on. -/
def Pc.next (m : Moment) : Pc → Action
  | .preparing => .prepare m.now
  | .waiting => .recheck m.now
  | .refreshing => .token m.now m.idp
  | .sending _ _ => .respond m.upstream
  | .forcing => .force m.now m.idp
  | .returned _ | .raised _ => .prepare m.now

theorem step_next {c : Call} (h : c.pc.ended = false) (m : Moment) :
    ∃ c', x.step repr lower iso c (c.pc.next m) = some c' := by
  rw [← Option.isSome_iff_exists, step_isSome_iff]
  revert h
  cases c.pc <;> simp [Pc.ended, Pc.next, Pc.awaits]

/-- The requests the policy allows, and one more for oauth2. -/
theorem requestsLeft_start (creds : Dict) : requestsLeft x (x.start creds) =
    x.attempts + if x.authType = .oauth2 then 1 else 0 := by
  have hpos : 1 ≤ x.attempts := by
    unfold Setting.attempts
    cases x.retryPolicy with
    | none => exact Nat.le_refl 1
    | some p => exact p.one_le
  rw [requestsLeft_underWay rfl]
  simp only [Call.recoveries, Call.budget, Setting.start, Bool.not_false, Bool.and_true,
    decide_eq_true_iff]
  omega

variable (x repr lower iso)

/-- What a run of a call has come to. -/
structure Executed (as : List Action) (c : Call) : Prop where
  /-- As many requests as the policy allows, and one more for oauth2. -/
  requests : requests as ≤ x.attempts + if x.authType = .oauth2 then 1 else 0
  /-- One forced refresh, for oauth2. -/
  forced : forcedRefreshes as ≤ if x.authType = .oauth2 then 1 else 0
  /-- Each request was repeated by one of the two rules, from its budget. -/
  repeated : ∃ b, Spent x (statuses as).dropLast b
  /-- Its last action has ended it: a response after which no rule allowed another request, or a
      failure of the authentication or of the request. -/
  ended : c.pc.ended → ∃ seen a, as = seen ++ [a] ∧
    EndedBy x repr lower iso seen c.currentCreds a c.pc

/-- Every call ends, whatever it is answered, and every run of it is explained by its budgets. -/
theorem call_run (creds : Dict) :
    (∀ as c, runFrom (x.step repr lower iso) (x.start creds) as = some c →
      Executed x repr lower iso as c) ∧
      ∀ moments : ℕ → Moment, ∃ steps c, runFrom (x.step repr lower iso) (x.start creds)
        (played (x.step repr lower iso) (fun c n => c.pc.next (moments n)) steps (x.start creds) 0) =
          some c ∧ c.pc.ended := by
  constructor
  · intro as c hrun
    have hexplained : Explained x repr lower iso ([] ++ as) c :=
      history_run (fun _ _ _ _ => explained_step) (explained_start creds) hrun
    have hrequests : weightOf Action.requests as + requestsLeft x c ≤
        requestsLeft x (x.start creds) := weightOf_add_le (fun _ _ _ h => requestsLeft_step h) hrun
    have hforced : weightOf Action.forces as + refreshesLeft x c ≤
        refreshesLeft x (x.start creds) := weightOf_add_le (fun _ _ _ h => refreshesLeft_step h) hrun
    have hstart : refreshesLeft x (x.start creds) = (x.start creds).recoveries x :=
      refreshesLeft_underWay rfl
    rw [requestsLeft_start] at hrequests
    refine ⟨?_, ?_, hexplained.repeated, hexplained.ended⟩
    · rw [Execution.requests]
      omega
    · have hone : (x.start creds).recoveries x = if x.authType = .oauth2 then 1 else 0 := by
        simp [Call.recoveries, Call.budget, Setting.start]
      rw [forcedRefreshes, ← hone]
      omega
  · intro moments
    have hon (c : Call) (n : ℕ) (hc : ¬ c.pc.ended = true) :
        ∃ c', x.step repr lower iso c (c.pc.next (moments n)) = some c' :=
      step_next (Bool.eq_false_iff.mpr hc) (moments n)
    obtain ⟨steps, -, c, hrun, hended⟩ := ends decreasing_step hon (x.start creds) 0
    exact ⟨steps, c, hrun, hended⟩

/-- A request for an oauth2 connector, without a policy. -/
def getOnce : Setting := ⟨.oauth2, .get, "https://api.test/me".toList, none, true⟩

def oldTokens : Dict :=
  [("access_token", .str "old"), ("refresh_token", .str "r0"), ("token_url", .str "https://idp.test")]

def answered (status : ℤ) (body : Json) : Response := ⟨status, "application/json", [], "", .body body⟩

/-- The token is rejected, and so is its refresh. -/
def refreshRejected : List Action :=
  [.prepare 0, .respond (.response (answered 401 (.obj []))),
    .force 0 (.response (answered 400 (.obj [])))]

/-- The result is not the response that neither rule could repeat, it is that of the refresh. -/
theorem rejected_not_described : ∃ c result,
    runFrom (getOnce.step (fun _ => "") id sampleIso) (getOnce.start oldTokens) refreshRejected =
      some c ∧
      c.pc = .returned result ∧ result.statusCode = none ∧
      responses refreshRejected = [answered 401 (.obj [])] :=
  ⟨_, _, rfl, rfl, rfl, rfl⟩

end LunaCore.Connectors.Execution
