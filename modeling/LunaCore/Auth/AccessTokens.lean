import LunaCore.Flow.NodeConfig
import LunaCore.Schemes.Provenance

/-! Access tokens and handshake states: who is let in, and by what.

    register, login, refresh ──▶ access token ──▶ routes: active, verified, permitted
    /oauth2/start, permitted ──▶ state token ───▶ /oauth2/callback
                                 either ────────▶ sockets

    Both kinds are signed with one key, and a route or the callback tells them apart by the claims
    alone. A socket asks only for a good signature and the time. -/

namespace LunaCore.Auth.AccessTokens
open LunaCore.Schemes LunaCore.Values
open LunaCore.Flow (given)

/-- Times are microseconds; those in a token are whole seconds. -/
def second : ℕ := 1000000

/-- The id of a row. No two tables share one. -/
inductive Uuid where
  | user (n : ℕ)
  | connector (n : ℕ)
  deriving DecidableEq, Repr

/-- How ids are written, and how `uuid.UUID` reads them. -/
structure UuidText where
  str : Uuid → String
  parse : String → Option Uuid
  parse_str : ∀ id, parse (str id) = some id
  str_ne : ∀ id, str id ≠ ""

structure Claims where
  sub : Option String
  iat : ℕ
  exp : ℕ
  type : Option String
  scope : Option String
  deriving DecidableEq, Repr

/-- What a caller presents: a token that was signed, or a text without a good signature. -/
inductive Token where
  | signed (i : ℕ)
  | other
  deriving DecidableEq, Repr

/-- The scheme and the token of an Authorization header. -/
abbrev Credentials := Option (String × Token)

structure User where
  email : String
  passwordHash : String
  role : String
  isActive : Bool
  isVerified : Bool
  deriving DecidableEq, Repr

structure Connector where
  oauth2 : Bool
  credentials : Dict

structure Setup where
  accessTokenExpireMinutes : ℕ
  oauth2StateTtlSeconds : ℕ
  emailVerificationRequired : Bool
  /-- The rows of `permissions`: app, role and permission. -/
  permissions : List (String × String × String)
  uuids : UuidText
  /-- `email.lower().strip()`. -/
  normalize : String → String
  /-- bcrypt, with a salt. -/
  hashPassword : ℕ → String → String
  verifyPassword : String → String → Bool

structure HttpError where
  status : ℕ
  detail : String
  deriving DecidableEq, Repr

inductive JwtError where
  | expired
  | invalid
  deriving DecidableEq, Repr

structure State where
  now : ℕ
  users : List User
  connectors : ℕ → Option Connector
  /-- The owner of each conversation. -/
  conversations : List ℕ
  signed : List Claims

def State.sign (s : State) (claims : Claims) : State := { s with signed := s.signed ++ [claims] }

section
variable (setup : Setup) (s : State)

/-! ### Tokens -/

/-- `create_access_token`. -/
def createAccessToken (subject : Uuid) : Claims where
  sub := some (setup.uuids.str subject)
  iat := s.now / second
  exp := (s.now + setup.accessTokenExpireMinutes * 60 * second) / second
  type := some "access"
  scope := none

/-- `make_state`. -/
def makeState (connectorId : Uuid) : Claims where
  sub := some (setup.uuids.str connectorId)
  iat := s.now / second
  exp := (s.now + setup.oauth2StateTtlSeconds * second) / second
  type := none
  scope := some "oauth2_state"

/-- `jwt.decode`: the signature, the required claims, and the times. -/
def jwtDecode (required : Bool) : Token → Except JwtError Claims
  | .other => .error .invalid
  | .signed i => match s.signed[i]? with
    | none => .error .invalid
    | some claims =>
      if required = true ∧ claims.sub = none then .error .invalid
      else if s.now < claims.iat * second then .error .invalid
      else if claims.exp * second ≤ s.now then .error .expired
      else .ok claims

/-- `decode_access_token`. -/
def decodeAccessToken (token : Token) : Except JwtError Claims := jwtDecode s true token

/-- `verify_state`. -/
def verifyState (token : Token) : Except String Uuid :=
  match jwtDecode s false token with
  | .error .expired => .error "oauth2 state expired — restart the connection flow"
  | .error .invalid => .error "invalid oauth2 state"
  | .ok claims =>
    if claims.scope ≠ some "oauth2_state" then
      .error "state token is not an oauth2 handshake token"
    else match claims.sub with
      | none => .error "oauth2 state missing connector id"
      | some sub => match setup.uuids.parse sub with
        | none => .error "oauth2 state has malformed connector id"
        | some id => .ok id

/-- `user_id_from_ws_token`. -/
def userIdFromWsToken (token : Option Token) : Option Uuid :=
  token.bind fun token => match decodeAccessToken s token with
    | .error _ => none
    | .ok claims => claims.sub.bind fun sub => if sub = "" then none else setup.uuids.parse sub

/-- `_user_from_token`. -/
def userFromToken (token : Option Token) : Option Uuid := userIdFromWsToken setup s token

/-! ### The gates -/

/-- `db.get(User, user_id)`. -/
def State.user? : Uuid → Option (ℕ × User)
  | .user n => (s.users[n]?).map fun user => (n, user)
  | .connector _ => none

/-- `get_current_user_allow_unverified`. -/
def getCurrentUserAllowUnverified : Credentials → Except HttpError (ℕ × User)
  | none => .error ⟨401, "Missing bearer token"⟩
  | some (scheme, token) =>
    if scheme.toLower ≠ "bearer" then .error ⟨401, "Missing bearer token"⟩
    else match decodeAccessToken s token with
      | .error .expired => .error ⟨401, "Token expired"⟩
      | .error .invalid => .error ⟨401, "Invalid token"⟩
      | .ok claims =>
        if claims.type ≠ some "access" then .error ⟨401, "Invalid token type"⟩
        else match claims.sub.bind setup.uuids.parse with
          | none => .error ⟨401, "Invalid token subject"⟩
          | some id => match s.user? id with
            | none => .error ⟨401, "User not found or inactive"⟩
            | some (n, user) =>
              if user.isActive then .ok (n, user)
              else .error ⟨401, "User not found or inactive"⟩

/-- `get_current_user`. -/
def getCurrentUser (credentials : Credentials) : Except HttpError (ℕ × User) :=
  match getCurrentUserAllowUnverified setup s credentials with
  | .error e => .error e
  | .ok (n, user) =>
    if setup.emailVerificationRequired ∧ ¬ user.isVerified then .error ⟨403, "email_not_verified"⟩
    else .ok (n, user)

/-- `has_permission`: in any app. -/
def hasPermission (user : User) (permission : String) : Bool :=
  setup.permissions.any fun row => row.2.1 = user.role ∧ row.2.2 = permission

/-- `require_permission`. -/
def requirePermission (permission : String) (credentials : Credentials) :
    Except HttpError (ℕ × User) :=
  match getCurrentUser setup s credentials with
  | .error e => .error e
  | .ok (n, user) =>
    if hasPermission setup user permission then .ok (n, user)
    else .error ⟨403, "Insufficient permissions"⟩

/-- `stream`: the socket of a conversation is accepted. -/
def stream (token : Option Token) (conversation : ℕ) : Bool :=
  (userFromToken setup s token).any fun id =>
    (s.conversations[conversation]?).any fun owner => Uuid.user owner = id

/-! ### What signs tokens -/

/-- `authenticate_user`. -/
def authenticateUser (email password : String) : Option ℕ :=
  (s.users.findIdx? fun user => user.email = setup.normalize email).bind fun n =>
    (s.users[n]?).bind fun user =>
      if user.isActive ∧ setup.verifyPassword password user.passwordHash then some n else none

/-- The access token of `issue_tokens`. -/
def issueTokens (n : ℕ) : State := s.sign (createAccessToken setup s (.user n))

/-- `register`: the new account, and its first tokens. -/
def register (email password : String) (salt : ℕ) : Except HttpError State :=
  if s.users.any fun user => user.email = setup.normalize email then
    .error ⟨409, "Email already registered"⟩
  else
    let user : User :=
      ⟨setup.normalize email, setup.hashPassword salt password, "user", true, false⟩
    .ok (issueTokens setup { s with users := s.users ++ [user] } s.users.length)

/-- `login`, past its rate limit. -/
def login (email password : String) : Except HttpError State :=
  match authenticateUser setup s email password with
  | none => .error ⟨401, "Invalid email or password"⟩
  | some n => .ok (issueTokens setup s n)

/-- `oauth2_start`. -/
def oauth2Start (credentials : Credentials) (n : ℕ) : Except HttpError State :=
  match requirePermission setup s "connectors:update" credentials with
  | .error e => .error e
  | .ok _ => match s.connectors n with
    | none => .error ⟨404, "connector not found"⟩
    | some connector =>
      if ¬ connector.oauth2 then .error ⟨400, "connector auth_type is not oauth2"⟩
      else if ¬ (given connector.credentials "authorize_url" ∧
          given connector.credentials "client_id") then
        .error ⟨400, "oauth2 connector is missing authorize_url and/or client_id " ++
          "in credentials — finish configuring it first"⟩
      else .ok (s.sign (makeState setup s (.connector n)))

/-- `oauth2_callback`, up to the exchange of the code: the connector that the tokens are for. -/
def oauth2Callback (token : Token) : Except HttpError (ℕ × Connector) :=
  match verifyState setup s token with
  | .error text => .error ⟨400, text⟩
  | .ok (.user _) => .error ⟨404, "connector not found"⟩
  | .ok (.connector n) => match s.connectors n with
    | none => .error ⟨404, "connector not found"⟩
    | some connector =>
      if ¬ connector.oauth2 then .error ⟨400, "connector auth_type is not oauth2"⟩
      else if ¬ (given connector.credentials "token_url" ∧ given connector.credentials "client_id" ∧
          given connector.credentials "client_secret") then
        .error ⟨400, "oauth2 connector is missing token_url / client_id / " ++
          "client_secret — cannot complete the handshake"⟩
      else .ok (n, connector)

end

/-! ### The service -/

inductive Action where
  | wait (elapsed : ℕ)
  | register (email password : String) (salt : ℕ)
  | login (email password : String)
  /-- `rotate_refresh_token` renews a session of the user. -/
  | refresh (n : ℕ)
  /-- `verify_email`, with a code that fits or not. -/
  | verifyEmail (credentials : Credentials) (fits : Bool)
  /-- `update_role`. -/
  | assignRole (credentials : Credentials) (n : ℕ) (role : String)
  /-- No route does this; the host may. -/
  | setActive (n : ℕ) (active : Bool)
  /-- The routes that create, update and destroy connectors. -/
  | saveConnector (credentials : Credentials) (n : ℕ) (row : Option Connector)
  /-- The route that starts a conversation. -/
  | converse (credentials : Credentials)
  | oauth2Start (credentials : Credentials) (n : ℕ)

/-- What the change of a connector takes. -/
def connectorPermission (old new : Option Connector) : String :=
  match old, new with
  | _, none => "connectors:delete"
  | none, some _ => "connectors:create"
  | some _, some _ => "connectors:update"

/-- A request, with the state it leaves where it is not refused. -/
def handle (setup : Setup) (s : State) : Action → Except HttpError State
  | .wait elapsed => .ok { s with now := s.now + elapsed }
  | .register email password salt => register setup s email password salt
  | .login email password => login setup s email password
  | .refresh n => if n < s.users.length then .ok (issueTokens setup s n) else .ok s
  | .verifyEmail credentials fits => match getCurrentUserAllowUnverified setup s credentials with
    | .error e => .error e
    | .ok (n, _) =>
      if fits then
        .ok { s with users := s.users.modify n fun user => { user with isVerified := true } }
      else .error ⟨400, "invalid"⟩
  | .assignRole credentials n role =>
    match requirePermission setup s "users:manage" credentials with
    | .error e => .error e
    | .ok _ =>
      if n < s.users.length then
        .ok { s with users := s.users.modify n fun user => { user with role := role } }
      else .error ⟨404, "user not found"⟩
  | .setActive n active =>
    .ok { s with users := s.users.modify n fun user => { user with isActive := active } }
  | .saveConnector credentials n row =>
    match requirePermission setup s (connectorPermission (s.connectors n) row) credentials with
    | .error e => .error e
    | .ok _ => .ok { s with connectors := Function.update s.connectors n row }
  | .converse credentials => match getCurrentUser setup s credentials with
    | .error e => .error e
    | .ok (n, _) => .ok { s with conversations := s.conversations ++ [n] }
  | .oauth2Start credentials n => oauth2Start setup s credentials n

/-- A refused request changes nothing. -/
def step (setup : Setup) (s : State) (a : Action) : Option State :=
  match handle setup s a with
  | .ok t => some t
  | .error _ => some s

/-- The user that a request gives a session to. -/
def issues (setup : Setup) (s : State) : Action → Option ℕ
  | .register email _ _ =>
    if s.users.any fun user => user.email = setup.normalize email then none else some s.users.length
  | .login email password => authenticateUser setup s email password
  | .refresh n => if n < s.users.length then some n else none
  | _ => none

/-- The connector that a request starts a handshake for. -/
def starts (setup : Setup) (s : State) : Action → Option ℕ
  | .oauth2Start credentials n => match oauth2Start setup s credentials n with
    | .ok _ => some n
    | .error _ => none
  | _ => none

/-- What a request signs. -/
def made (setup : Setup) (s : State) (a : Action) : Option Claims :=
  ((issues setup s a).map fun n => createAccessToken setup s (.user n)).or
    ((starts setup s a).map fun n => makeState setup s (.connector n))

section
variable (setup : Setup) (start : State) (as : List Action) (now : ℕ)

/-- The token was signed in the run when this user registered, logged in or renewed a session, and
    has not run out. -/
def Session (token : Token) (n : ℕ) : Prop :=
  ∃ before a after mid, as = before ++ a :: after ∧ runFrom (step setup) start before = some mid ∧
    token = .signed mid.signed.length ∧ issues setup mid a = some n ∧
    now < (mid.now / second + setup.accessTokenExpireMinutes * 60) * second

/-- The token was signed in the run when a handshake was started for this connector, and has not run
    out. -/
def Handshake (token : Token) (n : ℕ) : Prop :=
  ∃ before a after mid, as = before ++ a :: after ∧ runFrom (step setup) start before = some mid ∧
    token = .signed mid.signed.length ∧ starts setup mid a = some n ∧
    now < (mid.now / second + setup.oauth2StateTtlSeconds) * second

/-- The role was the user's from the start, or is that of a new account, or somebody who was let in
    to manage users has assigned it. -/
def HasCome (n : ℕ) (role : String) : Prop :=
  role = ((start.users[n]?).map User.role).getD "user" ∨
    ∃ before credentials after mid, as = before ++ .assignRole credentials n role :: after ∧
      runFrom (step setup) start before = some mid ∧
      ∃ who, requirePermission setup mid "users:manage" credentials = .ok who

end

/-- Who is let in after a run, and by what. -/
structure Admits (setup : Setup) (start : State) (as : List Action) (s : State) : Prop where
  routes : ∀ permission credentials n user,
    requirePermission setup s permission credentials = .ok (n, user) ↔
      ∃ scheme token, credentials = some (scheme, token) ∧ scheme.toLower = "bearer" ∧
        Session setup start as s.now token n ∧ s.users[n]? = some user ∧ user.isActive = true ∧
        (setup.emailVerificationRequired = true → user.isVerified = true) ∧
        ∃ app, (app, user.role, permission) ∈ setup.permissions
  callback : ∀ token n connector, oauth2Callback setup s token = .ok (n, connector) ↔
    Handshake setup start as s.now token n ∧ s.connectors n = some connector ∧
      connector.oauth2 = true ∧ given connector.credentials "token_url" = true ∧
      given connector.credentials "client_id" = true ∧
      given connector.credentials "client_secret" = true
  /-- A handshake was started by who was let in to update connectors. -/
  started : ∀ token n, Handshake setup start as s.now token n →
    ∃ before credentials after mid, as = before ++ .oauth2Start credentials n :: after ∧
      runFrom (step setup) start before = some mid ∧
      ∃ who, requirePermission setup mid "connectors:update" credentials = .ok who
  streams : ∀ token conversation, stream setup s (some token) conversation = true ↔
    ∃ n, s.conversations[conversation]? = some n ∧ Session setup start as s.now token n
  sockets : ∀ token id, userIdFromWsToken setup s (some token) = some id ↔
    (∃ n, id = .user n ∧ Session setup start as s.now token n) ∨
      ∃ n, id = .connector n ∧ Handshake setup start as s.now token n
  roles : ∀ n user, s.users[n]? = some user → HasCome setup start as n user.role

/-! ### What a token is good for -/

section
variable {setup : Setup} {s t start : State} {as : List Action} {token : Token}

theorem jwtDecode_ok_iff {required : Bool} {claims : Claims} :
    jwtDecode s required token = .ok claims ↔
      ∃ i, token = .signed i ∧ s.signed[i]? = some claims ∧
        ¬ (required = true ∧ claims.sub = none) ∧ claims.iat * second ≤ s.now ∧
        s.now < claims.exp * second := by
  cases token with
  | other => simp [jwtDecode]
  | signed i =>
    rw [jwtDecode]
    cases hi : s.signed[i]? with
    | none => simp [hi]
    | some signed =>
      dsimp only
      constructor
      · intro h
        split at h
        · cases h
        split at h
        · cases h
        split at h
        · cases h
        obtain rfl := Except.ok.inj h
        exact ⟨i, rfl, hi, ‹_›, not_lt.mp ‹_›, not_le.mp ‹_›⟩
      · rintro ⟨j, hj, hsigned, hsub, hiat, hexp⟩
        obtain rfl := Token.signed.inj hj
        obtain rfl := Option.some.inj (hi.symm.trans hsigned)
        rw [if_neg hsub, if_neg (not_lt.mpr hiat), if_neg (not_le.mpr hexp)]

theorem oauth2Start_eq {credentials : Credentials} {n : ℕ}
    (h : oauth2Start setup s credentials n = .ok t) :
    t = s.sign (makeState setup s (.connector n)) ∧
      ∃ who, requirePermission setup s "connectors:update" credentials = .ok who := by
  rw [oauth2Start] at h
  split at h
  · cases h
  case h_2 who hwho =>
    split at h
    · cases h
    split at h
    · cases h
    split at h
    · cases h
    obtain rfl := Except.ok.inj h
    exact ⟨rfl, who, hwho⟩

variable (setup s) in
/-- What one request does, a constructor for each of its ways. -/
inductive Effect : Action → State → Prop
  | nothing {a : Action} (hmade : made setup s a = none) : Effect a s
  | waited (elapsed : ℕ) : Effect (.wait elapsed) { s with now := s.now + elapsed }
  | registered {email password : String} {salt : ℕ} {user : User} (hrole : user.role = "user")
      (hissues : issues setup s (.register email password salt) = some s.users.length) :
      Effect (.register email password salt) (({ s with users := s.users ++ [user] } : State).sign
        (createAccessToken setup s (.user s.users.length)))
  | issued {a : Action} {n : ℕ} (hissues : issues setup s a = some n) :
      Effect a (s.sign (createAccessToken setup s (.user n)))
  | verified {credentials : Credentials} (n : ℕ) : Effect (.verifyEmail credentials true)
      { s with users := s.users.modify n fun user => { user with isVerified := true } }
  | assigned {credentials : Credentials} {n : ℕ} {role : String} {who : ℕ × User}
      (hwho : requirePermission setup s "users:manage" credentials = .ok who) :
      Effect (.assignRole credentials n role)
        { s with users := s.users.modify n fun user => { user with role := role } }
  | activated (n : ℕ) (active : Bool) : Effect (.setActive n active)
      { s with users := s.users.modify n fun user => { user with isActive := active } }
  | saved {credentials : Credentials} (n : ℕ) (row : Option Connector) :
      Effect (.saveConnector credentials n row)
        { s with connectors := Function.update s.connectors n row }
  | conversed {credentials : Credentials} (n : ℕ) : Effect (.converse credentials)
      { s with conversations := s.conversations ++ [n] }
  | started {credentials : Credentials} {n : ℕ}
      (hstarts : starts setup s (.oauth2Start credentials n) = some n) :
      Effect (.oauth2Start credentials n) (s.sign (makeState setup s (.connector n)))

theorem effect {a : Action} (h : step setup s a = some t) : Effect setup s a t := by
  rw [step] at h
  cases a with
  | wait elapsed =>
    obtain rfl := Option.some.inj h
    exact .waited elapsed
  | register email password salt =>
    simp only [handle, register] at h
    cases hknown : s.users.any fun user => decide (user.email = setup.normalize email) with
    | true =>
      obtain rfl : s = t := by simpa [hknown] using h
      exact .nothing (by simp [made, issues, starts, hknown])
    | false =>
      rw [hknown] at h
      obtain rfl := Option.some.inj h
      exact .registered rfl (by simp [issues, hknown])
  | login email password =>
    simp only [handle, login] at h
    cases hauth : authenticateUser setup s email password with
    | none =>
      obtain rfl : s = t := by simpa [hauth] using h
      exact .nothing (by simp [made, issues, starts, hauth])
    | some n =>
      rw [hauth] at h
      obtain rfl := Option.some.inj h
      exact .issued hauth
  | refresh n =>
    simp only [handle] at h
    by_cases hn : n < s.users.length
    · rw [if_pos hn] at h
      obtain rfl := Option.some.inj h
      exact .issued (if_pos hn)
    · rw [if_neg hn] at h
      obtain rfl := Option.some.inj h
      exact .nothing (by simp [made, issues, starts, hn])
  | verifyEmail credentials fits =>
    simp only [handle] at h
    cases hwho : getCurrentUserAllowUnverified setup s credentials with
    | error e =>
      obtain rfl : s = t := by simpa [hwho] using h
      exact .nothing rfl
    | ok who =>
      rw [hwho] at h
      cases fits with
      | true =>
        obtain rfl := Option.some.inj h
        exact .verified who.1
      | false =>
        obtain rfl := Option.some.inj h
        exact .nothing rfl
  | assignRole credentials n role =>
    simp only [handle] at h
    cases hwho : requirePermission setup s "users:manage" credentials with
    | error e =>
      obtain rfl : s = t := by simpa [hwho] using h
      exact .nothing rfl
    | ok who =>
      rw [hwho] at h
      by_cases hn : n < s.users.length
      · simp only [hn, if_true] at h
        obtain rfl := Option.some.inj h
        exact .assigned hwho
      · simp only [hn, if_false] at h
        obtain rfl := Option.some.inj h
        exact .nothing rfl
  | setActive n active =>
    obtain rfl := Option.some.inj h
    exact .activated n active
  | saveConnector credentials n row =>
    simp only [handle] at h
    split at h
    case h_2 => cases h; exact .nothing rfl
    case h_1 next hnext =>
      split at hnext
      · cases hnext
      · cases hnext
        obtain rfl := Option.some.inj h
        exact .saved n row
  | converse credentials =>
    simp only [handle] at h
    cases hwho : getCurrentUser setup s credentials with
    | error e =>
      obtain rfl : s = t := by simpa [hwho] using h
      exact .nothing rfl
    | ok who =>
      rw [hwho] at h
      obtain rfl := Option.some.inj h
      exact .conversed who.1
  | oauth2Start credentials n =>
    simp only [handle] at h
    cases hstart : oauth2Start setup s credentials n with
    | error e =>
      obtain rfl : s = t := by simpa [hstart] using h
      exact .nothing (by simp [made, issues, starts, hstart])
    | ok next =>
      obtain ⟨rfl, -⟩ := oauth2Start_eq hstart
      rw [hstart] at h
      obtain rfl := Option.some.inj h
      exact .started (by simp [starts, hstart])

/-- A request gives a session or starts a handshake, not both. -/
theorem starts_eq_none {a : Action} {n : ℕ} (h : issues setup s a = some n) :
    starts setup s a = none := by
  cases a with
  | oauth2Start credentials k => cases h
  | _ => rfl

/-- STEP: a request signs what it makes, and nothing else. -/
theorem step_signed (s : State) (a : Action) (t : State) (h : step setup s a = some t) :
    t.signed = s.signed ++ (made setup s a).toList := by
  cases effect h with
  | nothing hmade => simp [hmade]
  | registered _ hissues => simp [made, hissues, State.sign]
  | issued hissues => simp [made, hissues, State.sign]
  | started hstarts => simp [made, issues, hstarts, State.sign]
  | _ => simp [made, issues, starts]

theorem step_now (s : State) (a : Action) (t : State) (h : step setup s a = some t) :
    s.now ≤ t.now := by
  cases effect h with
  | waited elapsed => exact Nat.le_add_right _ _
  | _ => exact le_refl s.now

theorem now_le {as : List Action} (h : runFrom (step setup) s as = some t) : s.now ≤ t.now := by
  have hstep : ∀ u a v, s.now ≤ u.now → step setup u a = some v → s.now ≤ v.now :=
    fun u a v hu hnext => hu.trans (step_now u a v hnext)
  exact inv_run hstep (le_refl s.now) h

theorem createAccessToken_exp (mid : State) (subject : Uuid) :
    (createAccessToken setup mid subject).exp =
      mid.now / second + setup.accessTokenExpireMinutes * 60 :=
  Nat.add_mul_div_right _ _ (by decide)

theorem makeState_exp (mid : State) (connectorId : Uuid) :
    (makeState setup mid connectorId).exp = mid.now / second + setup.oauth2StateTtlSeconds :=
  Nat.add_mul_div_right _ _ (by decide)

variable (hstart : start.signed = []) (h : runFrom (step setup) start as = some s)
include hstart h

/-- What stands behind a token is what a request of the run signed, in its time. -/
theorem decode_iff {required : Bool} {claims : Claims} :
    jwtDecode s required token = .ok claims ↔
      ∃ before a after mid, as = before ++ a :: after ∧
        runFrom (step setup) start before = some mid ∧ token = .signed mid.signed.length ∧
        made setup mid a = some claims ∧ ¬ (required = true ∧ claims.sub = none) ∧
        claims.iat * second ≤ s.now ∧ s.now < claims.exp * second := by
  rw [jwtDecode_ok_iff]
  constructor
  · rintro ⟨i, rfl, hsigned, hrest⟩
    obtain ⟨before, a, after, mid, rfl, hbefore, rfl, hmade⟩ :=
      (getElem?_log_iff step_signed hstart h).mp hsigned
    exact ⟨before, a, after, mid, rfl, hbefore, rfl, hmade, hrest⟩
  · rintro ⟨before, a, after, mid, rfl, hbefore, rfl, hmade, hrest⟩
    exact ⟨_, rfl, (getElem?_log_iff step_signed hstart h).mpr
      ⟨before, a, after, mid, rfl, hbefore, rfl, hmade⟩, hrest⟩

/-- A token that is good in its time is a session's or a handshake's. -/
theorem decode_cases {required : Bool} {claims : Claims}
    (hdecode : jwtDecode s required token = .ok claims) :
    (∃ n, Session setup start as s.now token n ∧ claims.type = some "access" ∧
      claims.scope = none ∧ claims.sub = some (setup.uuids.str (.user n))) ∨
    (∃ n, Handshake setup start as s.now token n ∧ claims.type = none ∧
      claims.scope = some "oauth2_state" ∧ claims.sub = some (setup.uuids.str (.connector n))) := by
  obtain ⟨before, a, after, mid, has, hbefore, htoken, hmade, -, -, hexp⟩ :=
    (decode_iff hstart h).mp hdecode
  rw [made, Option.or_eq_some_iff] at hmade
  rcases hmade with hsession | ⟨-, hhandshake⟩
  · obtain ⟨n, hn, rfl⟩ := Option.map_eq_some_iff.mp hsession
    rw [createAccessToken_exp] at hexp
    exact .inl ⟨n, ⟨before, a, after, mid, has, hbefore, htoken, hn, hexp⟩, rfl, rfl, rfl⟩
  · obtain ⟨n, hn, rfl⟩ := Option.map_eq_some_iff.mp hhandshake
    rw [makeState_exp] at hexp
    exact .inr ⟨n, ⟨before, a, after, mid, has, hbefore, htoken, hn, hexp⟩, rfl, rfl, rfl⟩

theorem decode_session {n : ℕ} (required : Bool)
    (hsession : Session setup start as s.now token n) :
    ∃ claims, jwtDecode s required token = .ok claims ∧ claims.type = some "access" ∧
      claims.scope = none ∧ claims.sub = some (setup.uuids.str (.user n)) := by
  obtain ⟨before, a, after, mid, rfl, hbefore, rfl, hissues, hnow⟩ := hsession
  have hlater : mid.now ≤ s.now := by
    rw [runFrom_append, hbefore] at h
    exact now_le h
  refine ⟨createAccessToken setup mid (.user n), (decode_iff hstart h).mpr ⟨before, a, after, mid,
    rfl, hbefore, rfl, ?_, ?_, ?_, ?_⟩, rfl, rfl, rfl⟩
  · simp [made, hissues]
  · simp [createAccessToken]
  · exact (Nat.div_mul_le_self _ _).trans hlater
  · rwa [createAccessToken_exp]

theorem decode_handshake {n : ℕ} (required : Bool)
    (hhandshake : Handshake setup start as s.now token n) :
    ∃ claims, jwtDecode s required token = .ok claims ∧ claims.type = none ∧
      claims.scope = some "oauth2_state" ∧ claims.sub = some (setup.uuids.str (.connector n)) := by
  obtain ⟨before, a, after, mid, rfl, hbefore, rfl, hstarts, hnow⟩ := hhandshake
  have hlater : mid.now ≤ s.now := by
    rw [runFrom_append, hbefore] at h
    exact now_le h
  have hissues : issues setup mid a = none := by
    cases hissues : issues setup mid a with
    | none => rfl
    | some k => rw [starts_eq_none hissues] at hstarts; cases hstarts
  refine ⟨makeState setup mid (.connector n), (decode_iff hstart h).mpr ⟨before, a, after, mid,
    rfl, hbefore, rfl, ?_, ?_, ?_, ?_⟩, rfl, rfl, rfl⟩
  · simp [made, hissues, hstarts]
  · simp [makeState]
  · exact (Nat.div_mul_le_self _ _).trans hlater
  · rwa [makeState_exp]

/-! ### The gates -/

/-- The account behind a header that is let through without the mail being confirmed. -/
theorem getCurrentUserAllowUnverified_iff {credentials : Credentials} {n : ℕ} {user : User} :
    getCurrentUserAllowUnverified setup s credentials = .ok (n, user) ↔
      ∃ scheme token, credentials = some (scheme, token) ∧ scheme.toLower = "bearer" ∧
        Session setup start as s.now token n ∧ s.users[n]? = some user ∧
        user.isActive = true := by
  constructor
  · intro hok
    cases credentials with
    | none => cases hok
    | some header =>
      obtain ⟨scheme, token⟩ := header
      rw [getCurrentUserAllowUnverified] at hok
      split at hok
      · cases hok
      case isFalse hscheme =>
        refine ⟨scheme, token, rfl, not_not.mp hscheme, ?_⟩
        split at hok
        · cases hok
        · cases hok
        case h_3 claims hdecode =>
          rcases decode_cases hstart h hdecode with ⟨k, hsession, htype, -, hsub⟩ | ⟨k, -, htype, -⟩
          · rw [if_neg (by simp [htype]), hsub, Option.bind_some, setup.uuids.parse_str] at hok
            dsimp only [State.user?] at hok
            cases huser : s.users[k]? with
            | none => simp [huser] at hok
            | some row =>
              simp only [huser, Option.map_some] at hok
              split at hok
              case isTrue hactive =>
                obtain ⟨rfl, rfl⟩ := Prod.mk.inj (Except.ok.inj hok)
                exact ⟨hsession, huser, hactive⟩
              case isFalse => cases hok
          · rw [if_pos (by simp [htype])] at hok
            cases hok
  · rintro ⟨scheme, token, rfl, hscheme, hsession, huser, hactive⟩
    obtain ⟨claims, hdecode, htype, -, hsub⟩ := decode_session hstart h true hsession
    rw [getCurrentUserAllowUnverified, if_neg (not_not.mpr hscheme), decodeAccessToken, hdecode]
    simp [htype, hsub, setup.uuids.parse_str, State.user?, huser, hactive]

theorem requirePermission_iff {permission : String} {credentials : Credentials} {n : ℕ}
    {user : User} : requirePermission setup s permission credentials = .ok (n, user) ↔
      ∃ scheme token, credentials = some (scheme, token) ∧ scheme.toLower = "bearer" ∧
        Session setup start as s.now token n ∧ s.users[n]? = some user ∧ user.isActive = true ∧
        (setup.emailVerificationRequired = true → user.isVerified = true) ∧
        ∃ app, (app, user.role, permission) ∈ setup.permissions := by
  have hgate : requirePermission setup s permission credentials = .ok (n, user) ↔
      getCurrentUserAllowUnverified setup s credentials = .ok (n, user) ∧
        (setup.emailVerificationRequired = true → user.isVerified = true) ∧
        hasPermission setup user permission = true := by
    rw [requirePermission, getCurrentUser]
    cases hwho : getCurrentUserAllowUnverified setup s credentials with
    | error e => simp
    | ok who =>
      obtain ⟨k, row⟩ := who
      dsimp only
      constructor
      · intro hok
        split at hok
        · cases hok
        case h_2 heq =>
          split at heq
          · cases heq
          case isFalse hverified =>
            obtain ⟨rfl, rfl⟩ := Prod.mk.inj (Except.ok.inj heq)
            split at hok
            case isFalse => cases hok
            case isTrue hpermitted =>
              obtain ⟨rfl, rfl⟩ := Prod.mk.inj (Except.ok.inj hok)
              exact ⟨rfl, fun hrequired => by simpa [hrequired] using hverified, hpermitted⟩
      · rintro ⟨hsame, hverified, hpermitted⟩
        obtain ⟨rfl, rfl⟩ := Prod.mk.inj (Except.ok.inj hsame)
        have hnot : ¬ (setup.emailVerificationRequired = true ∧ ¬ row.isVerified = true) :=
          fun ⟨hrequired, hno⟩ => hno (hverified hrequired)
        rw [if_neg hnot]
        simp [hpermitted]
  have hpermission : hasPermission setup user permission = true ↔
      ∃ app, (app, user.role, permission) ∈ setup.permissions := by
    simp only [hasPermission, List.any_eq_true, decide_eq_true_eq]
    constructor
    · rintro ⟨⟨app, role, p⟩, hmem, rfl, rfl⟩
      exact ⟨app, hmem⟩
    · rintro ⟨app, hmem⟩
      exact ⟨_, hmem, rfl, rfl⟩
  rw [hgate, getCurrentUserAllowUnverified_iff hstart h, hpermission]
  constructor
  · rintro ⟨⟨scheme, token, hcred, hscheme, hsession, huser, hactive⟩, hverified, hpermitted⟩
    exact ⟨scheme, token, hcred, hscheme, hsession, huser, hactive, hverified, hpermitted⟩
  · rintro ⟨scheme, token, hcred, hscheme, hsession, huser, hactive, hverified, hpermitted⟩
    exact ⟨⟨scheme, token, hcred, hscheme, hsession, huser, hactive⟩, hverified, hpermitted⟩

theorem verifyState_iff {id : Uuid} : verifyState setup s token = .ok id ↔
    ∃ n, id = .connector n ∧ Handshake setup start as s.now token n := by
  constructor
  · intro hok
    rw [verifyState] at hok
    split at hok
    · cases hok
    · cases hok
    case h_3 claims hdecode =>
      rcases decode_cases hstart h hdecode with
        ⟨n, -, -, hscope, -⟩ | ⟨n, hhandshake, -, hscope, hsub⟩
      · simp [hscope] at hok
      · rw [if_neg (by simp [hscope]), hsub] at hok
        dsimp only at hok
        rw [setup.uuids.parse_str] at hok
        exact ⟨n, (Except.ok.inj hok).symm, hhandshake⟩
  · rintro ⟨n, rfl, hhandshake⟩
    obtain ⟨claims, hdecode, -, hscope, hsub⟩ := decode_handshake hstart h false hhandshake
    simp [verifyState, hdecode, hscope, hsub, setup.uuids.parse_str]

theorem oauth2Callback_iff {n : ℕ} {connector : Connector} :
    oauth2Callback setup s token = .ok (n, connector) ↔
      Handshake setup start as s.now token n ∧ s.connectors n = some connector ∧
        connector.oauth2 = true ∧ given connector.credentials "token_url" = true ∧
        given connector.credentials "client_id" = true ∧
        given connector.credentials "client_secret" = true := by
  rw [oauth2Callback]
  constructor
  · intro hok
    split at hok
    · cases hok
    · cases hok
    case h_3 k hk =>
      obtain ⟨m, hm, hhandshake⟩ := (verifyState_iff hstart h).mp hk
      obtain rfl := Uuid.connector.inj hm
      split at hok
      · cases hok
      case h_2 row hrow =>
        split at hok
        · cases hok
        case isFalse hoauth2 =>
          split at hok
          · cases hok
          case isFalse hgiven =>
            obtain ⟨rfl, rfl⟩ := Prod.mk.inj (Except.ok.inj hok)
            obtain ⟨hurl, hid, hsecret⟩ := not_not.mp hgiven
            exact ⟨hhandshake, hrow, not_not.mp hoauth2, hurl, hid, hsecret⟩
  · rintro ⟨hhandshake, hrow, hoauth2, hurl, hid, hsecret⟩
    rw [(verifyState_iff hstart h).mpr ⟨n, rfl, hhandshake⟩]
    simp [hrow, hoauth2, hurl, hid, hsecret]

theorem userIdFromWsToken_iff {id : Uuid} : userIdFromWsToken setup s (some token) = some id ↔
    (∃ n, id = .user n ∧ Session setup start as s.now token n) ∨
      ∃ n, id = .connector n ∧ Handshake setup start as s.now token n := by
  have hread (id : Uuid) : ((some (setup.uuids.str id)).bind fun sub =>
      if sub = "" then none else setup.uuids.parse sub) = some id := by
    rw [Option.bind_some, if_neg (setup.uuids.str_ne id), setup.uuids.parse_str]
  constructor
  · intro hsome
    rw [userIdFromWsToken, Option.bind_some] at hsome
    split at hsome
    · cases hsome
    case h_2 claims hdecode =>
      rcases decode_cases hstart h hdecode with
        ⟨n, hsession, -, -, hsub⟩ | ⟨n, hhandshake, -, -, hsub⟩
      · rw [hsub, hread] at hsome
        exact .inl ⟨n, (Option.some.inj hsome).symm, hsession⟩
      · rw [hsub, hread] at hsome
        exact .inr ⟨n, (Option.some.inj hsome).symm, hhandshake⟩
  · rintro (⟨n, rfl, hsession⟩ | ⟨n, rfl, hhandshake⟩)
    · obtain ⟨claims, hdecode, -, -, hsub⟩ := decode_session hstart h true hsession
      rw [userIdFromWsToken, Option.bind_some, decodeAccessToken, hdecode]
      dsimp only
      rw [hsub, hread]
    · obtain ⟨claims, hdecode, -, -, hsub⟩ := decode_handshake hstart h true hhandshake
      rw [userIdFromWsToken, Option.bind_some, decodeAccessToken, hdecode]
      dsimp only
      rw [hsub, hread]

/-- A handshake's token names a connector, and no conversation is a connector's. -/
theorem stream_iff {conversation : ℕ} : stream setup s (some token) conversation = true ↔
    ∃ n, s.conversations[conversation]? = some n ∧ Session setup start as s.now token n := by
  simp only [stream, userFromToken, Option.any_eq_true, decide_eq_true_eq]
  constructor
  · rintro ⟨id, hid, n, hn, rfl⟩
    rcases (userIdFromWsToken_iff hstart h).mp hid with ⟨k, hk, hsession⟩ | ⟨k, hk, -⟩
    · obtain rfl := Uuid.user.inj hk
      exact ⟨n, hn, hsession⟩
    · cases hk
  · rintro ⟨n, hn, hsession⟩
    exact ⟨.user n, (userIdFromWsToken_iff hstart h).mpr (.inl ⟨n, rfl, hsession⟩), n, hn, rfl⟩

end

/-! ### Roles -/

section
variable {setup : Setup} {s t start : State} {as : List Action}

theorem modify_some {users : List User} {k n : ℕ} {f : User → User} {user : User}
    (h : (users.modify k f)[n]? = some user) :
    ∃ old, users[n]? = some old ∧ (user = old ∨ k = n ∧ user = f old) := by
  rw [List.getElem?_modify] at h
  obtain ⟨old, hold, heq⟩ := Option.map_eq_some_iff.mp h
  refine ⟨old, hold, ?_⟩
  split at heq
  case isTrue hk => exact .inr ⟨hk, heq.symm⟩
  case isFalse => exact .inl heq.symm

/-- STEP: a role stays, or is a new account's, or is assigned by who may. -/
theorem step_roles {a : Action} (h : step setup s a = some t) {n : ℕ} {user : User}
    (hn : t.users[n]? = some user) :
    (∃ old, s.users[n]? = some old ∧ user.role = old.role) ∨
      (n = s.users.length ∧ user.role = "user") ∨
      ∃ credentials who, a = .assignRole credentials n user.role ∧
        requirePermission setup s "users:manage" credentials = .ok who := by
  cases effect h with
  | registered hrole _ =>
    rcases Nat.lt_or_ge n s.users.length with hold | hnew
    · exact .inl ⟨user, by rwa [State.sign, List.getElem?_append_left hold] at hn, rfl⟩
    · rw [State.sign, List.getElem?_append_right hnew] at hn
      obtain ⟨hzero, rfl⟩ : n - s.users.length = 0 ∧ _ = user := by
        simpa [List.getElem?_singleton] using hn
      exact .inr (.inl ⟨by omega, hrole⟩)
  | verified k | activated k =>
    obtain ⟨old, hold, rfl | ⟨-, rfl⟩⟩ := modify_some hn
    · exact .inl ⟨_, hold, rfl⟩
    · exact .inl ⟨old, hold, rfl⟩
  | assigned hwho =>
    obtain ⟨old, hold, rfl | ⟨rfl, rfl⟩⟩ := modify_some hn
    · exact .inl ⟨_, hold, rfl⟩
    · exact .inr (.inr ⟨_, _, rfl, hwho⟩)
  | _ => exact .inl ⟨user, hn, rfl⟩

theorem step_length {a : Action} (h : step setup s a = some t) :
    s.users.length ≤ t.users.length := by
  cases effect h with
  | registered => simp [State.sign]
  | verified | assigned | activated => simp
  | _ => exact le_rfl

/-- RUN: nobody has a role but from the start, from an account's opening, or from who may assign
    it. -/
theorem hasCome_run (h : runFrom (step setup) start as = some s) {n : ℕ} {user : User}
    (hn : s.users[n]? = some user) : HasCome setup start as n user.role := by
  have hinv : ∀ seen u a v, (runFrom (step setup) start seen = some u ∧
      start.users.length ≤ u.users.length ∧
      ∀ n user, u.users[n]? = some user → HasCome setup start seen n user.role) →
      step setup u a = some v → (runFrom (step setup) start (seen ++ [a]) = some v ∧
      start.users.length ≤ v.users.length ∧
      ∀ n user, v.users[n]? = some user → HasCome setup start (seen ++ [a]) n user.role) := by
    intro seen u a v ⟨hseen, hlength, hroles⟩ hnext
    refine ⟨by rw [runFrom_append, hseen]; simp [hnext], hlength.trans (step_length hnext),
      fun n user hn => ?_⟩
    rcases step_roles hnext hn with
      ⟨old, hold, hrole⟩ | ⟨rfl, hrole⟩ | ⟨credentials, who, rfl, hwho⟩
    · rw [hrole]
      refine (hroles n old hold).imp_right ?_
      rintro ⟨before, credentials, after, mid, rfl, hmid, hwho⟩
      exact ⟨before, credentials, after ++ [a], mid, by simp, hmid, hwho⟩
    · left
      rw [hrole, List.getElem?_eq_none hlength]
      rfl
    · exact .inr ⟨seen, credentials, [], u, rfl, hseen, who, hwho⟩
  have hnone : runFrom (step setup) start [] = some start ∧
      start.users.length ≤ start.users.length ∧
      ∀ n user, start.users[n]? = some user → HasCome setup start [] n user.role :=
    ⟨rfl, le_rfl, fun n user hn => .inl (by rw [hn]; rfl)⟩
  exact (history_run hinv hnone h).2.2 n user hn

/-! ### Runs -/

theorem starts_permitted {a : Action} {n : ℕ} (h : starts setup s a = some n) :
    ∃ credentials, a = .oauth2Start credentials n ∧
      ∃ who, requirePermission setup s "connectors:update" credentials = .ok who := by
  cases a with
  | oauth2Start credentials k =>
    rw [starts] at h
    split at h
    case h_1 next hnext =>
      obtain rfl := Option.some.inj h
      exact ⟨credentials, rfl, (oauth2Start_eq hnext).2⟩
    case h_2 => cases h
  | _ => cases h

/-- SAFETY, AND EXACT: after any run of the service a route lets through just who holds a token that
    was signed when that very user registered, logged in or renewed a session, in its lifetime and
    while the account is active, verified and permitted; the callback takes only what was signed
    when a handshake was started for the connector, by who may; and no role comes but from who may
    assign it. -/
theorem admits_run (hstart : start.signed = []) (h : runFrom (step setup) start as = some s) :
    Admits setup start as s where
  routes _ _ _ _ := requirePermission_iff hstart h
  callback _ _ _ := oauth2Callback_iff hstart h
  started _ n hhandshake := by
    obtain ⟨before, a, after, mid, rfl, hmid, -, hstarts, -⟩ := hhandshake
    obtain ⟨credentials, rfl, hwho⟩ := starts_permitted hstarts
    exact ⟨before, credentials, after, mid, rfl, hmid, hwho⟩
  streams _ _ := stream_iff hstart h
  sockets _ _ := userIdFromWsToken_iff hstart h
  roles _ _ hn := hasCome_run h hn

/-- Ids written with a letter and as many strokes. -/
def strokes : UuidText where
  str
    | .user n => String.ofList ('u' :: List.replicate n '1')
    | .connector n => String.ofList ('c' :: List.replicate n '1')
  parse text := match text.toList with
    | 'u' :: rest => some (.user rest.length)
    | 'c' :: rest => some (.connector rest.length)
    | _ => none
  parse_str id := by cases id <;> simp
  str_ne id := by cases id <;> simp [String.ext_iff]

/-- An admin's connector, and a registration that is not verified. -/
def small : Setup where
  accessTokenExpireMinutes := 180
  oauth2StateTtlSeconds := 600
  emailVerificationRequired := true
  permissions := [("core", "admin", "connectors:update")]
  uuids := strokes
  normalize := id
  hashPassword _ password := password
  verifyPassword password hash := password = hash

def oneAdmin : State where
  now := 1500000
  users := [⟨"a@x", "secret", "admin", true, true⟩]
  connectors := Function.update (fun _ => none) 0
    (some ⟨true, [("authorize_url", .str "https://idp"), ("client_id", .str "id")]⟩)
  conversations := []
  signed := []

/-- The admin starts a handshake, and somebody registers. -/
def handshakeStarted : List Action :=
  [.login "a@x" "secret", .oauth2Start (some ("Bearer", .signed 0)) 0, .register "b@x" "pw" 0,
    .wait 599000000]

/-- Where that leads. -/
def afterHandshake : State :=
  (runFrom (step small) oneAdmin handshakeStarted).getD oneAdmin

theorem admits_run_handshakeStarted :
    verifyState small afterHandshake (.signed 1) = .ok (.connector 0) ∧
      getCurrentUser small afterHandshake (some ("Bearer", .signed 1)) =
        .error ⟨401, "Invalid token type"⟩ ∧
      getCurrentUser small afterHandshake (some ("Bearer", .signed 2)) =
        .error ⟨403, "email_not_verified"⟩ ∧
      Admits small oneAdmin handshakeStarted afterHandshake := by
  have hrun : (runFrom (step small) oneAdmin handshakeStarted).isSome = true := by decide +kernel
  refine ⟨by decide +kernel, by decide +kernel, by decide +kernel, ?_⟩
  obtain ⟨t, ht⟩ := Option.isSome_iff_exists.mp hrun
  rw [afterHandshake, ht]
  exact admits_run rfl ht

end

end LunaCore.Auth.AccessTokens
