import LunaCore.Schemes.Machine
import LunaCore.Schemes.Parties

/-! Refresh tokens: one exchange each, and a replay that closes the user's sessions.

    `rotate_refresh_token`:  SELECT ─▶ revoked or expired ─▶ SELECT the user's ─▶ revoke, COMMIT
                                └─▶ live ─▶ the user ─▶ revoke, INSERT the next, COMMIT
    `revoke_refresh_token`:  SELECT ─▶ revoke, COMMIT

    Every request has a session of its own, and sees what others have committed when its statement
    runs. Nothing looks at the row again between the SELECT and the COMMIT, so what has happened to
    the token or to its user in between goes unseen. -/

namespace LunaCore.Auth.RefreshTokens
open LunaCore.Schemes

/-- A row of `refresh_tokens`; the token is its place in the table. -/
structure Row where
  user : ℕ
  expiresAt : ℕ
  revoked : Bool
  /-- For proofs only: how many exchanges of the token were committed. -/
  exchanges : ℕ
  /-- For proofs only: a used or revoked token of the user was presented since this one was
      issued. -/
  condemned : Bool
  deriving DecidableEq, Repr

/-- The next statement of a request. -/
inductive Pc where
  /-- The row was live: `db.get(User)`. -/
  | checking
  /-- The user is active: UPDATE, INSERT and COMMIT. -/
  | renewing
  /-- The row was revoked or expired: the SELECT of `_revoke_all_user_tokens`. -/
  | collecting
  /-- Its UPDATEs and COMMIT. -/
  | sweeping (tokens : List ℕ)
  /-- A logout of a live row: UPDATE and COMMIT. -/
  | closing
  | answered
  deriving DecidableEq, Repr

/-- A request past the SELECT of its token's row. -/
structure Request where
  token : ℕ
  user : ℕ
  /-- The row it read was revoked. -/
  replayed : Bool
  /-- For proofs only: how many tokens there were when it was made. -/
  issued : ℕ
  pc : Pc
  deriving DecidableEq, Repr

structure State where
  now : ℕ
  active : ℕ → Bool
  tokens : List Row
  requests : List Request

inductive Action where
  | wait
  | setActive (user : ℕ) (active : Bool)
  | login (user : ℕ)
  | refresh (token : ℕ)
  | logout (token : ℕ)
  | advance (r : ℕ)
  deriving DecidableEq, Repr

def start : State := ⟨0, fun _ => true, [], []⟩

/-- Change the rows whose place and content qualify. -/
def edit (tokens : List Row) (p : ℕ → Row → Bool) (f : Row → Row) : List Row :=
  tokens.mapIdx fun i row => if p i row then f row else row

def Row.revoke (row : Row) : Row := { row with revoked := true }

/-- `issue_tokens`: the row of the next token. -/
def issueTokens (lifetime now user : ℕ) : Row := ⟨user, now + lifetime, false, 0, false⟩

/-- The SELECT of `rotate_refresh_token`: no such token is a 401, a revoked or expired one closes
    the user's sessions, any other goes on. -/
def rotateRefreshToken (s : State) (token : ℕ) : State :=
  match s.tokens[token]? with
  | none => s
  | some row =>
    { s with
      tokens := if row.revoked then
          edit s.tokens (fun _ other => other.user = row.user) fun other =>
            { other with condemned := true }
        else s.tokens
      requests := s.requests ++ [⟨token, row.user, row.revoked, s.tokens.length,
        if row.revoked ∨ row.expiresAt ≤ s.now then .collecting else .checking⟩] }

/-- The SELECT of `revoke_refresh_token`. -/
def revokeRefreshToken (s : State) (token : ℕ) : State :=
  match s.tokens[token]? with
  | none => s
  | some row =>
    if row.revoked then s
    else { s with requests := s.requests ++ [⟨token, row.user, false, s.tokens.length, .closing⟩] }

/-- The tokens of the user that are not revoked. -/
def unrevoked (tokens : List Row) (user : ℕ) : List ℕ :=
  (List.range tokens.length).filter fun i =>
    (tokens[i]?).any fun row => row.user = user ∧ row.revoked = false

/-- The next statement of a request. -/
def Request.advance (lifetime : ℕ) (s : State) (q : Request) : Option (List Row × Pc) :=
  match q.pc with
  | .checking => some (s.tokens, if s.active q.user then .renewing else .answered)
  | .renewing => some
      (edit s.tokens (fun i _ => i = q.token) (fun row =>
          { row.revoke with exchanges := row.exchanges + 1 }) ++
        [issueTokens lifetime s.now q.user], .answered)
  | .collecting => some (s.tokens, .sweeping (unrevoked s.tokens q.user))
  | .sweeping tokens => some (edit s.tokens (fun i _ => i ∈ tokens) Row.revoke, .answered)
  | .closing => some (edit s.tokens (fun i _ => i = q.token) Row.revoke, .answered)
  | .answered => none

def step (lifetime : ℕ) (s : State) : Action → Option State
  | .wait => some { s with now := s.now + 1 }
  | .setActive user active => some { s with active := Function.update s.active user active }
  | .login user => some { s with tokens := s.tokens ++ [issueTokens lifetime s.now user] }
  | .refresh token => some (rotateRefreshToken s token)
  | .logout token => some (revokeRefreshToken s token)
  | .advance r => (s.requests[r]?).bind fun q => (q.advance lifetime s).map fun u =>
      { s with tokens := u.1, requests := s.requests.set r { q with pc := u.2 } }

/-- The request is about to exchange its token, whose row is as given. -/
def State.Exchanges (s : State) (r : ℕ) (q : Request) (row : Row) : Prop :=
  s.requests[r]? = some q ∧ q.pc = .renewing ∧ s.tokens[q.token]? = some row

/-- No token has been exchanged twice, and none is accepted once a used or revoked token of its
    user was presented since it was issued. -/
structure Single (s : State) (a : Action) (t : State) : Prop where
  once : ∀ (i : ℕ) (row : Row), t.tokens[i]? = some row → row.exchanges ≤ 1
  closed : ∀ r q row, a = .advance r → s.Exchanges r q row → row.condemned = false

/-- The request is closing the user's sessions after a replay that the token was issued before. -/
structure Request.Closing (q : Request) (user token : ℕ) : Prop where
  user : q.user = user
  replayed : q.replayed = true
  issued : token < q.issued
  pending : q.pc ≠ .answered

instance (q : Request) (user token : ℕ) : Decidable (q.Closing user token) :=
  decidable_of_iff (q.user = user ∧ q.replayed = true ∧ token < q.issued ∧ q.pc ≠ .answered)
    ⟨fun ⟨huser, hreplayed, hissued, hpending⟩ => ⟨huser, hreplayed, hissued, hpending⟩,
      fun ⟨huser, hreplayed, hissued, hpending⟩ => ⟨huser, hreplayed, hissued, hpending⟩⟩

/-- A token that is exchanged is not revoked by then, and no replay of its user is still on its way
    to the COMMIT. -/
def StillLive (s : State) (a : Action) : Prop :=
  match a with
  | .advance r => ∀ q ∈ s.requests[r]?, q.pc = .renewing → ∀ row ∈ s.tokens[q.token]?,
      row.revoked = false ∧ ∀ other ∈ s.requests, ¬ other.Closing row.user q.token
  | _ => True

instance (s : State) : ∀ a, Decidable (StillLive s a)
  | .advance r => inferInstanceAs (Decidable (∀ q ∈ s.requests[r]?, _ → ∀ row ∈ _, _))
  | .wait | .setActive .. | .login _ | .refresh _ | .logout _ => isTrue trivial

/-- A replay is on its way that will revoke the token. -/
def Pending (requests : List Request) (user token : ℕ) : Prop :=
  ∃ (r : ℕ) (q : Request), requests[r]? = some q ∧
    (q.Closing user token ∧ ∀ tokens, q.pc = .sweeping tokens → token ∈ tokens)

/-- A row that was exchanged is revoked; so is a condemned one, or a replay is on its way that will
    revoke it. -/
structure Tracked (s : State) : Prop where
  used : ∀ (i : ℕ) (row : Row), s.tokens[i]? = some row → 0 < row.exchanges → row.revoked = true
  condemned : ∀ (i : ℕ) (row : Row), s.tokens[i]? = some row → row.condemned = true →
    row.revoked = true ∨ Pending s.requests row.user i
  closes : ∀ (r : ℕ) (q : Request), s.requests[r]? = some q → q.replayed = true →
    q.pc = .collecting ∨ (∃ tokens, q.pc = .sweeping tokens) ∨ q.pc = .answered

/-- No token was exchanged twice. -/
def Once (s : State) : Prop :=
  ∀ (i : ℕ) (row : Row), s.tokens[i]? = some row → row.exchanges ≤ 1

theorem getElem?_edit (tokens : List Row) (p : ℕ → Row → Bool) (f : Row → Row) (i : ℕ) :
    (edit tokens p f)[i]? = (tokens[i]?).map fun row => if p i row then f row else row :=
  List.getElem?_mapIdx

/-- A row after an edit is the row before, changed or not. -/
theorem edit_cases {tokens : List Row} {p : ℕ → Row → Bool} {f : Row → Row} {i : ℕ} {row : Row}
    (h : (edit tokens p f)[i]? = some row) :
    ∃ old, tokens[i]? = some old ∧
      ((p i old = true ∧ row = f old) ∨ (p i old = false ∧ row = old)) := by
  rw [getElem?_edit] at h
  obtain ⟨old, hold, rfl⟩ := Option.map_eq_some_iff.mp h
  refine ⟨old, hold, ?_⟩
  cases hp : p i old with
  | true => exact .inl ⟨rfl, rfl⟩
  | false => exact .inr ⟨rfl, rfl⟩

theorem mem_unrevoked_iff {tokens : List Row} {user i : ℕ} {row : Row}
    (hi : tokens[i]? = some row) :
    i ∈ unrevoked tokens user ↔ row.user = user ∧ row.revoked = false := by
  obtain ⟨hlt, rfl⟩ := List.getElem?_eq_some_iff.mp hi
  simp [unrevoked, hlt]

theorem advance_cases {lifetime : ℕ} {s t : State} {r : ℕ}
    (h : step lifetime s (.advance r) = some t) :
    ∃ q u, s.requests[r]? = some q ∧ q.advance lifetime s = some u ∧
      t = { s with tokens := u.1, requests := s.requests.set r { q with pc := u.2 } } := by
  obtain ⟨q, hq, h⟩ := Option.bind_eq_some_iff.mp h
  obtain ⟨u, hu, rfl⟩ := Option.map_eq_some_iff.mp h
  exact ⟨q, u, hq, hu, rfl⟩

theorem tracked_start : Tracked start :=
  ⟨by simp [start], by simp [start], by simp [start]⟩

/-- A request that closes no sessions moves on. -/
theorem Pending.moved {requests : List Request} {user token r : ℕ} {q a : Request}
    (h : Pending requests user token) (hq : requests[r]? = some q) (hnot : q.replayed = false) :
    Pending (requests.set r a) user token :=
  exists_moved hq (fun hc => by simp [hc.1.replayed] at hnot) h

/-- An edit that revokes leaves the used tokens revoked. -/
theorem Tracked.used_edit {s : State} {p : ℕ → Row → Bool} {f : Row → Row} (hs : Tracked s)
    (hf : ∀ row, (f row).revoked = true) {i : ℕ} {row : Row}
    (hi : (edit s.tokens p f)[i]? = some row) (hused : 0 < row.exchanges) : row.revoked = true := by
  obtain ⟨old, hold, ⟨_, rfl⟩ | ⟨_, rfl⟩⟩ := edit_cases hi
  · exact hf old
  · exact hs.used i row hold hused

/-- A request of another kind than a replay's moves on, and revokes no row or some. -/
theorem Tracked.revoke {s : State} {r : ℕ} {q : Request} {pc : Pc} {p : ℕ → Row → Bool}
    {f : Row → Row} (hs : Tracked s) (hr : s.requests[r]? = some q) (hnot : q.replayed = false)
    (hf : ∀ row, (f row).revoked = true) :
    Tracked { s with
      tokens := edit s.tokens p f, requests := s.requests.set r { q with pc := pc } } := by
  refine ⟨fun i row hi => hs.used_edit hf hi, fun i row hi hc => ?_,
    forall_moved hs.closes fun h => ?_⟩
  · obtain ⟨old, hold, ⟨_, rfl⟩ | ⟨_, rfl⟩⟩ := edit_cases hi
    · exact .inl (hf old)
    · exact (hs.condemned i row hold hc).imp_right fun h => h.moved hr hnot
  · simp [hnot] at h

theorem Tracked.move {s : State} {r : ℕ} {q : Request} {pc : Pc} (hs : Tracked s)
    (hr : s.requests[r]? = some q) (hnot : q.replayed = false) :
    Tracked { s with requests := s.requests.set r { q with pc := pc } } := by
  refine ⟨hs.used, fun i row hi hc => ?_, forall_moved hs.closes fun h => ?_⟩
  · exact (hs.condemned i row hi hc).imp_right fun h => h.moved hr hnot
  · simp [hnot] at h

/-- A token that nobody has used is issued. -/
theorem Tracked.issue {s : State} {lifetime user : ℕ} (hs : Tracked s) :
    Tracked { s with tokens := s.tokens ++ [issueTokens lifetime s.now user] } := by
  refine ⟨forall_joined hs.used ?_, forall_joined hs.condemned ?_, hs.closes⟩
  · simp [issueTokens]
  · simp [issueTokens]

theorem tracked_refresh {s : State} (hs : Tracked s) (token : ℕ) :
    Tracked (rotateRefreshToken s token) := by
  unfold rotateRefreshToken
  split
  · exact hs
  case h_2 row hrow =>
    cases hrevoked : row.revoked with
    | false =>
      refine ⟨hs.used, fun i other hi hc => ?_, forall_joined hs.closes fun h => by cases h⟩
      exact (hs.condemned i other hi hc).imp_right (exists_joined _)
    | true =>
      simp only [if_true, true_or]
      refine ⟨fun i other hi hused => ?_, fun i other hi hc => ?_,
        forall_joined hs.closes fun _ => .inl rfl⟩
      · obtain ⟨old, hold, ⟨_, rfl⟩ | ⟨_, rfl⟩⟩ := edit_cases hi
        · exact hs.used i old hold hused
        · exact hs.used i other hold hused
      · obtain ⟨old, hold, ⟨huser, rfl⟩ | ⟨_, rfl⟩⟩ := edit_cases hi
        · -- the replay itself is on its way to every token of the user
          refine .inr ⟨s.requests.length, _, List.getElem?_concat_length, ⟨?_, rfl, ?_, ?_⟩, ?_⟩
          · exact (of_decide_eq_true huser).symm
          · exact (List.getElem?_eq_some_iff.mp hold).1
          · simp
          · simp
        · exact (hs.condemned i other hold hc).imp_right (exists_joined _)

theorem tracked_logout {s : State} (hs : Tracked s) (token : ℕ) :
    Tracked (revokeRefreshToken s token) := by
  unfold revokeRefreshToken
  split
  · exact hs
  · split
    · exact hs
    · refine ⟨hs.used, fun i other hi hc => ?_, forall_joined hs.closes fun h => by cases h⟩
      exact (hs.condemned i other hi hc).imp_right (exists_joined _)

/-- The SELECT of a replay's revoke-all has every token it was made after that is still live. -/
theorem tracked_collect {s : State} {r : ℕ} {q : Request} (hs : Tracked s)
    (hr : s.requests[r]? = some q) : Tracked { s with
      requests := s.requests.set r { q with pc := .sweeping (unrevoked s.tokens q.user) } } := by
  refine ⟨hs.used, fun i row hi hc => ?_, forall_moved hs.closes fun _ => .inr (.inl ⟨_, rfl⟩)⟩
  rcases hs.condemned i row hi hc with hrevoked | ⟨r', other, hother, hclosing, hin⟩
  · exact .inl hrevoked
  · by_cases hsame : r = r'
    · subst hsame
      obtain rfl := Option.some.inj (hr.symm.trans hother)
      cases hrevoked : row.revoked with
      | true => exact .inl rfl
      | false =>
        refine .inr ⟨r, _, moved_self _ hr, ⟨hclosing.user, hclosing.replayed, hclosing.issued,
          by simp⟩, fun tokens htokens => ?_⟩
        obtain rfl := Pc.sweeping.inj htokens
        exact (mem_unrevoked_iff hi).mpr ⟨hclosing.user.symm, hrevoked⟩
    · exact .inr ⟨r', other, (moved_other _ hsame).trans hother, hclosing, hin⟩

/-- Its COMMIT revokes them. -/
theorem tracked_sweep {s : State} {r : ℕ} {q : Request} {tokens : List ℕ} (hs : Tracked s)
    (hr : s.requests[r]? = some q) (hpc : q.pc = .sweeping tokens) : Tracked { s with
      tokens := edit s.tokens (fun i _ => i ∈ tokens) Row.revoke
      requests := s.requests.set r { q with pc := .answered } } := by
  refine ⟨fun i row hi => hs.used_edit (fun _ => rfl) hi, fun i row hi hc => ?_,
    forall_moved hs.closes fun _ => .inr (.inr rfl)⟩
  obtain ⟨old, hold, ⟨_, rfl⟩ | ⟨hnot, rfl⟩⟩ := edit_cases hi
  · exact .inl rfl
  · rcases hs.condemned i row hold hc with hrevoked | ⟨r', other, hother, hclosing, hin⟩
    · exact .inl hrevoked
    · refine .inr ⟨r', other, (moved_other _ ?_).trans hother, hclosing, hin⟩
      rintro rfl
      obtain rfl := Option.some.inj (hr.symm.trans hother)
      simp [hin tokens hpc] at hnot

/-- The exchange revokes the token it counts. -/
theorem tracked_renew {s : State} {lifetime r : ℕ} {q : Request} (hs : Tracked s)
    (hr : s.requests[r]? = some q) (hnot : q.replayed = false) : Tracked { s with
      tokens := edit s.tokens (fun i _ => i = q.token) (fun row =>
          { row.revoke with exchanges := row.exchanges + 1 }) ++
        [issueTokens lifetime s.now q.user]
      requests := s.requests.set r { q with pc := .answered } } := by
  exact Tracked.issue (hs.revoke hr hnot fun _ => rfl)

/-- Who is at one of the other statements makes no replay. -/
theorem Tracked.not_replayed {s : State} {r : ℕ} {q : Request} (hs : Tracked s)
    (hr : s.requests[r]? = some q) (hcollect : q.pc ≠ .collecting)
    (hsweep : ∀ tokens, q.pc ≠ .sweeping tokens) (hanswered : q.pc ≠ .answered) :
    q.replayed = false := by
  cases hreplayed : q.replayed with
  | false => rfl
  | true =>
    rcases hs.closes r q hr hreplayed with h | ⟨tokens, h⟩ | h
    · exact absurd h hcollect
    · exact absurd h (hsweep tokens)
    · exact absurd h hanswered

/-- STEP LEMMA: every step of every request keeps track. -/
theorem step_tracked {lifetime : ℕ} (s : State) (a : Action) (t : State) (hs : Tracked s)
    (h : step lifetime s a = some t) : Tracked t := by
  cases a with
  | wait =>
    obtain rfl := Option.some.inj h
    exact ⟨hs.used, hs.condemned, hs.closes⟩
  | setActive user active =>
    obtain rfl := Option.some.inj h
    exact ⟨hs.used, hs.condemned, hs.closes⟩
  | login user =>
    obtain rfl := Option.some.inj h
    exact hs.issue
  | refresh token =>
    obtain rfl := Option.some.inj h
    exact tracked_refresh hs token
  | logout token =>
    obtain rfl := Option.some.inj h
    exact tracked_logout hs token
  | advance r =>
    obtain ⟨q, u, hr, hu, rfl⟩ := advance_cases h
    unfold Request.advance at hu
    split at hu
    case h_1 hpc =>
      obtain rfl := Option.some.inj hu
      exact hs.move hr (hs.not_replayed hr (by simp [hpc]) (by simp [hpc]) (by simp [hpc]))
    case h_2 hpc =>
      obtain rfl := Option.some.inj hu
      exact tracked_renew hs hr
        (hs.not_replayed hr (by simp [hpc]) (by simp [hpc]) (by simp [hpc]))
    case h_3 =>
      obtain rfl := Option.some.inj hu
      exact tracked_collect hs hr
    case h_4 hpc =>
      obtain rfl := Option.some.inj hu
      exact tracked_sweep hs hr hpc
    case h_5 hpc =>
      obtain rfl := Option.some.inj hu
      exact hs.revoke hr (hs.not_replayed hr (by simp [hpc]) (by simp [hpc]) (by simp [hpc]))
        fun _ => rfl
    case h_6 => cases hu

/-- An edit that counts no exchange. -/
theorem once_edit {s : State} (hs : Once s) (p : ℕ → Row → Bool) (f : Row → Row)
    (hf : ∀ row, (f row).exchanges = row.exchanges) :
    ∀ (i : ℕ) (row : Row), (edit s.tokens p f)[i]? = some row → row.exchanges ≤ 1 := by
  intro i row hi
  obtain ⟨old, hold, ⟨_, rfl⟩ | ⟨_, rfl⟩⟩ := edit_cases hi
  · rw [hf]
    exact hs i old hold
  · exact hs i row hold

/-- The first exchange of a token that is still live. -/
theorem once_renew {s : State} {lifetime r : ℕ} {q : Request} (hs : Once s) (htracked : Tracked s)
    (hlive : ∀ row, s.tokens[q.token]? = some row → row.revoked = false) : Once { s with
      tokens := edit s.tokens (fun i _ => i = q.token) (fun row =>
          { row.revoke with exchanges := row.exchanges + 1 }) ++
        [issueTokens lifetime s.now q.user]
      requests := s.requests.set r { q with pc := .answered } } := by
  refine forall_joined (fun i row hi => ?_) (Nat.zero_le 1)
  obtain ⟨old, hold, ⟨hsame, rfl⟩ | ⟨_, rfl⟩⟩ := edit_cases hi
  · obtain rfl : i = q.token := of_decide_eq_true hsame
    have hzero : old.exchanges = 0 := by
      by_contra hne
      have := htracked.used _ old hold (Nat.pos_of_ne_zero hne)
      rw [hlive old hold] at this
      cases this
    simp [hzero]
  · exact hs i row hold

theorem step_once {lifetime : ℕ} (s : State) (a : Action) (t : State) (hs : Once s)
    (htracked : Tracked s) (hok : StillLive s a) (h : step lifetime s a = some t) : Once t := by
  cases a with
  | wait =>
    obtain rfl := Option.some.inj h
    exact hs
  | setActive user active =>
    obtain rfl := Option.some.inj h
    exact hs
  | login user =>
    obtain rfl := Option.some.inj h
    exact forall_joined hs (Nat.zero_le 1)
  | refresh token =>
    obtain rfl := Option.some.inj h
    unfold rotateRefreshToken
    split
    · exact hs
    case h_2 row _ =>
      cases hrevoked : row.revoked with
      | false => exact hs
      | true => exact once_edit hs _ _ fun _ => rfl
  | logout token =>
    obtain rfl := Option.some.inj h
    unfold revokeRefreshToken
    split
    · exact hs
    · split <;> exact hs
  | advance r =>
    obtain ⟨q, u, hr, hu, rfl⟩ := advance_cases h
    unfold Request.advance at hu
    split at hu
    case h_1 =>
      obtain rfl := Option.some.inj hu
      exact hs
    case h_2 hpc =>
      obtain rfl := Option.some.inj hu
      exact once_renew hs htracked fun row hrow => (hok q hr hpc row hrow).1
    case h_3 =>
      obtain rfl := Option.some.inj hu
      exact hs
    case h_4 =>
      obtain rfl := Option.some.inj hu
      exact once_edit hs _ Row.revoke fun _ => rfl
    case h_5 =>
      obtain rfl := Option.some.inj hu
      exact once_edit hs _ Row.revoke fun _ => rfl
    case h_6 => cases hu

/-- A live token that no replay is on its way to was not condemned. -/
theorem not_condemned {s : State} {a : Action} {r : ℕ} {q : Request} {row : Row} (hs : Tracked s)
    (hok : StillLive s a) (ha : a = .advance r) (h : s.Exchanges r q row) :
    row.condemned = false := by
  subst ha
  obtain ⟨hlive, hnone⟩ := hok q h.1 h.2.1 row h.2.2
  cases hc : row.condemned with
  | false => rfl
  | true =>
    rcases hs.condemned q.token row h.2.2 hc with hrevoked | ⟨r', other, hother, hclosing, _⟩
    · rw [hlive] at hrevoked
      cases hrevoked
    · exact absurd hclosing (hnone other (List.mem_of_getElem? hother))

/-- THE CONDITION: along any interleaving of logins, refreshes and logouts in which a token is
    still live when its exchange commits, and no replay of its user is on its way then, every token
    is exchanged at most once and no replay is followed by a token it should have closed. -/
theorem single_run (lifetime : ℕ) (as : List Action)
    (hok : Guarded (step lifetime) StillLive start as) :
    EveryStep (step lifetime) Single start as := by
  have hinv : ∀ s a t, Tracked s ∧ Once s → StillLive s a → step lifetime s a = some t →
      Tracked t ∧ Once t := fun s a t hs hok h =>
    ⟨step_tracked s a t hs.1 h, step_once s a t hs.2 hs.1 hok h⟩
  refine everyStep_of_guarded hinv (fun s a t hs hok h => ⟨(hinv s a t hs hok h).2, ?_⟩)
    ⟨tracked_start, by simp [Once, start]⟩ hok
  exact fun _ _ _ ha hexchanges => not_condemned hs.1 hok ha hexchanges

/-- A token is exchanged, presented again, and the one it was exchanged for is refused. -/
theorem replay_closes : EveryStep (step 10) Single start
    [.login 7, .refresh 0, .advance 0, .advance 0, .refresh 0, .advance 1, .advance 1,
      .refresh 1] :=
  single_run 10 _ (by decide +kernel)

/-- Two requests find the token live. -/
def twoRefreshes : List Action :=
  [.login 7, .refresh 0, .refresh 0, .advance 0, .advance 1, .advance 0]

/-- One has found its token live when an older one of the user is presented again and closes the
    sessions. -/
def lateRefresh : List Action :=
  [.login 7, .refresh 0, .advance 0, .advance 0, .refresh 1, .advance 1,
    .refresh 0, .advance 2, .advance 2]

/-- Both exchanges of the one token succeed; and the other exchange succeeds after the replay. -/
theorem exchanged_twice_and_after_replay :
    ¬ EveryStep (step 10) Single start (twoRefreshes ++ [.advance 1]) ∧
      ¬ EveryStep (step 10) Single start (lateRefresh ++ [.advance 1]) := by
  constructor
  · intro h
    have hsecond := EveryStep.at h (rfl : runFrom _ _ twoRefreshes = some _) rfl
    exact absurd (hsecond.once 0 _ rfl) (by decide)
  · intro h
    have hlate := EveryStep.at h (rfl : runFrom _ _ lateRefresh = some _) rfl
    exact absurd (hlate.closed 1 _ _ rfl ⟨rfl, rfl, rfl⟩) (by decide)

end LunaCore.Auth.RefreshTokens
