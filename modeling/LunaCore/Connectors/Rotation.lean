import LunaCore.Connectors.Execution

/-! The tokens of an oauth2 connector over its calls, one after another.

    row ─ copy ─▶ call ── stale ─▶ refresh ─▶ prepared request, row        the copy stays
                      └── 401 ───▶ refresh ─▶ copy, row

    Each refresh may bring a new refresh token, and the IdP forgets the one it took. What the last
    one brought is in the copy of the call after a forced refresh; after one in `prepare` it is in
    the row, where there is a session factory, and the call is behind. -/

namespace LunaCore.Connectors.Execution
open LunaCore.Schemes LunaCore.Values
open LunaCore.Flow (truthy given getOr)

/-- The calls of a connector. The rest is ghost: `behind` after a refresh in `prepare` of this call,
    `issued` is the refresh token last issued in this call, `granted` is what was last issued. -/
structure Session where
  call : Call
  behind : Bool
  issued : Option Json
  granted : Option Grant

/-- The call goes on, or it has ended and the next one begins. -/
inductive SessionAction where
  | act (a : Action)
  | begin

/-- A call waits for the answer to a token request. -/
def Pc.asking : Pc → Bool
  | .refreshing | .forcing => true
  | _ => false

namespace Session

variable (x : Setting) (repr : Json → String) (lower : String → String) (iso : Iso)

def start (creds : Dict) : Session := ⟨x.start creds, false, none, none⟩

/-- A refresh has brought this. -/
def grant (s : Session) (behind : Bool) (g : Grant) : Session :=
  { s with behind, issued := g.refreshToken.or s.issued, granted := some g }

/-- What an action tells about the tokens. -/
def note (s : Session) : Action → Session
  | .token now answer => match oauth2Refresh iso now answer with
    | .ok _ => s.grant true (grantOf now answer)
    | .error _ => s
  | .force now answer => match oauth2Refresh iso now answer with
    | .ok _ => s.grant s.behind (grantOf now answer)
    | .error _ => s
  | _ => s

def step (s : Session) : SessionAction → Option Session
  | .act a => (x.step repr lower iso s.call a).map fun c => { s.note iso a with call := c }
  | .begin =>
    if s.call.pc.ended then
      some { call := x.start s.call.stored, behind := false, issued := none, granted := s.granted }
    else none

/-- What is to hold of a step. -/
structure Rotates (s : Session) (a : SessionAction) (t : Session) : Prop where
  /-- A token request has the refresh token last issued in its call. -/
  presented : t.call.pc.asking → ∀ token, s.issued = some token →
    (tokenRequest repr s.call.currentCreds).form.get "refresh_token" = some (.str (strOf repr token))
  /-- What a refresh brings counts as fresh. -/
  fresh : ∀ now answer patch, a = .act (.token now answer) ∨ a = .act (.force now answer) →
    oauth2Refresh iso now answer = .ok patch →
      accessTokenIsFresh repr iso now (merged s.call.currentCreds patch) = .ok true
  /-- It is not refreshed again before its end. -/
  kept : ∀ now, a = .act (.recheck now) → t.call.pc.asking → ∀ g, s.granted = some g →
    ∃ time, g.endsAt = some time ∧ time ≤ now

/-- What is issued can be used for more than a minute, and has an end where the credentials have
    one. -/
structure Lasting (now : ℤ) (creds : Dict) (g : Grant) : Prop where
  token : truthy g.accessToken = true
  ends : ∀ time, g.endsAt = some time → now + refreshLeeway < time
  endless : g.endsAt = none → given creds "expires_at" = false

/-- A call that is behind is not to repeat its request, what is issued is to last, no attempt is to
    be prepared in the last minute of a token, and what was issued is to be in the row. -/
def Steady (s : Session) : SessionAction → Prop
  | .begin => s.granted.isSome → x.factory = true
  | .act (.prepare _) => True
  | .act (.recheck now) => ∀ g, s.granted = some g → ∀ time, g.endsAt = some time →
    time ≤ now ∨ now + refreshLeeway < time
  | .act (.token now answer) | .act (.force now answer) =>
    ∀ patch, oauth2Refresh iso now answer = .ok patch →
      Lasting now s.call.currentCreds (grantOf now answer)
  | .act (.respond (.raised _)) => True
  | .act (.respond (.response r)) => s.behind = true →
    ¬ (s.call.refreshUsed = false ∧ r.status ∈ authStatuses) ∧
      ¬ (0 < s.call.retriesLeft ∧ x.repeats r.status)

/-- The tokens of a session are where they are looked for. -/
structure Inv (s : Session) : Prop where
  /-- A call that is behind has prepared its request. -/
  behind : s.behind = true → s.call.pc.readying = false ∧ s.call.pc.asking = false
  /-- Its copy has the refresh token last issued. -/
  issued : s.behind = false → ∀ token, s.issued = some token →
    s.call.currentCreds.get "refresh_token" = some token ∧ truthy token = true
  /-- The copy and the row have the access token last issued. -/
  copy : s.behind = false → ∀ g, s.granted = some g → Holds iso g s.call.currentCreds
  row : x.factory = true → ∀ g, s.granted = some g → Holds iso g s.call.stored
  usable : ∀ g, s.granted = some g → truthy g.accessToken = true
  /-- What is to be written at the end was written. -/
  written : x.factory = true → ∀ prepared refreshed, s.call.pc = .sending prepared refreshed →
    refreshed = none

end Session

/-! ### What the steps of a call do to its credentials -/

variable {x : Setting} {repr : Json → String} {lower : String → String} {iso : Iso}

/-- The call waits for no token, and what it has prepared brings these credentials along. -/
structure Pc.Settled (pc : Pc) (refreshed : Option Dict) : Prop where
  readying : pc.readying = false
  asking : pc.asking = false
  sending : ∀ prepared brought, pc = .sending prepared brought → brought = refreshed

theorem settled_of_failed {pc : Pc} (h : Failed x pc) (refreshed : Option Dict) :
    pc.Settled refreshed := by
  cases pc with
  | returned result => exact ⟨rfl, rfl, nofun⟩
  | raised e => exact ⟨rfl, rfl, nofun⟩
  | _ => cases h

theorem settled_conclude (r : Response) (refreshed : Option Dict) :
    (x.conclude r).Settled refreshed := by
  unfold Setting.conclude
  cases decodeResponse r with
  | ok body => exact ⟨rfl, rfl, nofun⟩
  | error e => exact ⟨rfl, rfl, nofun⟩

variable (x) in
theorem exists_send (c : Call) (refreshed : Option Dict) (p : Except Raised PreparedRequest) :
    ∃ pc, x.send c refreshed p = { c with pc := pc } ∧ pc.Settled refreshed := by
  cases p with
  | ok prepared => exact ⟨_, rfl, rfl, rfl, fun _ _ h => (Pc.sending.inj h).2.symm⟩
  | error e => exact ⟨_, rfl, settled_of_failed (failed_authFailure e) _⟩

variable (x repr lower iso) in
theorem exists_prepareStep (c : Call) (now : ℤ) :
    ∃ pc, x.prepareStep repr lower iso c now = { c with pc := pc } ∧
      (pc = .waiting ∨ pc.Settled none) := by
  unfold Setting.prepareStep
  split
  case isFalse =>
    obtain ⟨pc, hsend, hpc⟩ := exists_send x c none (prepare repr lower .ok x.authType c.currentCreds)
    exact ⟨pc, hsend, .inr hpc⟩
  case isTrue =>
    split
    case h_1 e _ => exact ⟨_, rfl, .inr (settled_of_failed (failed_authFailure e) _)⟩
    case h_2 =>
      obtain ⟨pc, hsend, hpc⟩ := exists_send x c none (bearerOf repr c.currentCreds)
      exact ⟨pc, hsend, .inr hpc⟩
    case h_3 =>
      split
      case isTrue => exact ⟨_, rfl, .inl rfl⟩
      case isFalse => exact ⟨_, rfl, .inr (settled_of_failed (failed_authFailure _) _)⟩

variable (x repr iso) in
/-- The token endpoint is asked when the token does not count as fresh. -/
theorem exists_recheckStep (c : Call) (now : ℤ) :
    ∃ pc, x.recheckStep repr iso c now = { c with pc := pc } ∧
      ((pc = .refreshing ∧ accessTokenIsFresh repr iso now c.currentCreds = .ok false) ∨
        pc.Settled none) := by
  unfold Setting.recheckStep
  split
  case h_1 e _ => exact ⟨_, rfl, .inr (settled_of_failed (failed_authFailure e) _)⟩
  case h_2 =>
    obtain ⟨pc, hsend, hpc⟩ := exists_send x c none (bearerOf repr c.currentCreds)
    exact ⟨pc, hsend, .inr hpc⟩
  case h_3 hfresh => exact ⟨_, rfl, .inl ⟨rfl, hfresh⟩⟩

variable (x repr iso) in
theorem exists_tokenStep (c : Call) (now : ℤ) (answer : Outcome) :
    (∃ e, oauth2Refresh iso now answer = .error e ∧
      x.tokenStep repr iso c now answer = { c with pc := x.authFailure e }) ∨
    ∃ patch pc, oauth2Refresh iso now answer = .ok patch ∧
      x.tokenStep repr iso c now answer =
        { c with pc := pc, stored := x.persist c (merged c.currentCreds patch) } ∧
      pc.Settled (if x.factory then none else some (merged c.currentCreds patch)) := by
  unfold Setting.tokenStep
  cases oauth2Refresh iso now answer with
  | error e => exact .inl ⟨e, rfl, rfl⟩
  | ok patch =>
    obtain ⟨pc, hsend, hpc⟩ := exists_send x
      { c with stored := x.persist c (merged c.currentCreds patch) }
      (if x.factory then none else some (merged c.currentCreds patch))
      (bearerOf repr (merged c.currentCreds patch))
    exact .inr ⟨patch, pc, rfl, hsend, hpc⟩

variable (x iso) in
theorem exists_forceStep (c : Call) (now : ℤ) (answer : Outcome) :
    (∃ e, oauth2Refresh iso now answer = .error e ∧
      x.forceStep iso c now answer = { c with pc := x.authFailure e }) ∨
    ∃ patch, oauth2Refresh iso now answer = .ok patch ∧
      x.forceStep iso c now answer =
        { pc := .preparing, currentCreds := merged c.currentCreds patch, refreshUsed := true,
          retriesLeft := c.retriesLeft,
          stored := x.persist c (merged c.currentCreds patch) } := by
  unfold Setting.forceStep
  cases oauth2Refresh iso now answer with
  | error e => exact .inl ⟨e, rfl, rfl⟩
  | ok patch => exact .inr ⟨patch, rfl, rfl⟩

variable (x) in
/-- A response ends the call, or one of the two rules repeats the request. -/
theorem exists_respondStep (c : Call) (refreshed : Option Dict) (answer : Outcome) :
    (∃ pc, x.respondStep c refreshed answer = { c with pc := pc } ∧ pc.Settled none) ∨
    (∃ r, answer = .response r ∧ x.respondStep c refreshed answer =
      { c with
        pc := x.conclude r
        stored := (refreshed.map (x.persist c)).getD c.stored }) ∨
    (∃ r, answer = .response r ∧ (c.refreshUsed = false ∧ r.status ∈ authStatuses) ∧
      x.respondStep c refreshed answer = { c with pc := .forcing }) ∨
    ∃ r, answer = .response r ∧ (0 < c.retriesLeft ∧ x.repeats r.status) ∧
      x.respondStep c refreshed answer =
        { c with pc := .preparing, retriesLeft := c.retriesLeft - 1 } := by
  cases answer with
  | raised e => exact .inl ⟨_, rfl, settled_of_failed (failed_requestFailure e) _⟩
  | response r =>
    simp only [Setting.respondStep]
    split
    case isTrue hrecover =>
      split
      case isTrue => exact .inr (.inr (.inl ⟨r, rfl, ⟨hrecover.1, hrecover.2.1⟩, rfl⟩))
      case isFalse => exact .inl ⟨_, rfl, settled_of_failed (failed_authFailure _) _⟩
    case isFalse =>
      split
      case isTrue hagain => exact .inr (.inr (.inr ⟨r, rfl, hagain, rfl⟩))
      case isFalse => exact .inr (.inl ⟨r, rfl, rfl⟩)

/-! ### The tokens stay where they are looked for -/

namespace Session

/-- The call takes a step, or the next call begins with what is stored. -/
theorem session_cases {s t : Session} {a : SessionAction}
    (h : step x repr lower iso s a = some t) :
    (∃ action c, a = .act action ∧ x.step repr lower iso s.call action = some c ∧
      t = { s.note iso action with call := c }) ∨
    (a = .begin ∧ s.call.pc.ended ∧ t =
      { call := x.start s.call.stored, behind := false, issued := none, granted := s.granted }) := by
  cases a with
  | act action =>
    obtain ⟨c, hc, ht⟩ := Option.map_eq_some_iff.mp h
    exact .inl ⟨action, c, rfl, hc, ht.symm⟩
  | begin =>
    simp only [step] at h
    split at h
    case isFalse => cases h
    case isTrue hended => exact .inr ⟨rfl, hended, (Option.some.inj h).symm⟩

/-- Credentials that stay as they are keep the invariant. -/
theorem Inv.move {s : Session} (hs : Inv x iso s) {c : Call}
    (hcreds : c.currentCreds = s.call.currentCreds) (hstored : c.stored = s.call.stored)
    (hbehind : s.behind = true → c.pc.readying = false ∧ c.pc.asking = false)
    (hwritten : x.factory = true → ∀ prepared refreshed, c.pc = .sending prepared refreshed →
      refreshed = none) : Inv x iso { s with call := c } where
  behind := hbehind
  issued h token htoken := by
    rw [hcreds]
    exact hs.issued h token htoken
  copy h g hg := by
    rw [hcreds]
    exact hs.copy h g hg
  row h g hg := by
    rw [hstored]
    exact hs.row h g hg
  usable := hs.usable
  written := hwritten

theorem inv_start (creds : Dict) : Inv x iso (start x creds) where
  behind h := by cases h
  issued _ token h := by cases h
  copy _ g h := by cases h
  row _ g h := by cases h
  usable g h := by cases h
  written _ _ _ h := by cases h

theorem Inv.not_behind {s : Session} (hs : Inv x iso s)
    (hpc : s.call.pc.readying = true ∨ s.call.pc.asking = true) : s.behind = false := by
  by_contra hbehind
  obtain ⟨hready, hasking⟩ := hs.behind (by simpa using hbehind)
  rcases hpc with h | h
  · rw [hready] at h; cases h
  · rw [hasking] at h; cases h

/-- After a refresh in `prepare` the call is behind, the row is not. -/
theorem Inv.refreshed {s : Session} {now : ℤ} {answer : Outcome} {patch : Dict} {pc : Pc}
    (hpatch : oauth2Refresh iso now answer = .ok patch)
    (hlasting : Lasting now s.call.currentCreds (grantOf now answer))
    (hpc : pc.Settled (if x.factory then none else some (merged s.call.currentCreds patch))) :
    Inv x iso { s.grant true (grantOf now answer) with
      call := { s.call with
        pc := pc
        stored := x.persist s.call (merged s.call.currentCreds patch) } } where
  behind _ := ⟨hpc.readying, hpc.asking⟩
  issued h := by cases h
  copy h := by cases h
  row hfactory g hg := by
    obtain rfl := Option.some.inj hg
    rw [Setting.persist, hfactory, if_pos rfl]
    exact holds_merged (isPatch_of_refresh hpatch) hlasting.endless
  usable g hg := by
    obtain rfl := Option.some.inj hg
    exact hlasting.token
  written hfactory prepared refreshed h := by
    have hbrought := hpc.sending prepared refreshed h
    rwa [hfactory, if_pos rfl] at hbrought

/-- After a forced refresh the call and the row have what was issued. -/
theorem Inv.forced {s : Session} (hs : Inv x iso s) (hbehind : s.behind = false) {now : ℤ}
    {answer : Outcome} {patch : Dict} (hpatch : oauth2Refresh iso now answer = .ok patch)
    (hlasting : Lasting now s.call.currentCreds (grantOf now answer)) :
    Inv x iso { s.grant s.behind (grantOf now answer) with
      call :=
        { pc := .preparing, currentCreds := merged s.call.currentCreds patch, refreshUsed := true,
          retriesLeft := s.call.retriesLeft,
          stored := x.persist s.call (merged s.call.currentCreds patch) } } := by
  have hholds : Holds iso (grantOf now answer) (merged s.call.currentCreds patch) :=
    holds_merged (isPatch_of_refresh hpatch) hlasting.endless
  refine ⟨fun h => ?_, fun _ token htoken => ?_, fun _ g hg => ?_, fun hfactory g hg => ?_,
    fun g hg => ?_, nofun⟩
  · rw [grant, hbehind] at h
    cases h
  · show (merged s.call.currentCreds patch).get "refresh_token" = some token ∧ truthy token = true
    rw [refresh_merged (isPatch_of_refresh hpatch)]
    simp only [grant] at htoken
    cases hissued : (grantOf now answer).refreshToken with
    | some issued =>
      rw [hissued, Option.some_or] at htoken
      obtain rfl := Option.some.inj htoken
      exact ⟨rfl, truthy_refreshToken hissued⟩
    | none =>
      rw [hissued, Option.none_or] at htoken
      rw [Option.none_or]
      exact hs.issued hbehind token htoken
  · obtain rfl := Option.some.inj hg
    exact hholds
  · obtain rfl := Option.some.inj hg
    rw [Setting.persist, hfactory, if_pos rfl]
    exact hholds
  · obtain rfl := Option.some.inj hg
    exact hlasting.token

/-- A settled call keeps the invariant, also one that is behind. -/
theorem Inv.settle {s : Session} (hs : Inv x iso s) {pc : Pc} (hpc : pc.Settled none) :
    Inv x iso { s with call := { s.call with pc := pc } } :=
  hs.move rfl rfl (fun _ => ⟨hpc.readying, hpc.asking⟩) fun _ => hpc.sending

theorem inv_act {s : Session} {a : Action} {c : Call} (hs : Inv x iso s)
    (hok : Steady x iso s (.act a)) (h : x.step repr lower iso s.call a = some c) :
    Inv x iso { s.note iso a with call := c } := by
  obtain ⟨now, hpc, rfl, rfl⟩ | ⟨now, hpc, rfl, rfl⟩ | ⟨now, answer, hpc, rfl, rfl⟩ |
    ⟨prepared, refreshed, answer, hpc, rfl, rfl⟩ | ⟨now, answer, hpc, rfl, rfl⟩ := step_cases h
  · have hbehind : s.behind = false := hs.not_behind (by rw [hpc]; exact .inl rfl)
    obtain ⟨pc, hstep, rfl | hsettled⟩ := exists_prepareStep x repr lower iso s.call now
    · rw [hstep]
      exact hs.move rfl rfl (fun h => by rw [hbehind] at h; cases h) fun _ => nofun
    · rw [hstep]
      exact hs.settle hsettled
  · have hbehind : s.behind = false := hs.not_behind (by rw [hpc]; exact .inl rfl)
    obtain ⟨pc, hstep, ⟨rfl, -⟩ | hsettled⟩ := exists_recheckStep x repr iso s.call now
    · rw [hstep]
      exact hs.move rfl rfl (fun h => by rw [hbehind] at h; cases h) fun _ => nofun
    · rw [hstep]
      exact hs.settle hsettled
  · obtain ⟨e, hrefused, hstep⟩ | ⟨patch, pc, hpatch, hstep, hsettled⟩ :=
      exists_tokenStep x repr iso s.call now answer
    · rw [hstep, note, hrefused]
      exact hs.settle (settled_of_failed (failed_authFailure e) none)
    · rw [hstep, note, hpatch]
      exact Inv.refreshed hpatch (hok patch hpatch) hsettled
  · have hwritten (hfactory : x.factory = true) : refreshed = none :=
      hs.written hfactory prepared refreshed hpc
    obtain ⟨pc, hstep, hsettled⟩ | ⟨r, rfl, hstep⟩ | ⟨r, rfl, hrecover, hstep⟩ |
      ⟨r, rfl, hagain, hstep⟩ := exists_respondStep x s.call refreshed answer
    · rw [hstep]
      exact hs.settle hsettled
    · have hstored : (refreshed.map (x.persist s.call)).getD s.call.stored = s.call.stored := by
        cases hfactory : x.factory with
        | true => rw [hwritten hfactory]; rfl
        | false => cases refreshed <;> simp [Setting.persist, hfactory]
      have hsettled : (x.conclude r).Settled none := settled_conclude r none
      rw [hstep]
      exact hs.move rfl hstored (fun _ => ⟨hsettled.readying, hsettled.asking⟩)
        fun _ => hsettled.sending
    · rw [hstep]
      exact hs.move rfl rfl (fun h => absurd hrecover (hok h).1) fun _ => nofun
    · rw [hstep]
      exact hs.move rfl rfl (fun h => absurd hagain (hok h).2) fun _ => nofun
  · have hbehind : s.behind = false := hs.not_behind (by rw [hpc]; exact .inr rfl)
    obtain ⟨e, hrefused, hstep⟩ | ⟨patch, hpatch, hstep⟩ :=
      exists_forceStep x iso s.call now answer
    · rw [hstep, note, hrefused]
      exact hs.settle (settled_of_failed (failed_authFailure e) none)
    · rw [hstep, note, hpatch]
      exact hs.forced hbehind hpatch (hok patch hpatch)

/-- A step that is steady keeps the tokens where they are looked for. -/
theorem inv_step (s : Session) (a : SessionAction) (t : Session) (hs : Inv x iso s)
    (hok : Steady x iso s a) (h : step x repr lower iso s a = some t) : Inv x iso t := by
  obtain ⟨action, c, rfl, hc, rfl⟩ | ⟨rfl, -, rfl⟩ := session_cases h
  · exact inv_act hs hok hc
  · have hrow (g : Grant) (hg : s.granted = some g) : Holds iso g s.call.stored :=
      hs.row (hok (by rw [hg]; rfl)) g hg
    exact ⟨nofun, fun _ _ => nofun, fun _ => hrow, fun _ => hrow, hs.usable, fun _ => nofun⟩

/-- What a refresh brings is fresh when it lasts. -/
theorem fresh_merged {now : ℤ} {answer : Outcome} {creds patch : Dict}
    (hpatch : oauth2Refresh iso now answer = .ok patch)
    (hlasting : Lasting now creds (grantOf now answer)) :
    accessTokenIsFresh repr iso now (merged creds patch) = .ok true := by
  rw [fresh_of_holds (holds_merged (isPatch_of_refresh hpatch) hlasting.endless) hlasting.token]
  cases hends : (grantOf now answer).endsAt with
  | none => rfl
  | some time => simp [hlasting.ends time hends]

/-- A call that is behind asks for no token. -/
theorem not_behind_of_asking {s : Session} {a : Action} {c : Call} (hs : Inv x iso s)
    (hok : Steady x iso s (.act a)) (h : x.step repr lower iso s.call a = some c)
    (hasking : c.pc.asking = true) : s.behind = false := by
  obtain ⟨now, hpc, rfl, rfl⟩ | ⟨now, hpc, rfl, rfl⟩ | ⟨now, answer, hpc, rfl, rfl⟩ |
    ⟨prepared, refreshed, answer, hpc, rfl, rfl⟩ | ⟨now, answer, hpc, rfl, rfl⟩ := step_cases h
  · exact hs.not_behind (by rw [hpc]; exact .inl rfl)
  · exact hs.not_behind (by rw [hpc]; exact .inl rfl)
  · exact hs.not_behind (by rw [hpc]; exact .inl rfl)
  · obtain ⟨pc, hstep, hsettled⟩ | ⟨r, rfl, hstep⟩ | ⟨r, rfl, hrecover, hstep⟩ |
      ⟨r, rfl, hagain, hstep⟩ := exists_respondStep x s.call refreshed answer
    · rw [hstep] at hasking
      exact absurd hasking (Bool.eq_false_iff.mp hsettled.asking)
    · rw [hstep] at hasking
      exact absurd hasking (Bool.eq_false_iff.mp (settled_conclude r none).asking)
    · by_contra hbehind
      exact (hok (by simpa using hbehind)).1 hrecover
    · rw [hstep] at hasking
      cases hasking
  · exact hs.not_behind (by rw [hpc]; exact .inr rfl)

/-- The token that was issued last is refreshed when it is at its end. -/
theorem ended_of_stale {s : Session} {now : ℤ} (hs : Inv x iso s) (hbehind : s.behind = false)
    (hok : Steady x iso s (.act (.recheck now)))
    (hstale : accessTokenIsFresh repr iso now s.call.currentCreds = .ok false) {g : Grant}
    (hg : s.granted = some g) : ∃ time, g.endsAt = some time ∧ time ≤ now := by
  rw [fresh_of_holds (hs.copy hbehind g hg) (hs.usable g hg)] at hstale
  cases hends : g.endsAt with
  | none =>
    rw [hends] at hstale
    cases hstale
  | some time =>
    rw [hends, Option.map_some, Option.getD_some] at hstale
    have hlate : ¬ now + refreshLeeway < time := of_decide_eq_false (Except.ok.inj hstale)
    exact ⟨time, rfl, (hok g hg time hends).resolve_right hlate⟩

theorem rotates_step (s : Session) (a : SessionAction) (t : Session) (hs : Inv x iso s)
    (hok : Steady x iso s a) (h : step x repr lower iso s a = some t) :
    Rotates repr iso s a t := by
  obtain ⟨action, c, rfl, hc, rfl⟩ | ⟨rfl, -, rfl⟩ := session_cases h
  case inr => exact ⟨nofun, fun _ _ _ h => h.elim nofun nofun, fun _ => nofun⟩
  case inl =>
    refine ⟨fun hasking token htoken => ?_, fun now answer patch ha hpatch => ?_,
      fun now ha hasking g hg => ?_⟩
    · obtain ⟨hcreds, htruthy⟩ := hs.issued (not_behind_of_asking hs hok hc hasking) token htoken
      exact form_tokenRequest hcreds htruthy
    · rcases ha with ha | ha
      · obtain rfl := SessionAction.act.inj ha
        exact fresh_merged hpatch (hok patch hpatch)
      · obtain rfl := SessionAction.act.inj ha
        exact fresh_merged hpatch (hok patch hpatch)
    · obtain rfl := SessionAction.act.inj ha
      have hbehind : s.behind = false := not_behind_of_asking hs hok hc hasking
      obtain ⟨pc, hstep, ⟨-, hstale⟩ | hsettled⟩ := exists_recheckStep x repr iso s.call now
      · exact ended_of_stale hs hbehind hok hstale hg
      · obtain ⟨now', -, hnow, rfl⟩ : ∃ now', s.call.pc = .waiting ∧
            Action.recheck now = .recheck now' ∧ c = x.recheckStep repr iso s.call now' := by
          rcases step_cases hc with ⟨_, _, h, _⟩ | h | ⟨_, _, _, h, _⟩ | ⟨_, _, _, _, h, _⟩ |
            ⟨_, _, _, h, _⟩
          · cases h
          · exact h
          · cases h
          · cases h
          · cases h
        obtain rfl := Action.recheck.inj hnow
        simp only [hstep] at hasking
        exact absurd hasking (Bool.eq_false_iff.mp hsettled.asking)

variable (x repr lower iso)

/-- THE CONDITION: in every session of which the steps are steady, each token request has the
    refresh token last issued in its call, what a refresh brings counts as fresh, and it is not
    refreshed again before its end. -/
theorem rotates_run (creds : Dict) (as : List SessionAction)
    (h : Guarded (step x repr lower iso) (Steady x iso) (start x creds) as) :
    EveryStep (step x repr lower iso) (Rotates repr iso) (start x creds) as :=
  everyStep_of_guarded inv_step rotates_step (inv_start creds) h

/-- Requests for an oauth2 connector, repeated once at a 503. -/
def getTwice : Setting :=
  ⟨.oauth2, .get, "https://api.test/me".toList, some ⟨2, [503], by decide⟩, true⟩

/-- Tokens that ended with the year 2019. -/
def endedTokens : Dict := ("expires_at", .str "2020-01-01T00:00:00+00:00") :: oldTokens

/-- New tokens, issued for so long. -/
def newTokens (access refresh : String) (seconds : ℚ) : Outcome := .response (answered 200 (.obj
  [("access_token", .str access), ("refresh_token", .str refresh), ("expires_in", .num seconds)]))

/-- The call finds its token ended and refreshes it, for an hour. -/
def refreshes : List SessionAction :=
  [.act (.prepare start2020), .act (.recheck start2020),
    .act (.token start2020 (newTokens "new" "r1" 3600))]

/-- Half an hour into 2020. -/
def later : ℤ := start2020 + 1800 * 1000000

/-- It is answered. The next call has the token from the row, half an hour later, and is answered 401:
    it refreshes what the first one was issued, and its second attempt has the newer token. -/
def refreshedTwice : List SessionAction := refreshes ++
  [.act (.respond (.response (answered 200 (.obj [])))), .begin, .act (.prepare later),
    .act (.respond (.response (answered 401 (.obj [])))),
    .act (.force later (newTokens "newer" "r2" 1800)), .act (.prepare later),
    .act (.respond (.response (answered 200 (.obj []))))]

theorem refreshes_rotate :
    EveryStep (step getTwice (fun _ => "") id sampleIso) (Rotates (fun _ => "") sampleIso)
        (start getTwice endedTokens) refreshedTwice ∧
      ∃ s, runFrom (step getTwice (fun _ => "") id sampleIso) (start getTwice endedTokens)
        refreshedTwice = some s ∧ s.call.pc.ended ∧ s.call.refreshUsed = true ∧
        s.call.stored.get "refresh_token" = some (.str "r2") := by
  refine ⟨rotates_run getTwice (fun _ => "") id sampleIso endedTokens refreshedTwice ?_,
    _, rfl, rfl, rfl, rfl⟩
  -- what each refresh issues ends at one in the morning
  have hends (time : ℤ) (h : some (start2020 + 3600 * 1000000) = some time) :
      later + refreshLeeway < time := by
    obtain rfl := Option.some.inj h
    decide
  refine .cons rfl trivial (.cons rfl nofun (.cons rfl ?_ (.cons rfl ?_ (.cons rfl (fun _ => rfl)
    (.cons rfl trivial (.cons rfl nofun (.cons rfl ?_ (.cons rfl trivial (.cons rfl nofun trivial
    )))))))))
  · intro patch hpatch
    exact ⟨rfl, fun time htime => lt_trans (by decide) (hends time htime), nofun⟩
  · intro _
    decide
  · intro patch hpatch
    exact ⟨rfl, fun time htime => hends time htime, nofun⟩

/-- At a 503 the request is repeated from the copy, and the refresh token that was exchanged is
    presented again. -/
theorem exchanged_presented :
    ¬ EveryStep (step getTwice (fun _ => "") id sampleIso) (Rotates (fun _ => "") sampleIso)
      (start getTwice endedTokens)
      (refreshes ++ [.act (.respond (.response (answered 503 (.obj [])))),
        .act (.prepare start2020)] ++ [.act (.recheck start2020)]) := by
  intro h
  have hstep := EveryStep.at h (rfl : runFrom _ _ _ = some _) rfl
  have hpresented := hstep.presented rfl _ rfl
  revert hpresented
  decide +kernel

end Session

end LunaCore.Connectors.Execution
