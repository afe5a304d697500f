import Mathlib.Logic.Function.Basic
import LunaCore.Schemes.Machine
import LunaCore.Schemes.Parties

/-! The operation calls of one oauth2 connector and the tokens they refresh.

    Every grant of the IdP issues an access token and a refresh token; a generation counts them, and
    the IdP takes the latest refresh token only. The registry has an object of the connector with
    the credentials encrypted, the database has a row:

        perform ─ copy of the registry's credentials ─┐
          prepare: expired? ── lock ─ expired? ─┐     │
          401 or 403: force ── lock ────────────┴ POST refresh ─→ IdP
            release, write the object │ UPDATE the row, request, …

    A coroutine runs from one await to the next without the others: the response, the release of the
    lock and the write of the object are one step, the UPDATE is another. What is re-checked inside
    the lock is the call's own copy, and a call keeps its copy when `prepare` has refreshed it. -/

namespace LunaCore.Connectors
open LunaCore.Schemes

/-- Where a call stands: `forced` is the refresh after a 401 or 403. -/
inductive Pc where
  | preparing
  | waiting (forced : Bool)
  | holding (forced : Bool)
  | granted (forced : Bool) (tokens : ℕ)
  | refused
  | persisting (forced : Bool) (tokens : ℕ)
  | sending
  | ended
  deriving DecidableEq

/-- A call of `perform`: the connector object it got, its copy of the credentials (`current_creds`),
    and `oauth2_refresh_used`. Credentials are known by the generation of their tokens. -/
structure Call where
  object : ℕ
  creds : ℕ
  refreshUsed : Bool
  pc : Pc
  deriving DecidableEq

/-- The IdP has issued so many generations after the first, some access tokens have expired; the
    registry has the connector object `current`. `exchanged` is a ghost: the generations whose
    refresh token was exchanged for new tokens. -/
structure State where
  issued : ℕ
  expired : List ℕ
  objects : ℕ → ℕ
  current : ℕ
  row : ℕ
  holder : Option ℕ
  calls : List Call
  exchanged : List ℕ

def State.start : State := ⟨0, [], fun _ => 0, 0, 0, none, [], []⟩

/-- The registry's credentials. -/
def State.registry (s : State) : ℕ := s.objects s.current

/-- `_access_token_is_fresh`. -/
def State.fresh (s : State) (creds : ℕ) : Bool := creds ∉ s.expired

/-- What the upstream service answers, as far as the loop of `_execute_http` tells it apart. -/
inductive Answer where
  | final
  | unauthorized
  | retried
  deriving DecidableEq

/-- What a call does next. -/
inductive CallAction where
  | prepare
  | acquire
  | recheck
  | present
  | refuse
  | receive
  | lose
  | commit
  | commitFails
  | respond (answer : Answer)
  | giveUp
  deriving DecidableEq

inductive Action where
  | perform
  | call (i : ℕ) (a : CallAction)
  | expire (tokens : ℕ)
  | reload
  deriving DecidableEq

def State.put (s : State) (i : ℕ) (c : Call) : State := { s with calls := s.calls.set i c }

/-- A call goes on. `factory`: the registry has a session factory to persist with. -/
def callStep (factory : Bool) (s : State) (i : ℕ) (c : Call) : CallAction → Option State
  | .prepare =>
    if c.pc = .preparing then
      some (s.put i { c with pc := if s.fresh c.creds then .sending else .waiting false })
    else none
  | .acquire => match c.pc, s.holder with
    | .waiting forced, none =>
      some { s.put i { c with pc := .holding forced } with holder := some i }
    | _, _ => none
  -- the re-check inside the lock, of the call's own copy
  | .recheck =>
    if c.pc = .holding false ∧ s.fresh c.creds then
      some { s.put i { c with pc := .sending } with holder := none }
    else none
  -- `_oauth2_refresh` reaches the IdP
  | .present => match c.pc with
    | .holding forced =>
      if forced = false ∧ s.fresh c.creds then none
      else if c.creds = s.issued then
        some { s.put i { c with pc := .granted forced (s.issued + 1) } with
          issued := s.issued + 1, exchanged := c.creds :: s.exchanged }
      else some (s.put i { c with pc := .refused })
    | _ => none
  -- it reaches the IdP, which answers with an error of its own
  | .refuse => match c.pc with
    | .holding forced =>
      if forced = false ∧ s.fresh c.creds then none else some (s.put i { c with pc := .refused })
    | _ => none
  | .receive => match c.pc with
    | .granted forced tokens =>
      if factory then
        some { s.put i { c with pc := .persisting forced tokens } with
          holder := none, objects := Function.update s.objects c.object tokens }
      else if forced then
        some { s.put i { c with pc := .preparing, creds := tokens, refreshUsed := true } with
          holder := none }
      else some { s.put i { c with pc := .sending } with holder := none }
    | .refused => some { s.put i { c with pc := .ended } with holder := none }
    | _ => none
  -- the request to the IdP or its response is lost, or the call is cancelled there
  | .lose => match c.pc with
    | .holding _ | .granted _ _ => some { s.put i { c with pc := .ended } with holder := none }
    | _ => none
  -- the UPDATE; after a forced refresh the loop goes round with the new credentials
  | .commit => match c.pc with
    | .persisting false tokens => some { s.put i { c with pc := .sending } with row := tokens }
    | .persisting true tokens =>
      some { s.put i { c with pc := .preparing, creds := tokens, refreshUsed := true } with
        row := tokens }
    | _ => none
  | .commitFails => match c.pc with
    | .persisting _ _ => some (s.put i { c with pc := .ended })
    | _ => none
  | .respond answer =>
    if c.pc = .sending then
      some (s.put i { c with pc := match answer with
        | .final => .ended
        | .unauthorized => if c.refreshUsed then .ended else .waiting true
        | .retried => .preparing })
    else none
  | .giveUp => match c.pc with
    | .waiting _ => some (s.put i { c with pc := .ended })
    | _ => none

/-- One step of a call, of the clock, or `load_from_db`, which makes a new object of the row. -/
def step (factory : Bool) (s : State) : Action → Option State
  | .perform => some { s with calls := s.calls ++ [⟨s.current, s.registry, false, .preparing⟩] }
  | .call i a => (s.calls[i]?).bind fun c => callStep factory s i c a
  | .expire tokens => some { s with expired := tokens :: s.expired }
  | .reload => some { s with
      objects := Function.update s.objects (s.current + 1) s.row, current := s.current + 1 }

/-! ### What is asked of the refreshes -/

/-- A call sends its refresh token to the IdP, whatever that makes of it. -/
def CallAction.presents : CallAction → Bool
  | .present | .refuse => true
  | _ => false

/-- A refresh token that is presented is the latest and was not exchanged before, so callers that
    found the same stale token cause one grant. Once all calls have ended, the registry and the
    database have the latest tokens. -/
structure OneGrant (s : State) (a : Action) (t : State) : Prop where
  presented : ∀ i action, a = .call i action → action.presents = true →
    ∀ c ∈ s.calls[i]?, c.creds = s.issued ∧ c.creds ∉ s.exchanged
  stored : (∀ c ∈ t.calls, c.pc = .ended) → t.registry = t.issued ∧ t.row = t.issued

/-- The tokens a call was granted and has not written to the row. -/
def Pc.pending : Pc → Option ℕ
  | .granted _ tokens | .persisting _ tokens => some tokens
  | _ => none

def Pc.isGranted : Pc → Bool
  | .granted _ _ => true
  | _ => false

/-- A call presents what the registry still has. The response of a grant gets back, to a call on
    the registered object and with a session factory. The row is written in the order of the grants,
    and no write of the latest fails. -/
def CallUndisturbed (factory : Bool) (s : State) (c : Call) : CallAction → Prop
  | .present | .refuse => c.creds = s.registry
  | .receive => c.pc.isGranted = true → factory = true ∧ c.object = s.current
  | .lose => c.pc.isGranted = false
  | .commit => ∀ tokens ∈ c.pc.pending, s.row ≤ tokens
  | .commitFails => ∀ tokens ∈ c.pc.pending, tokens < s.issued
  | _ => True

/-- No call is disturbed so, and no reload comes between a grant and its write. -/
def Undisturbed (factory : Bool) (s : State) : Action → Prop
  | .call i a => ∀ c ∈ s.calls[i]?, CallUndisturbed factory s c a
  | .reload => ∀ c ∈ s.calls, c.pc.pending = none
  | _ => True

instance (factory : Bool) (s : State) (c : Call) : DecidablePred (CallUndisturbed factory s c)
  | .present | .refuse => inferInstanceAs (Decidable (_ = _))
  | .receive => inferInstanceAs (Decidable (_ → _ ∧ _))
  | .lose => inferInstanceAs (Decidable (_ = _))
  | .commit => inferInstanceAs (Decidable (∀ _ ∈ c.pc.pending, _ ≤ _))
  | .commitFails => inferInstanceAs (Decidable (∀ _ ∈ c.pc.pending, _ < _))
  | .prepare | .acquire | .recheck | .respond _ | .giveUp => isTrue trivial

instance (factory : Bool) (s : State) : ∀ a, Decidable (Undisturbed factory s a)
  | .call i a => inferInstanceAs (Decidable (∀ c ∈ s.calls[i]?, CallUndisturbed factory s c a))
  | .reload => inferInstanceAs (Decidable (∀ c ∈ s.calls, _ = _))
  | .perform | .expire _ => isTrue trivial

/-! ### What holds while nothing disturbs -/

/-- The statements between taking the lock and letting it go. -/
def Pc.locked : Pc → Bool
  | .holding _ | .granted _ _ | .refused => true
  | _ => false

/-- Who is inside the lock holds it. The registry has the latest tokens unless the IdP's response
    is under way, the row has them unless somebody is about to write them. -/
structure Inv (s : State) : Prop where
  locked : ∀ (i : ℕ) (c : Call), s.calls[i]? = some c → c.pc.locked = true → s.holder = some i
  latest : ∀ (i : ℕ) (c : Call), s.calls[i]? = some c → c.pc.isGranted = true →
    c.pc.pending = some s.issued
  bounded : ∀ (i : ℕ) (c : Call), s.calls[i]? = some c → ∀ tokens ∈ c.pc.pending, tokens ≤ s.issued
  registry : s.registry = s.issued ∨
    ∃ (i : ℕ) (c : Call), s.calls[i]? = some c ∧ c.pc.isGranted = true
  row : s.row = s.issued ∨ ∃ (i : ℕ) (c : Call), s.calls[i]? = some c ∧ c.pc.pending = some s.issued
  exchanged : ∀ tokens ∈ s.exchanged, tokens < s.issued

theorem inv_start : Inv .start :=
  ⟨nofun, nofun, nofun, .inl rfl, .inl rfl, nofun⟩

theorem pending_of_granted {pc : Pc} (h : pc.isGranted = true) : pc.locked = true ∧
    ∃ tokens, pc.pending = some tokens := by
  cases pc with
  | granted _ tokens => exact ⟨rfl, tokens, rfl⟩
  | _ => cases h

theorem not_granted {pc : Pc} (h : pc.pending = none) : ¬ pc.isGranted = true := by
  intro hgranted
  obtain ⟨_, tokens, hsome⟩ := pending_of_granted hgranted
  rw [h] at hsome
  cases hsome

/-- A call that has no grant to write goes on: the tokens are where they were. `holder` is who has
    the lock after it. -/
theorem Inv.move {s : State} (hs : Inv s) {i : ℕ} {c : Call} (hc : s.calls[i]? = some c)
    (hpending : c.pc.pending = none) (c' : Call) (hpending' : c'.pc.pending = none)
    (holder : Option ℕ) (hself : c'.pc.locked = true → holder = some i)
    (hothers : ∀ j d, s.calls[j]? = some d → i ≠ j → d.pc.locked = true → holder = some j) :
    Inv { s.put i c' with holder := holder } := by
  refine ⟨fun j d hd hlocked => ?_, forall_moved hs.latest ?_, forall_moved hs.bounded ?_, ?_, ?_,
    hs.exchanged⟩
  · rcases moved_cases hd with ⟨rfl, rfl⟩ | ⟨hij, hold⟩
    · exact hself hlocked
    · exact hothers j d hold hij hlocked
  · intro hgranted
    exact absurd hgranted (not_granted hpending')
  · rw [hpending']
    nofun
  · refine hs.registry.imp id fun h => ?_
    exact exists_moved (p := fun c : Call => c.pc.isGranted = true) hc (not_granted hpending) h
  · refine hs.row.imp id fun h => ?_
    refine exists_moved (p := fun c : Call => c.pc.pending = some s.issued) hc ?_ h
    rw [hpending]
    nofun

/-- One that is inside the lock before and after, or outside. -/
theorem Inv.stay {s : State} (hs : Inv s) {i : ℕ} {c : Call} (hc : s.calls[i]? = some c)
    (hpending : c.pc.pending = none) (c' : Call) (hpending' : c'.pc.pending = none)
    (hlocked : c'.pc.locked = true → c.pc.locked = true) : Inv (s.put i c') :=
  hs.move hc hpending c' hpending' s.holder (fun h => hs.locked i c hc (hlocked h))
    fun j d hd _ h => hs.locked j d hd h

/-- One that takes the lock. -/
theorem Inv.acquire {s : State} (hs : Inv s) {i : ℕ} {c : Call} (hc : s.calls[i]? = some c)
    (hpending : c.pc.pending = none) (c' : Call) (hpending' : c'.pc.pending = none)
    (hfree : s.holder = none) : Inv { s.put i c' with holder := some i } := by
  refine hs.move hc hpending c' hpending' (some i) (fun _ => rfl) fun j d hd _ h => ?_
  rw [hs.locked j d hd h] at hfree
  cases hfree

/-- Nobody else is inside the lock. -/
theorem Inv.alone {s : State} (hs : Inv s) {i j : ℕ} {c d : Call} (hc : s.calls[i]? = some c)
    (hlocked : c.pc.locked = true) (hd : s.calls[j]? = some d) (hlocked' : d.pc.locked = true) :
    i = j := by
  have hi := hs.locked i c hc hlocked
  rw [hs.locked j d hd hlocked'] at hi
  exact (Option.some.inj hi).symm

/-- One that lets the lock go. -/
theorem Inv.release {s : State} (hs : Inv s) {i : ℕ} {c : Call} (hc : s.calls[i]? = some c)
    (hlocked : c.pc.locked = true) (hpending : c.pc.pending = none) (c' : Call)
    (hpending' : c'.pc.pending = none) (hlocked' : c'.pc.locked = false) :
    Inv { s.put i c' with holder := none } := by
  refine hs.move hc hpending c' hpending' none (fun h => ?_) fun j d hd hij h => ?_
  · rw [hlocked'] at h
    cases h
  · exact absurd (hs.alone hc hlocked hd h) hij

/-- While somebody is inside the lock without a grant, the registry is up to date. -/
theorem Inv.registry_of_locked {s : State} (hs : Inv s) {i : ℕ} {c : Call}
    (hc : s.calls[i]? = some c) (hlocked : c.pc.locked = true) (hpending : c.pc.pending = none) :
    s.registry = s.issued := by
  rcases hs.registry with h | ⟨j, d, hd, hgranted⟩
  · exact h
  · obtain rfl := hs.alone hc hlocked hd (pending_of_granted hgranted).1
    obtain rfl := Option.some.inj (hc.symm.trans hd)
    exact absurd hgranted (not_granted hpending)

/-- The IdP exchanges the latest refresh token. -/
theorem Inv.grant {s : State} (hs : Inv s) {i : ℕ} {c : Call} (hc : s.calls[i]? = some c)
    {forced : Bool} (hpc : c.pc = .holding forced) (hcreds : c.creds = s.issued) :
    Inv { s.put i { c with pc := .granted forced (s.issued + 1) } with
      issued := s.issued + 1, exchanged := c.creds :: s.exchanged } := by
  have hlocked : c.pc.locked = true := by rw [hpc]; rfl
  refine ⟨forall_moved hs.locked fun _ => hs.locked i c hc hlocked, fun j d hd h => ?_,
    fun j d hd tokens h => ?_, .inr ⟨i, _, moved_self _ hc, rfl⟩,
    .inr ⟨i, _, moved_self _ hc, rfl⟩, ?_⟩
  · rcases moved_cases hd with ⟨rfl, rfl⟩ | ⟨hij, hold⟩
    · rfl
    · exact absurd (hs.alone hc hlocked hold (pending_of_granted h).1) hij
  · rcases moved_cases hd with ⟨rfl, rfl⟩ | ⟨_, hold⟩
    · exact Nat.le_of_eq (Option.some.inj h).symm
    · exact Nat.le_succ_of_le (hs.bounded j d hold tokens h)
  · intro tokens hmem
    rcases List.mem_cons.mp hmem with rfl | hold
    · exact hcreds ▸ Nat.lt_succ_self _
    · exact Nat.lt_succ_of_lt (hs.exchanged tokens hold)

/-- The response gets back to a call on the registered object. -/
theorem Inv.receive {s : State} (hs : Inv s) {i : ℕ} {c : Call} (hc : s.calls[i]? = some c)
    {forced : Bool} {tokens : ℕ} (hpc : c.pc = .granted forced tokens)
    (hobject : c.object = s.current) :
    Inv { s.put i { c with pc := .persisting forced tokens } with
      holder := none, objects := Function.update s.objects c.object tokens } := by
  have hlocked : c.pc.locked = true := by rw [hpc]; rfl
  have hlatest : tokens = s.issued := by
    have h := hs.latest i c hc (by rw [hpc]; rfl)
    rw [hpc] at h
    exact Option.some.inj h
  refine ⟨fun j d hd h => ?_, forall_moved hs.latest ?_, forall_moved hs.bounded ?_, .inl ?_, ?_,
    hs.exchanged⟩
  · rcases moved_cases hd with ⟨rfl, rfl⟩ | ⟨hij, hold⟩
    · cases h
    · exact absurd (hs.alone hc hlocked hold h) hij
  · intro h
    cases h
  · intro tokens' h
    exact Nat.le_of_eq ((Option.some.inj h).symm.trans hlatest)
  · rw [State.registry, hobject]
    exact (Function.update_self ..).trans hlatest
  · exact .inr ⟨i, _, moved_self _ hc, congrArg some hlatest⟩

/-- A call is done with its grant, of tokens that are the latest only if the row has them now. -/
theorem Inv.settle {s : State} (hs : Inv s) {i : ℕ} {c : Call} (hc : s.calls[i]? = some c)
    {forced : Bool} {tokens : ℕ} (hpc : c.pc = .persisting forced tokens) (c' : Call)
    (hpending' : c'.pc.pending = none) (hlocked' : c'.pc.locked = false) (row : ℕ)
    (hrow : row = s.issued ∨ tokens ≠ s.issued ∧ s.row ≠ s.issued ∨
      tokens ≠ s.issued ∧ row = s.row) : Inv { s.put i c' with row := row } := by
  refine ⟨forall_moved hs.locked ?_, forall_moved hs.latest ?_, forall_moved hs.bounded ?_, ?_, ?_,
    hs.exchanged⟩
  · intro h
    rw [hlocked'] at h
    cases h
  · intro h
    exact absurd h (not_granted hpending')
  · rw [hpending']
    nofun
  · refine hs.registry.imp id fun h => ?_
    refine exists_moved (p := fun c : Call => c.pc.isGranted = true) hc ?_ h
    rw [hpc]
    nofun
  · -- who else is about to write the latest tokens still is
    have hother (hne : tokens ≠ s.issued)
        (h : ∃ (j : ℕ) (d : Call), s.calls[j]? = some d ∧ d.pc.pending = some s.issued) :
        ∃ (j : ℕ) (d : Call), (s.calls.set i c')[j]? = some d ∧ d.pc.pending = some s.issued := by
      refine exists_moved (p := fun c : Call => c.pc.pending = some s.issued) hc ?_ h
      rw [hpc]
      exact fun h => hne (Option.some.inj h)
    rcases hrow with hlatest | ⟨hne, hold⟩ | ⟨hne, rfl⟩
    · exact .inl hlatest
    · exact .inr (hother hne (hs.row.resolve_left hold))
    · exact hs.row.imp id (hother hne)

/-- The row is written, and what it had was no later. -/
theorem Inv.commit {s : State} (hs : Inv s) {i : ℕ} {c : Call} (hc : s.calls[i]? = some c)
    {forced : Bool} {tokens : ℕ} (hpc : c.pc = .persisting forced tokens) (c' : Call)
    (hpending' : c'.pc.pending = none) (hlocked' : c'.pc.locked = false) (hle : s.row ≤ tokens) :
    Inv { s.put i c' with row := tokens } := by
  have hissued : tokens ≤ s.issued := hs.bounded i c hc tokens (by rw [hpc]; rfl)
  refine hs.settle hc hpc c' hpending' hlocked' tokens ?_
  omega

/-- A write that fails belongs to tokens that are not the latest. -/
theorem Inv.uncommitted {s : State} (hs : Inv s) {i : ℕ} {c : Call} (hc : s.calls[i]? = some c)
    {forced : Bool} {tokens : ℕ} (hpc : c.pc = .persisting forced tokens)
    (hlt : tokens < s.issued) : Inv (s.put i { c with pc := .ended }) :=
  hs.settle hc hpc _ rfl rfl s.row (.inr (.inr ⟨Nat.ne_of_lt hlt, rfl⟩))

/-! ### The steps -/

variable {factory : Bool}

theorem inv_callStep {s t : State} {a : CallAction} {i : ℕ} {c : Call} (hs : Inv s)
    (hc : s.calls[i]? = some c) (hok : CallUndisturbed factory s c a)
    (h : callStep factory s i c a = some t) : Inv t := by
  cases a with
  | prepare =>
    simp only [callStep] at h
    split at h
    case isFalse => cases h
    case isTrue hpc =>
      obtain rfl := Option.some.inj h
      refine hs.stay hc (by rw [hpc]; rfl) _ ?_ ?_
      · dsimp only
        split <;> rfl
      · dsimp only
        split <;> nofun
  | acquire =>
    simp only [callStep] at h
    split at h
    case h_2 => cases h
    case h_1 hpc hfree =>
      obtain rfl := Option.some.inj h
      exact hs.acquire hc (by rw [hpc]; rfl) _ rfl hfree
  | recheck =>
    simp only [callStep] at h
    split at h
    case isFalse => cases h
    case isTrue hcond =>
      obtain rfl := Option.some.inj h
      exact hs.release hc (by rw [hcond.1]; rfl) (by rw [hcond.1]; rfl) _ rfl rfl
  | present =>
    simp only [callStep] at h
    split at h
    case h_2 => cases h
    case h_1 forced hpc =>
      have hpending : c.pc.pending = none := by rw [hpc]; rfl
      split at h
      · cases h
      · split at h
        case isTrue hcreds =>
          obtain rfl := Option.some.inj h
          exact hs.grant hc hpc hcreds
        case isFalse =>
          obtain rfl := Option.some.inj h
          exact hs.stay hc hpending _ rfl fun _ => by rw [hpc]; rfl
  | refuse =>
    simp only [callStep] at h
    split at h
    case h_2 => cases h
    case h_1 forced hpc =>
      split at h
      case isTrue => cases h
      case isFalse =>
        obtain rfl := Option.some.inj h
        exact hs.stay hc (by rw [hpc]; rfl) _ rfl fun _ => by rw [hpc]; rfl
  | receive =>
    simp only [callStep] at h
    split at h
    case h_3 => cases h
    case h_2 hpc =>
      obtain rfl := Option.some.inj h
      exact hs.release hc (by rw [hpc]; rfl) (by rw [hpc]; rfl) _ rfl rfl
    case h_1 forced tokens hpc =>
      obtain ⟨hfactory, hobject⟩ := hok (by rw [hpc]; rfl)
      rw [if_pos hfactory] at h
      obtain rfl := Option.some.inj h
      exact hs.receive hc hpc hobject
  | lose =>
    simp only [callStep] at h
    split at h
    case h_3 => cases h
    case h_2 hpc =>
      rw [CallUndisturbed, hpc] at hok
      cases hok
    case h_1 hpc =>
      obtain rfl := Option.some.inj h
      exact hs.release hc (by rw [hpc]; rfl) (by rw [hpc]; rfl) _ rfl rfl
  | commit =>
    simp only [callStep] at h
    split at h
    case h_3 => cases h
    case h_1 tokens hpc =>
      obtain rfl := Option.some.inj h
      exact hs.commit hc hpc _ rfl rfl (hok tokens (by rw [hpc]; rfl))
    case h_2 tokens hpc =>
      obtain rfl := Option.some.inj h
      exact hs.commit hc hpc _ rfl rfl (hok tokens (by rw [hpc]; rfl))
  | commitFails =>
    simp only [callStep] at h
    split at h
    case h_2 => cases h
    case h_1 forced tokens hpc =>
      obtain rfl := Option.some.inj h
      exact hs.uncommitted hc hpc (hok tokens (by rw [hpc]; rfl))
  | respond answer =>
    simp only [callStep] at h
    split at h
    case isFalse => cases h
    case isTrue hpc =>
      obtain rfl := Option.some.inj h
      cases answer with
      | unauthorized =>
        refine hs.stay hc (by rw [hpc]; rfl) _ ?_ ?_
        · dsimp only
          split <;> rfl
        · dsimp only
          split <;> nofun
      | _ => exact hs.stay hc (by rw [hpc]; rfl) _ rfl nofun
  | giveUp =>
    simp only [callStep] at h
    split at h
    case h_2 => cases h
    case h_1 hpc =>
      obtain rfl := Option.some.inj h
      exact hs.stay hc (by rw [hpc]; rfl) _ rfl nofun

/-- A new object is made of the row, which is up to date. -/
theorem Inv.reload {s : State} (hs : Inv s) (hnone : ∀ c ∈ s.calls, c.pc.pending = none) :
    Inv { s with
      objects := Function.update s.objects (s.current + 1) s.row, current := s.current + 1 } := by
  refine ⟨hs.locked, hs.latest, hs.bounded, .inl ?_, hs.row, hs.exchanged⟩
  rcases hs.row with hrow | ⟨i, c, hc, hpending⟩
  · exact (Function.update_self ..).trans hrow
  · rw [hnone c (List.mem_of_getElem? hc)] at hpending
    cases hpending

/-- A new call has no grant. -/
theorem Inv.perform {s : State} (hs : Inv s) :
    Inv { s with calls := s.calls ++ [⟨s.current, s.registry, false, .preparing⟩] } := by
  refine ⟨?_, ?_, ?_, hs.registry.imp id fun ⟨i, c, hc, h⟩ => ⟨i, c, joined_old _ hc, h⟩,
    hs.row.imp id fun ⟨i, c, hc, h⟩ => ⟨i, c, joined_old _ hc, h⟩, hs.exchanged⟩
  · exact forall_joined hs.locked nofun
  · exact forall_joined hs.latest nofun
  · exact forall_joined hs.bounded nofun

theorem inv_step (s : State) (a : Action) (t : State) (hs : Inv s) (hok : Undisturbed factory s a)
    (h : step factory s a = some t) : Inv t := by
  cases a with
  | perform =>
    obtain rfl := Option.some.inj h
    exact hs.perform
  | call i a =>
    obtain ⟨c, hc, hstep⟩ := Option.bind_eq_some_iff.mp h
    exact inv_callStep hs hc (hok c hc) hstep
  | expire tokens =>
    obtain rfl := Option.some.inj h
    exact ⟨hs.locked, hs.latest, hs.bounded, hs.registry, hs.row, hs.exchanged⟩
  | reload =>
    obtain rfl := Option.some.inj h
    exact hs.reload hok

/-- Once all calls have ended nobody has a grant to receive or to write. -/
theorem Inv.stored {s : State} (hs : Inv s) (hended : ∀ c ∈ s.calls, c.pc = .ended) :
    s.registry = s.issued ∧ s.row = s.issued := by
  constructor
  · rcases hs.registry with h | ⟨i, c, hc, hgranted⟩
    · exact h
    · rw [hended c (List.mem_of_getElem? hc)] at hgranted
      cases hgranted
  · rcases hs.row with h | ⟨i, c, hc, hpending⟩
    · exact h
    · rw [hended c (List.mem_of_getElem? hc)] at hpending
      cases hpending

/-- Who presents a refresh token is inside the lock and has no grant. -/
theorem holding_of_presents {s t : State} {a : CallAction} {i : ℕ} {c : Call}
    (h : callStep factory s i c a = some t) (ha : a.presents = true) :
    ∃ forced, c.pc = .holding forced := by
  cases a with
  | present =>
    simp only [callStep] at h
    split at h
    case h_1 forced hpc => exact ⟨forced, hpc⟩
    case h_2 => cases h
  | refuse =>
    simp only [callStep] at h
    split at h
    case h_1 forced hpc => exact ⟨forced, hpc⟩
    case h_2 => cases h
  | _ => cases ha

theorem oneGrant_step (s : State) (a : Action) (t : State) (hs : Inv s)
    (hok : Undisturbed factory s a) (h : step factory s a = some t) : OneGrant s a t := by
  refine ⟨?_, (inv_step s a t hs hok h).stored⟩
  rintro i action rfl hpresents c hc
  obtain ⟨c', hc', hstep⟩ := Option.bind_eq_some_iff.mp h
  obtain rfl := Option.some.inj (hc.symm.trans hc')
  obtain ⟨forced, hpc⟩ := holding_of_presents hstep hpresents
  have hregistry : c.creds = s.registry := by
    cases action with
    | present => exact hok c hc
    | refuse => exact hok c hc
    | _ => cases hpresents
  -- the caller is inside the lock, so what the registry has is the latest
  have hlatest : c.creds = s.issued :=
    hregistry.trans (hs.registry_of_locked hc (by rw [hpc]; rfl) (by rw [hpc]; rfl))
  exact ⟨hlatest, fun hmem => Nat.ne_of_lt (hs.exchanged _ hmem) hlatest⟩

/-- THE CONDITION: in every run of calls, refreshes and reloads whose steps are not disturbed, each
    stale token costs one grant, no refresh token is presented after it was exchanged, and whenever
    all calls have ended the registry and the database have the latest tokens. -/
theorem oneGrant_run (factory : Bool) (as : List Action)
    (h : Guarded (step factory) (Undisturbed factory) .start as) :
    EveryStep (step factory) OneGrant .start as :=
  everyStep_of_guarded inv_step oneGrant_step inv_start h

/-! ### Concurrent callers -/

/-- Two calls find the same expired token. The first refreshes it, and the second is cancelled while
    it waits. A third begins before the row is written, is answered 401 and refreshes what the first
    was granted, while the first goes on with its request. -/
def refreshesInTurn : List Action :=
  [.perform, .perform, .expire 0, .call 0 .prepare, .call 1 .prepare, .call 0 .acquire,
    .call 0 .present, .call 1 .giveUp, .call 0 .receive, .perform, .call 2 .prepare,
    .call 0 .commit, .call 2 (.respond .unauthorized), .call 2 .acquire, .call 2 .present,
    .call 0 (.respond .final), .call 2 .receive, .call 2 .commit, .call 2 .prepare,
    .call 2 (.respond .final)]

/-- Each expired token was one grant, and what the second brought is in the registry and in the
    row. -/
theorem refreshes_once : EveryStep (step true) OneGrant .start refreshesInTurn ∧
    ∃ s, runFrom (step true) .start refreshesInTurn = some s ∧
      (∀ c ∈ s.calls, c.pc = .ended) ∧
      (s.issued, s.exchanged, s.registry, s.row) = (2, [1, 0], 2, 2) :=
  ⟨oneGrant_run true refreshesInTurn (by decide +kernel), _, rfl, by decide +kernel, rfl⟩

/-- Two calls find the same expired token; the first refreshes it while the second waits. -/
def bothFindStale : List Action :=
  [.perform, .perform, .expire 0, .call 0 .prepare, .call 1 .prepare, .call 0 .acquire,
    .call 0 .present, .call 0 .receive, .call 1 .acquire]

/-- The second re-checks its own copy and presents the token that was exchanged. -/
theorem presents_exchanged :
    ¬ EveryStep (step true) OneGrant .start (bothFindStale ++ [.call 1 .present]) := by
  intro h
  have hone := EveryStep.at h (rfl : runFrom _ _ bothFindStale = some _) rfl
  have hpresented := hone.presented 1 .present rfl rfl _ rfl
  exact absurd hpresented (by decide +kernel)

end LunaCore.Connectors
