import LunaCore.Schemes.Machine
import LunaCore.Schemes.Parties
import LunaCore.Schemes.Stamped

/-! Which provider a model call reaches, and how often it tries.

    `complete`:  db.get ─▶ kept or built ─▶ rate limit ─▶ request ─▶ returned, or given up
                   ▲                                         │
                   └──────── back off ◀── 429, transient ────┘

    Every attempt reads the row anew, so a key that is replaced while a call backs off is used by
    its next attempt. What was built is kept by the row's `updated_at`; calls in flight may hold
    different versions of the row, and each puts back what it built. -/

namespace LunaCore.Llm.Router
open LunaCore.Schemes

inductive ProviderKind where
  | openaiCompatible | claudeCli | anthropic
  deriving DecidableEq, Repr

/-- A row of `llm_providers`; the key as it was before it was encrypted. -/
structure LLMProvider where
  kind : ProviderKind
  baseUrl : String
  chatUrl : Option String
  apiKey : Option String
  isActive : Bool
  updatedAt : ℕ
  deriving DecidableEq, Repr

/-- What a row is built into. -/
inductive Built where
  | claudeCli (binaryPath : String)
  | anthropic (apiKey : Option String) (baseUrl : String)
  | generic (apiKey : String) (baseUrl : String)
  deriving DecidableEq, Repr

/-- `a or b`, of texts. -/
def orElse (a : Option String) (b : String) : String :=
  match a with
  | some text => if text = "" then b else text
  | none => b

/-- `_normalize_chat_base_url`: the path the SDK appends itself is taken off. -/
def normalizeChatBaseUrl (url : String) : String :=
  let stripped := (url.toList.reverse.dropWhile (· = '/')).reverse
  let suffix := "/chat/completions".toList
  if suffix.isSuffixOf stripped then
    String.ofList (stripped.take (stripped.length - suffix.length))
  else url

/-- `get_decrypted_api_key`. -/
def getDecryptedApiKey (row : LLMProvider) : Option String := row.apiKey.filter (· ≠ "")

/-- `_build_provider`. -/
def buildProvider (row : LLMProvider) : Built :=
  match row.kind with
  | .claudeCli => .claudeCli row.baseUrl
  | .anthropic => .anthropic (getDecryptedApiKey row) row.baseUrl
  | .openaiCompatible => .generic (orElse (getDecryptedApiKey row) "missing")
      (normalizeChatBaseUrl (orElse row.chatUrl row.baseUrl))

/-- How a request ends. -/
inductive Outcome where
  | returned
  | aborted
  | rateLimited
  -- an error of an SDK, with the HTTP status if it has one
  | apiError (status : Option ℕ)
  | otherError
  deriving DecidableEq, Repr

/-- `_transient_status`. -/
def transientStatus : Outcome → Bool
  | .apiError status => status.all (500 ≤ ·)
  | _ => false

/-- What is tried again. -/
def retried (o : Outcome) : Bool := o = .rateLimited || transientStatus o

inductive Result where
  | returned
  | raised (o : Outcome)
  | keyError
  deriving DecidableEq, Repr

/-- The result of a request that is the last. -/
def resultOf : Outcome → Result
  | .returned => .returned
  | o => .raised o

/-- Where a call of `complete` is. -/
inductive Pc where
  | resolving
  /-- `db.get` gave this. -/
  | resolved (row : Option LLMProvider)
  /-- Waiting for the rate limit. For proofs only: the row it read. -/
  | limited (row : LLMProvider) (provider : Built)
  | requesting
  | sleeping
  | ended (result : Result)
  deriving DecidableEq, Repr

structure Call where
  providerId : ℕ
  attempt : ℕ
  pc : Pc
  /-- For proofs only: the requests sent, each with the row that was read for it, and how those
      that are over ended. -/
  requests : List (LLMProvider × Built)
  outcomes : List Outcome
  deriving DecidableEq, Repr

structure State where
  rows : ℕ → Option LLMProvider
  cache : StampedCache ℕ ℕ Built
  calls : List Call
  /-- For proofs only: every version of a row there has been. -/
  versions : ℕ → List LLMProvider

inductive Action where
  -- a row is created or edited, or deleted
  | save (id : ℕ) (row : LLMProvider)
  | delete (id : ℕ)
  | complete (id : ℕ)
  | read (i : ℕ)
  | resolve (i : ℕ)
  | clear (i : ℕ)
  | answer (i : ℕ) (o : Outcome)
  | wake (i : ℕ)
  deriving DecidableEq, Repr

def start : State := ⟨fun _ => none, fun _ => none, [], fun _ => []⟩

def State.put (s : State) (i : ℕ) (c : Call) : State := { s with calls := s.calls.set i c }

/-- What follows the end of a request. -/
def Call.settle (maxRetries : ℕ) (c : Call) (o : Outcome) : Call :=
  let c := { c with outcomes := c.outcomes ++ [o] }
  if retried o then
    { c with attempt := c.attempt + 1,
             pc := if maxRetries < c.attempt + 1 then .ended (.raised o) else .sleeping }
  else { c with pc := .ended (resultOf o) }

/-- `resolve_chat_provider`, once the row is read. -/
def resolveChatProvider (s : State) (i : ℕ) (c : Call) (row : Option LLMProvider) : State :=
  match row with
  | none => s.put i { c with pc := .ended .keyError }
  | some row =>
    if row.isActive then
      let served := s.cache.serve LLMProvider.updatedAt buildProvider c.providerId row
      { s with cache := served.2 }.put i { c with pc := .limited row served.1 }
    else s.put i { c with pc := .ended .keyError }

def step (maxRetries : ℕ) (s : State) : Action → Option State
  | .save id row => some { s with
      rows := Function.update s.rows id (some row)
      versions := Function.update s.versions id (row :: s.versions id) }
  | .delete id => some { s with rows := Function.update s.rows id none }
  | .complete id => some { s with calls := s.calls ++ [⟨id, 0, .resolving, [], []⟩] }
  | .read i => (s.calls[i]?).bind fun c =>
      if c.pc = .resolving then some (s.put i { c with pc := .resolved (s.rows c.providerId) })
      else none
  | .resolve i => (s.calls[i]?).bind fun c => match c.pc with
      | .resolved row => some (resolveChatProvider s i c row)
      | _ => none
  | .clear i => (s.calls[i]?).bind fun c => match c.pc with
      | .limited row provider => some (s.put i
          { c with pc := .requesting, requests := c.requests ++ [(row, provider)] })
      | _ => none
  | .answer i o => (s.calls[i]?).bind fun c =>
      if c.pc = .requesting then some (s.put i (c.settle maxRetries o)) else none
  | .wake i => (s.calls[i]?).bind fun c =>
      if c.pc = .sleeping then some (s.put i { c with pc := .resolving }) else none

/-- What the ends of its requests make of a call: the first that is not tried again decides, or the
    last that may be made. -/
def verdict : ℕ → List Outcome → Option Result
  | _, [] => none
  | retries, o :: rest =>
    if retried o then match retries with
      | 0 => some (.raised o)
      | retries + 1 => verdict retries rest
    else some (resultOf o)

/-- A call as it should be: every request went to what its row is built into, while the row was
    active; there were no more than may be; and it ends as its requests say, or where no active row
    was found. -/
structure Served (maxRetries : ℕ) (c : Call) : Prop where
  fresh : ∀ request ∈ c.requests, request.2 = buildProvider request.1 ∧ request.1.isActive = true
  bounded : c.requests.length ≤ maxRetries + 1
  ended : ∀ result, c.pc = .ended result →
    verdict maxRetries c.outcomes = if result = .keyError then none else some result
  working : (∀ result, c.pc ≠ .ended result) → verdict maxRetries c.outcomes = none

/-- No two versions of a row are saved at the same moment. -/
def OwnMoment (s : State) (a : Action) : Prop :=
  match a with
  | .save id row => ∀ other ∈ s.versions id, other.updatedAt ≠ row.updatedAt
  | _ => True

instance (s : State) : ∀ a, Decidable (OwnMoment s a)
  | .save id row => inferInstanceAs (Decidable (∀ other ∈ s.versions id, _ ≠ row.updatedAt))
  | .delete _ | .complete _ | .read _ | .resolve _ | .clear _ | .answer .. | .wake _ => isTrue trivial

/-! ### What the ends of requests say -/

theorem verdict_append {retries : ℕ} {outcomes : List Outcome} (h : outcomes.all retried = true)
    (hlength : outcomes.length ≤ retries) (o : Outcome) : verdict retries (outcomes ++ [o]) =
      if retried o then if retries < outcomes.length + 1 then some (.raised o) else none
      else some (resultOf o) := by
  induction outcomes generalizing retries with
  | nil =>
    cases retries with
    | zero => simp [verdict]
    | succ retries => simp [verdict]
  | cons first outcomes ih =>
    obtain ⟨hfirst, hrest⟩ : retried first = true ∧ outcomes.all retried = true := by simpa using h
    cases retries with
    | zero => simp at hlength
    | succ retries =>
      have hlength' : outcomes.length ≤ retries := Nat.le_of_succ_le_succ hlength
      rw [List.cons_append, verdict, if_pos hfirst, List.length_cons]
      simpa using ih hrest hlength'

theorem verdict_retried {retries : ℕ} {outcomes : List Outcome} (h : outcomes.all retried = true)
    (hlength : outcomes.length ≤ retries) : verdict retries outcomes = none := by
  rcases List.eq_nil_or_concat' outcomes with rfl | ⟨init, last, rfl⟩
  · simp [verdict]
  · obtain ⟨hinit, hlast⟩ : init.all retried = true ∧ retried last = true := by simpa using h
    rw [List.length_append, List.length_singleton] at hlength
    rw [verdict_append hinit (by omega), if_pos hlast, if_neg (by omega)]

/-! ### The invariant -/

/-- Every request that is over was one to try again, and there may be one more. -/
structure Trying (maxRetries : ℕ) (c : Call) (sent : ℕ) : Prop where
  retried : c.outcomes.all retried = true
  attempts : c.outcomes.length = c.attempt
  within : c.attempt ≤ maxRetries
  sent : c.requests.length = c.attempt + sent

/-- Where a call stands. -/
def Standing (maxRetries : ℕ) (versions : List LLMProvider) (c : Call) : Prop :=
  match c.pc with
  | .resolving | .sleeping => Trying maxRetries c 0
  | .resolved row => Trying maxRetries c 0 ∧ ∀ r ∈ row, r ∈ versions
  | .limited row provider =>
    Trying maxRetries c 0 ∧ provider = buildProvider row ∧ row.isActive = true
  | .requesting => Trying maxRetries c 1
  | .ended result => c.requests.length ≤ maxRetries + 1 ∧
      verdict maxRetries c.outcomes = if result = .keyError then none else some result

structure CallInv (maxRetries : ℕ) (versions : List LLMProvider) (c : Call) : Prop where
  fresh : ∀ request ∈ c.requests, request.2 = buildProvider request.1 ∧ request.1.isActive = true
  standing : Standing maxRetries versions c

/-- What is kept was built from a version of its row; versions are told apart by their moments; and
    every call stands as it should. -/
structure Inv (maxRetries : ℕ) (s : State) : Prop where
  coherent : s.cache.Coherent LLMProvider.updatedAt buildProvider s.versions
  apart : StampedApart LLMProvider.updatedAt s.versions
  current : ∀ id, ∀ row ∈ s.rows id, row ∈ s.versions id
  calls : ∀ (i : ℕ) c, s.calls[i]? = some c → CallInv maxRetries (s.versions c.providerId) c

variable {maxRetries : ℕ} {s t : State}

theorem inv_start : Inv maxRetries start where
  coherent := coherent_empty
  apart := by simp [StampedApart, start]
  current := by simp [start]
  calls := by simp [start]

theorem CallInv.mono {versions more : List LLMProvider} {c : Call}
    (h : CallInv maxRetries versions c) (hmore : versions ⊆ more) : CallInv maxRetries more c := by
  refine ⟨h.fresh, ?_⟩
  have hstanding := h.standing
  unfold Standing at hstanding ⊢
  cases hpc : c.pc with
  | resolved row =>
    simp only [hpc] at hstanding ⊢
    exact ⟨hstanding.1, fun r hr => hmore (hstanding.2 r hr)⟩
  | _ => simpa only [hpc] using hstanding

theorem CallInv.served {versions : List LLMProvider} {c : Call}
    (h : CallInv maxRetries versions c) : Served maxRetries c := by
  have hstanding := h.standing
  unfold Standing at hstanding
  have htrying : ∀ sent ≤ 1, Trying maxRetries c sent → c.requests.length ≤ maxRetries + 1 ∧
      verdict maxRetries c.outcomes = none := by
    intro sent hsent ht
    have hwithin := ht.within
    exact ⟨by rw [ht.sent]; omega, verdict_retried ht.retried (ht.attempts ▸ hwithin)⟩
  cases hpc : c.pc with
  | ended result =>
    simp only [hpc] at hstanding
    refine ⟨h.fresh, hstanding.1, fun other hother => ?_, fun hno => absurd hpc (hno result)⟩
    obtain rfl : result = other := by simpa [hpc] using hother
    exact hstanding.2
  | resolving | sleeping =>
    simp only [hpc] at hstanding
    obtain ⟨hbound, hnone⟩ := htrying 0 (Nat.zero_le 1) hstanding
    exact ⟨h.fresh, hbound, by simp [hpc], fun _ => hnone⟩
  | requesting =>
    simp only [hpc] at hstanding
    obtain ⟨hbound, hnone⟩ := htrying 1 (Nat.le_refl 1) hstanding
    exact ⟨h.fresh, hbound, by simp [hpc], fun _ => hnone⟩
  | resolved row | limited row provider =>
    simp only [hpc] at hstanding
    obtain ⟨hbound, hnone⟩ := htrying 0 (Nat.zero_le 1) hstanding.1
    exact ⟨h.fresh, hbound, by simp [hpc], fun _ => hnone⟩

/-- One call moved, and nothing else but perhaps what is kept. -/
theorem Inv.put (hs : Inv maxRetries s) {i : ℕ} {c : Call} {cache : StampedCache ℕ ℕ Built}
    (hcache : cache.Coherent LLMProvider.updatedAt buildProvider s.versions)
    (hc : CallInv maxRetries (s.versions c.providerId) c) :
    Inv maxRetries (State.put { s with cache := cache } i c) where
  coherent := hcache
  apart := hs.apart
  current := hs.current
  calls := forall_moved (p := fun _ (c : Call) => CallInv maxRetries (s.versions c.providerId) c) hs.calls hc

/-! ### One step -/

/-- The end of a request, and what the call makes of it. -/
theorem standing_settle {versions : List LLMProvider} {c : Call} {o : Outcome}
    (ht : Trying maxRetries c 1) : Standing maxRetries versions (c.settle maxRetries o) := by
  have hwithin := ht.within
  have hverdict := verdict_append ht.retried (ht.attempts ▸ hwithin) o
  rw [ht.attempts] at hverdict
  rw [Call.settle]
  by_cases hretried : retried o = true
  · rw [if_pos hretried] at hverdict
    simp only [if_pos hretried]
    by_cases hlast : maxRetries < c.attempt + 1
    · rw [if_pos hlast] at hverdict
      simp only [if_pos hlast, Standing]
      exact ⟨by rw [ht.sent]; omega, by simpa using hverdict⟩
    · simp only [if_neg hlast, Standing]
      exact ⟨by simp [ht.retried, hretried], by simp [ht.attempts], Nat.le_of_not_lt hlast,
        by simpa using ht.sent⟩
  · rw [if_neg hretried] at hverdict
    simp only [if_neg hretried, Standing]
    refine ⟨by rw [ht.sent]; omega, ?_⟩
    cases o <;> simpa [resultOf] using hverdict

theorem inv_resolve (hs : Inv maxRetries s) {i : ℕ} {c : Call} {row : Option LLMProvider}
    (hc : s.calls[i]? = some c) (hpc : c.pc = .resolved row) :
    Inv maxRetries (resolveChatProvider s i c row) := by
  have hcall := hs.calls i c hc
  have hstanding := hcall.standing
  simp only [Standing, hpc] at hstanding
  obtain ⟨ht, hknown⟩ := hstanding
  have hended : CallInv maxRetries (s.versions c.providerId) { c with pc := .ended .keyError } := by
    have hwithin := ht.within
    refine ⟨hcall.fresh, ?_⟩
    exact ⟨by rw [ht.sent]; omega, verdict_retried ht.retried (ht.attempts ▸ hwithin)⟩
  unfold resolveChatProvider
  cases row with
  | none => exact hs.put hs.coherent hended
  | some row =>
    dsimp only
    split
    case isTrue hactive =>
      have hrow := hknown row rfl
      refine hs.put (coherent_serve hs.coherent hrow) ⟨hcall.fresh, ?_⟩
      exact ⟨⟨ht.retried, ht.attempts, ht.within, ht.sent⟩,
        serve_built hs.coherent hs.apart hrow, hactive⟩
    case isFalse => exact hs.put hs.coherent hended

theorem inv_save (hs : Inv maxRetries s) {id : ℕ} {row : LLMProvider}
    (hmoment : ∀ other ∈ s.versions id, other.updatedAt ≠ row.updatedAt) :
    Inv maxRetries { s with
      rows := Function.update s.rows id (some row)
      versions := Function.update s.versions id (row :: s.versions id) } := by
  have hmore : ∀ key, s.versions key ⊆
      Function.update s.versions id (row :: s.versions id) key := by
    intro key
    by_cases hkey : key = id
    · subst hkey
      rw [Function.update_self]
      exact List.subset_cons_self row _
    · rw [Function.update_of_ne hkey]
      exact List.Subset.refl _
  refine ⟨hs.coherent.mono hmore, fun key => ?_, fun key other hother => ?_, fun i c hc =>
    (hs.calls i c hc).mono (hmore c.providerId)⟩
  · dsimp only
    by_cases hkey : key = id
    · subst hkey
      rw [Function.update_self]
      intro a ha b hb hab
      rcases List.mem_cons.mp ha with hnew | hold
      · rcases List.mem_cons.mp hb with hnew' | hold'
        · rw [hnew, hnew']
        · exact absurd (hnew ▸ hab.symm) (hmoment b hold')
      · rcases List.mem_cons.mp hb with hnew' | hold'
        · exact absurd (hnew' ▸ hab) (hmoment a hold)
        · exact hs.apart key a hold b hold' hab
    · rw [Function.update_of_ne hkey]
      exact hs.apart key
  · by_cases hkey : key = id
    · subst hkey
      dsimp only at hother ⊢
      rw [Function.update_self] at hother ⊢
      obtain rfl := Option.some.inj hother
      exact List.mem_cons_self
    · refine hmore key (hs.current key other ?_)
      dsimp only at hother
      rwa [Function.update_of_ne hkey] at hother

/-- A step keeps the invariant. -/
theorem inv_step (s : State) (a : Action) (t : State) (hs : Inv maxRetries s) (hok : OwnMoment s a)
    (h : step maxRetries s a = some t) : Inv maxRetries t := by
  cases a with
  | save id row =>
    obtain rfl := Option.some.inj h
    exact inv_save hs hok
  | delete id =>
    obtain rfl := Option.some.inj h
    refine ⟨hs.coherent, hs.apart, fun key row hrow => hs.current key row ?_, hs.calls⟩
    by_cases hkey : key = id
    · subst hkey
      simp at hrow
    · simpa [Function.update_of_ne hkey] using hrow
  | complete id =>
    obtain rfl := Option.some.inj h
    refine ⟨hs.coherent, hs.apart, hs.current, ?_⟩
    refine forall_joined (p := fun _ (c : Call) => CallInv maxRetries (s.versions c.providerId) c)
      hs.calls ⟨by simp, ?_⟩
    exact ⟨rfl, rfl, Nat.zero_le _, rfl⟩
  | read i =>
    obtain ⟨c, hc, hif⟩ := Option.bind_eq_some_iff.mp h
    obtain ⟨hpc, rfl⟩ := by simpa using hif
    have hcall := hs.calls i c hc
    have hstanding := hcall.standing
    simp only [Standing, hpc] at hstanding
    refine hs.put hs.coherent ⟨hcall.fresh, ?_⟩
    exact ⟨⟨hstanding.retried, hstanding.attempts, hstanding.within, hstanding.sent⟩,
      fun row hrow => hs.current c.providerId row hrow⟩
  | resolve i =>
    obtain ⟨c, hc, hmatch⟩ := Option.bind_eq_some_iff.mp h
    cases hpc : c.pc with
    | resolved row =>
      simp only [hpc] at hmatch
      obtain rfl := Option.some.inj hmatch
      exact inv_resolve hs hc hpc
    | _ => simp [hpc] at hmatch
  | clear i =>
    obtain ⟨c, hc, hmatch⟩ := Option.bind_eq_some_iff.mp h
    cases hpc : c.pc with
    | limited row provider =>
      simp only [hpc] at hmatch
      obtain rfl := Option.some.inj hmatch
      have hcall := hs.calls i c hc
      have hstanding := hcall.standing
      simp only [Standing, hpc] at hstanding
      obtain ⟨ht, hbuilt⟩ := hstanding
      refine hs.put hs.coherent ⟨fun request hrequest => ?_, ?_⟩
      · rcases List.mem_append.mp hrequest with hold | hnew
        · exact hcall.fresh request hold
        · rw [List.mem_singleton.mp hnew]
          exact hbuilt
      · exact ⟨ht.retried, ht.attempts, ht.within, by simp [ht.sent]⟩
    | _ => simp [hpc] at hmatch
  | answer i o =>
    obtain ⟨c, hc, hif⟩ := Option.bind_eq_some_iff.mp h
    obtain ⟨hpc, rfl⟩ := by simpa using hif
    have hcall := hs.calls i c hc
    have hstanding := hcall.standing
    simp only [Standing, hpc] at hstanding
    have hsame : (c.settle maxRetries o).providerId = c.providerId ∧
        (c.settle maxRetries o).requests = c.requests := by
      rw [Call.settle]
      split <;> exact ⟨rfl, rfl⟩
    refine hs.put hs.coherent ⟨?_, standing_settle hstanding⟩
    rw [hsame.2]
    exact hcall.fresh
  | wake i =>
    obtain ⟨c, hc, hif⟩ := Option.bind_eq_some_iff.mp h
    obtain ⟨hpc, rfl⟩ := by simpa using hif
    have hcall := hs.calls i c hc
    have hstanding := hcall.standing
    simp only [Standing, hpc] at hstanding
    refine hs.put hs.coherent ⟨hcall.fresh, ?_⟩
    exact ⟨hstanding.retried, hstanding.attempts, hstanding.within, hstanding.sent⟩

/-- SAFETY: whatever calls are in flight while providers are edited, deactivated and deleted, every
    request goes to what the row read for that very attempt is built into, and the row was active;
    a call makes no more than `max_retries` further requests; and it ends as the first request that
    is not to be tried again, or the last it may make. -/
theorem served_run {as : List Action} (hok : Guarded (step maxRetries) OwnMoment start as)
    (h : runFrom (step maxRetries) start as = some t) : ∀ c ∈ t.calls, Served maxRetries c := by
  intro c hc
  obtain ⟨i, hi, rfl⟩ := List.mem_iff_getElem.mp hc
  have hinv := inv_guarded inv_step inv_start hok h
  exact (hinv.calls i _ (List.getElem?_eq_getElem hi)).served

/-- The key is replaced while a call backs off; another call, that had read the row before, puts back
    what it built from the old one. -/
def keyReplaced : List Action :=
  [.save 3 ⟨.anthropic, "url", none, some "old", true, 1⟩, .complete 3, .complete 3, .read 1,
    .read 0, .resolve 0, .clear 0, .answer 0 .rateLimited,
    .save 3 ⟨.anthropic, "url", none, some "new", true, 2⟩, .wake 0, .read 0, .resolve 0,
    .resolve 1, .clear 1, .clear 0, .answer 0 .returned, .answer 1 (.apiError (some 400))]

theorem served_run_keyReplaced : ∃ t, runFrom (step 1) start keyReplaced = some t ∧
    t.calls.map (fun c => (c.requests.map Prod.snd, c.pc)) =
      [([.anthropic (some "old") "url", .anthropic (some "new") "url"], .ended .returned),
        ([.anthropic (some "old") "url"], .ended (.raised (.apiError (some 400))))] ∧
    ∀ c ∈ t.calls, Served 1 c :=
  ⟨_, rfl, by decide +kernel, @served_run _ _ keyReplaced (by decide +kernel) rfl⟩

end LunaCore.Llm.Router
