import Mathlib.Logic.Function.Basic
import Mathlib.Order.Nat
import LunaCore.Schemes.Machine
import LunaCore.Schemes.Parties

/-! The registry of `WebSocketManager`: which clients and which pump a key has.

    `connect` registers the client, and a pump where the key has none, without letting go of the
    lock; so does `_remove`, which takes the pump out with the last client and cancels it. Neither
    suspends while it holds the lock, so each is one step. In between, the call waits:

        register ─ await subscribed ─ await snapshot ─ try: loops ─ finally: _remove
                        │                   │
                        └─────────┬─────────┘
                              cancelled: the call is over, and nothing takes the client out

    The pump is a task of its own: it subscribes, sets `subscribed`, listens. Nothing takes a pump
    out that fails. So the registry is in order just as long as neither of the two happens. -/

namespace LunaCore.Stream.Manager
open LunaCore.Schemes

/-- Where a pump's task stands; one that was cancelled fans nothing out any more. -/
inductive PumpStatus where
  | subscribing
  | listening
  | failed
  | cancelled
  deriving DecidableEq

/-- `_PumpState` and its task. -/
structure Pump (κ : Type*) where
  key : κ
  status : PumpStatus
  subscribed : Bool
  deriving DecidableEq

/-- Where a call of `connect` stands. -/
inductive CallPc where
  | waiting
  | snapshotting
  | looping
  | ended
  deriving DecidableEq

/-- A call of `connect` that has registered its client, and the pump it got. -/
structure Call (κ : Type*) where
  key : κ
  pump : ℕ
  pc : CallPc
  deriving DecidableEq

/-- Calls and pumps are known by the order they came in; a client is known by its call. `clients` and
    `registered` are the dicts `_clients` and `_pumps`. -/
structure WebSocketManager (κ : Type*) where
  calls : List (Call κ)
  pumps : List (Pump κ)
  clients : κ → Option (List ℕ)
  registered : κ → Option ℕ

variable {κ : Type*}

def WebSocketManager.start : WebSocketManager κ := ⟨[], [], fun _ => none, fun _ => none⟩

def Pump.running (p : Pump κ) : Bool := p.status = .subscribing || p.status = .listening

/-- `task.cancel()`: a task that is done stays as it is. -/
def Pump.cancel (p : Pump κ) : Pump κ := if p.running then { p with status := .cancelled } else p

inductive Action (κ : Type*) where
  | connect (key : κ)
  | acknowledged (i : ℕ)
  | snapshotTaken (i : ℕ)
  | cancelConnect (i : ℕ)
  | leave (i : ℕ)
  | subscribes (p : ℕ)
  | fails (p : ℕ)
  deriving DecidableEq

section Steps
variable [DecidableEq κ]

/-- `connect` up to its first wait. -/
def connect (m : WebSocketManager κ) (key : κ) : WebSocketManager κ :=
  let clients := Function.update m.clients key
    (some ((m.clients key).getD [] ++ [m.calls.length]))
  match m.registered key with
  | some p => { m with calls := m.calls ++ [⟨key, p, .waiting⟩], clients := clients }
  | none =>
    { calls := m.calls ++ [⟨key, m.pumps.length, .waiting⟩]
      pumps := m.pumps ++ [⟨key, .subscribing, false⟩]
      clients := clients
      registered := Function.update m.registered key (some m.pumps.length) }

/-- `_remove`, whose cancelled pump ends by itself. -/
def remove (m : WebSocketManager κ) (key : κ) (i : ℕ) : WebSocketManager κ :=
  match m.clients key with
  | none => m
  | some clients =>
    if clients.erase i ≠ [] then
      { m with clients := Function.update m.clients key (some (clients.erase i)) }
    else
      { m with
        clients := Function.update m.clients key none
        registered := Function.update m.registered key none
        pumps := match m.registered key with
          | some p => m.pumps.modify p Pump.cancel
          | none => m.pumps }

def WebSocketManager.goto (m : WebSocketManager κ) (i : ℕ) (c : Call κ) (pc : CallPc) : WebSocketManager κ :=
  { m with calls := m.calls.set i { c with pc := pc } }

/-- A call goes on from one of its waits. -/
def callStep (m : WebSocketManager κ) (i : ℕ) (c : Call κ) : Action κ → Option (WebSocketManager κ)
  | .acknowledged _ =>
    if c.pc = .waiting ∧ (m.pumps[c.pump]?).any Pump.subscribed then
      some (m.goto i c .snapshotting)
    else none
  -- a snapshot that raises is an empty one
  | .snapshotTaken _ => if c.pc = .snapshotting then some (m.goto i c .looping) else none
  -- neither wait is inside the `try`
  | .cancelConnect _ =>
    if c.pc = .waiting ∨ c.pc = .snapshotting then some (m.goto i c .ended) else none
  -- the client hangs up, a send fails, or the call is cancelled: all go through `finally`
  | .leave _ => if c.pc = .looping then some (remove (m.goto i c .ended) c.key i) else none
  | _ => none

def step (m : WebSocketManager κ) (a : Action κ) : Option (WebSocketManager κ) :=
  match a with
  | .connect key => some (connect m key)
  | .acknowledged i | .snapshotTaken i | .cancelConnect i | .leave i =>
    (m.calls[i]?).bind fun c => callStep m i c a
  | .subscribes p => (m.pumps[p]?).bind fun pump =>
      if pump.status = .subscribing then
        some { m with
          pumps := m.pumps.set p { pump with status := .listening, subscribed := true } }
      else none
  | .fails p => (m.pumps[p]?).bind fun pump =>
      if pump.running then some { m with pumps := m.pumps.set p { pump with status := .failed } }
      else none

end Steps

/-! ### What is asked of the registry -/

/-- The key's registered clients. -/
def WebSocketManager.clientsOf (m : WebSocketManager κ) (key : κ) : List ℕ := (m.clients key).getD []

/-- A key has a pump just when it has a client, no key has two pumps that run, a registered pump is
    alive, a call that has ended is not registered, and the pump of one that has not is alive. -/
structure InOrder (m : WebSocketManager κ) : Prop where
  paired : ∀ key, (m.registered key).isSome ↔ m.clientsOf key ≠ []
  single : ∀ (p q : ℕ) (pump pump' : Pump κ), m.pumps[p]? = some pump → m.pumps[q]? = some pump' →
    pump.running = true → pump'.running = true → pump.key = pump'.key → p = q
  alive : ∀ key p, m.registered key = some p → ∃ pump, m.pumps[p]? = some pump ∧ pump.key = key ∧
    pump.running = true
  gone : ∀ (i : ℕ) (c : Call κ), m.calls[i]? = some c → c.pc = .ended → i ∉ m.clientsOf c.key
  attached : ∀ (i : ℕ) (c : Call κ), m.calls[i]? = some c → c.pc ≠ .ended → m.registered c.key = some c.pump

/-- No registered pump fails, and no call is cancelled in one of its two waits. -/
def Uncut (_ : WebSocketManager κ) : Action κ → Prop
  | .cancelConnect _ | .fails _ => False
  | _ => True

instance (m : WebSocketManager κ) : DecidablePred (Uncut m) := fun a =>
  match a with
  | .cancelConnect _ | .fails _ => isFalse id
  | .connect _ | .acknowledged _ | .snapshotTaken _ | .leave _ | .subscribes _ => isTrue trivial

/-! ### What the critical sections keep, whatever fails -/

/-- A key has a pump just when it has a client, a pump that runs is its key's, and a call that is
    not over has its client and its pump in the registry. -/
structure Kept (m : WebSocketManager κ) : Prop where
  nonempty : ∀ key clients, m.clients key = some clients → clients ≠ []
  paired : ∀ key, (m.registered key).isSome = (m.clients key).isSome
  nodup : ∀ key, (m.clientsOf key).Nodup
  known : ∀ key, ∀ i ∈ m.clientsOf key, ∃ c, m.calls[i]? = some c ∧ c.key = key
  keyed : ∀ key p, m.registered key = some p → ∃ pump, m.pumps[p]? = some pump ∧ pump.key = key
  owned : ∀ p pump, m.pumps[p]? = some pump → pump.running = true → m.registered pump.key = some p
  held : ∀ i c, m.calls[i]? = some c → c.pc ≠ .ended →
    i ∈ m.clientsOf c.key ∧ m.registered c.key = some c.pump

theorem kept_start : Kept (WebSocketManager.start : WebSocketManager κ) := by
  refine ⟨nofun, fun _ => rfl, fun _ => List.nodup_nil, ?_, nofun, ?_, ?_⟩
  · intro key i hi
    exact absurd hi List.not_mem_nil
  · intro p pump hp
    simp [WebSocketManager.start] at hp
  · intro i c hc
    simp [WebSocketManager.start] at hc

theorem clientsOf_some {m : WebSocketManager κ} {key : κ} {clients : List ℕ}
    (h : m.clients key = some clients) : m.clientsOf key = clients := by
  rw [WebSocketManager.clientsOf, h]
  rfl

/-- No client is known before its call came. -/
theorem Kept.fresh {m : WebSocketManager κ} (hm : Kept m) (key : κ) :
    m.calls.length ∉ m.clientsOf key := by
  intro hmem
  obtain ⟨c, hc, -⟩ := hm.known key _ hmem
  rw [List.getElem?_eq_none le_rfl] at hc
  cases hc

/-- A call that moves on and was not over: the registry does not change. -/
theorem Kept.goto {m : WebSocketManager κ} (hm : Kept m) {i : ℕ} {c : Call κ}
    (hc : m.calls[i]? = some c) (hpc : c.pc ≠ .ended) (pc : CallPc) : Kept (m.goto i c pc) := by
  refine ⟨hm.nonempty, hm.paired, hm.nodup, ?_, hm.keyed, hm.owned,
    forall_moved hm.held fun _ => hm.held i c hc hpc⟩
  intro key j hj
  exact still_moved (p := fun d : Call κ => d.key = key) hc id (hm.known key j hj)

/-- A pump that moves on and ran before: the registry does not change. -/
theorem Kept.setPump {m : WebSocketManager κ} (hm : Kept m) {p : ℕ} {pump pump' : Pump κ}
    (hp : m.pumps[p]? = some pump) (hrun : pump.running = true) (hkey : pump'.key = pump.key) :
    Kept { m with pumps := m.pumps.set p pump' } := by
  refine ⟨hm.nonempty, hm.paired, hm.nodup, hm.known, ?_, forall_moved hm.owned ?_, hm.held⟩
  · intro key q hq
    exact still_moved (p := fun d : Pump κ => d.key = key) hp hkey.trans (hm.keyed key q hq)
  · intro _
    rw [hkey]
    exact hm.owned p pump hp hrun

/-! ### What holds while nothing is cut off -/

/-- The registered pumps run and the calls that are over are out. -/
structure Sound (m : WebSocketManager κ) : Prop extends Kept m where
  alive : ∀ key p pump, m.registered key = some p → m.pumps[p]? = some pump → pump.running = true
  gone : ∀ i c, m.calls[i]? = some c → c.pc = .ended → i ∉ m.clientsOf c.key

theorem sound_start : Sound (WebSocketManager.start : WebSocketManager κ) :=
  ⟨kept_start, nofun, fun i c hc => by simp [WebSocketManager.start] at hc⟩

/-- A registry that is kept is in order just when its pumps run and who is over is out. -/
theorem Kept.inOrder_sound {m : WebSocketManager κ} (hm : Kept m) : InOrder m ↔ Sound m := by
  have hpaired (key : κ) : (m.registered key).isSome ↔ m.clientsOf key ≠ [] := by
    rw [hm.paired key, WebSocketManager.clientsOf]
    cases hclients : m.clients key with
    | none => simp
    | some clients => simpa using hm.nonempty key clients hclients
  constructor
  · intro h
    refine ⟨hm, fun key p pump hreg hp => ?_, h.gone⟩
    obtain ⟨pump', hp', _, hrun⟩ := h.alive key p hreg
    obtain rfl := Option.some.inj (hp.symm.trans hp')
    exact hrun
  · intro h
    refine ⟨hpaired, ?_, ?_, h.gone, fun i c hc hpc => (hm.held i c hc hpc).2⟩
    · intro p q pump pump' hp hq hrun hrun' hkey
      have hown := hm.owned p pump hp hrun
      rw [hkey, hm.owned q pump' hq hrun'] at hown
      exact (Option.some.inj hown).symm
    · intro key p hreg
      obtain ⟨pump, hp, hkey⟩ := hm.keyed key p hreg
      exact ⟨pump, hp, hkey, h.alive key p pump hreg hp⟩

theorem sound_goto {m : WebSocketManager κ} (hm : Sound m) {i : ℕ} {c : Call κ}
    (hc : m.calls[i]? = some c) (hpc : c.pc ≠ .ended) {pc : CallPc} (hne : pc ≠ .ended) :
    Sound (m.goto i c pc) := by
  exact ⟨hm.goto hc hpc pc, hm.alive, forall_moved hm.gone fun hended => absurd hended hne⟩

/-! ### Cancelling a pump -/

theorem running_cancel (p : Pump κ) : p.cancel.running = false := by
  rw [Pump.cancel]
  cases hrun : p.running with
  | true => rfl
  | false => simpa using hrun

/-- `_pumps.pop(key)` and what becomes of the pump. -/
def WebSocketManager.cancelled (m : WebSocketManager κ) (key : κ) : List (Pump κ) :=
  match m.registered key with
  | some p => m.pumps.modify p Pump.cancel
  | none => m.pumps

/-- A pump after the last client went: the key's own is cancelled, another is as it was. -/
theorem cancelled_cases {m : WebSocketManager κ} {key : κ} {p : ℕ} {pump : Pump κ}
    (hp : (m.cancelled key)[p]? = some pump) :
    (∃ old, m.registered key = some p ∧ m.pumps[p]? = some old ∧ pump = old.cancel) ∨
      (m.registered key ≠ some p ∧ m.pumps[p]? = some pump) := by
  rw [WebSocketManager.cancelled] at hp
  cases hreg : m.registered key with
  | none =>
    rw [hreg] at hp
    exact .inr ⟨nofun, hp⟩
  | some q =>
    simp only [hreg, List.getElem?_modify] at hp
    obtain ⟨old, hold, rfl⟩ := Option.map_eq_some_iff.mp hp
    by_cases hqp : q = p
    · subst hqp
      exact .inl ⟨old, rfl, hold, by simp⟩
    · refine .inr ⟨fun h => hqp (Option.some.inj h), ?_⟩
      simpa [hqp] using hold

/-- Another pump is as it was. -/
theorem cancelled_other {m : WebSocketManager κ} {key : κ} {p : ℕ}
    (hother : m.registered key ≠ some p) : (m.cancelled key)[p]? = m.pumps[p]? := by
  rw [WebSocketManager.cancelled]
  cases hreg : m.registered key with
  | none => rfl
  | some q =>
    have hqp : q ≠ p := fun h => hother (h ▸ hreg)
    simp [hqp]

/-! ### `connect` -/

/-- The pump a call on this key gets. -/
def WebSocketManager.pumpFor (m : WebSocketManager κ) (key : κ) : ℕ :=
  (m.registered key).getD m.pumps.length

theorem pumpFor_some {m : WebSocketManager κ} {key : κ} {p : ℕ} (h : m.registered key = some p) :
    m.pumpFor key = p := by
  rw [WebSocketManager.pumpFor, h]
  rfl

variable [DecidableEq κ]

theorem connect_clients (m : WebSocketManager κ) (key : κ) :
    (connect m key).clients =
      Function.update m.clients key (some (m.clientsOf key ++ [m.calls.length])) := by
  rw [connect]
  split <;> rfl

theorem clientsOf_connect (m : WebSocketManager κ) (key key' : κ) :
    (connect m key).clientsOf key' =
      if key' = key then m.clientsOf key ++ [m.calls.length] else m.clientsOf key' := by
  rw [WebSocketManager.clientsOf, connect_clients]
  by_cases hk : key' = key
  · subst hk
    simp
  · rw [Function.update_of_ne hk, if_neg hk]
    rfl

theorem connect_calls (m : WebSocketManager κ) (key : κ) :
    (connect m key).calls = m.calls ++ [⟨key, m.pumpFor key, .waiting⟩] := by
  rw [connect, WebSocketManager.pumpFor]
  cases m.registered key <;> rfl

theorem connect_registered (m : WebSocketManager κ) (key : κ) :
    (connect m key).registered = Function.update m.registered key (some (m.pumpFor key)) := by
  rw [connect, WebSocketManager.pumpFor]
  cases h : m.registered key with
  | none => rfl
  | some p =>
    have hsame : Function.update m.registered key (some p) = m.registered :=
      Function.update_eq_self_iff.mpr h.symm
    exact hsame.symm

/-- A new pump is there exactly where the key had none. -/
theorem connect_pumps (m : WebSocketManager κ) (key : κ) :
    (connect m key).pumps =
      if (m.registered key).isSome then m.pumps else m.pumps ++ [⟨key, .subscribing, false⟩] := by
  rw [connect]
  cases m.registered key <;> rfl

theorem registered_connect (m : WebSocketManager κ) (key k : κ) : (connect m key).registered k =
    if k = key then some (m.pumpFor key) else m.registered k := by
  rw [connect_registered, Function.update_apply]

theorem connect_getCall {m : WebSocketManager κ} (key : κ) {i : ℕ} {c : Call κ}
    (hc : m.calls[i]? = some c) : (connect m key).calls[i]? = some c := by
  rw [connect_calls]
  exact joined_old _ hc

theorem connect_getPump {m : WebSocketManager κ} (key : κ) {p : ℕ} {pump : Pump κ}
    (hp : m.pumps[p]? = some pump) : (connect m key).pumps[p]? = some pump := by
  rw [connect_pumps]
  split
  · exact hp
  · exact joined_old _ hp

/-- The pump a call gets is there and is its key's. -/
theorem connect_keyed {m : WebSocketManager κ} (hm : Kept m) (key : κ) :
    ∃ pump, (connect m key).pumps[m.pumpFor key]? = some pump ∧ pump.key = key := by
  cases hreg : m.registered key with
  | some p =>
    obtain ⟨pump, hpump, hkey⟩ := hm.keyed key p hreg
    rw [pumpFor_some hreg]
    exact ⟨pump, connect_getPump key hpump, hkey⟩
  | none =>
    rw [WebSocketManager.pumpFor, connect_pumps, hreg]
    exact ⟨_, List.getElem?_concat_length, rfl⟩

/-- A pump that ran before keeps its place in the registry, and a new one gets its own. -/
theorem connect_owned {m : WebSocketManager κ} (hm : Kept m) (key : κ) (p : ℕ) (pump : Pump κ)
    (hp : (connect m key).pumps[p]? = some pump) (hrun : pump.running = true) :
    (connect m key).registered pump.key = some p := by
  have hold (hp : m.pumps[p]? = some pump) : (connect m key).registered pump.key = some p := by
    have howned := hm.owned p pump hp hrun
    rw [registered_connect]
    split
    case isTrue hk => rw [pumpFor_some (hk ▸ howned)]
    case isFalse => exact howned
  rw [connect_pumps] at hp
  cases hreg : m.registered key with
  | some q =>
    rw [hreg] at hp
    exact hold hp
  | none =>
    rw [hreg] at hp
    rcases joined_cases hp with hp | ⟨rfl, rfl⟩
    · exact hold hp
    · rw [registered_connect, if_pos rfl, WebSocketManager.pumpFor, hreg]
      rfl

/-- A call that was not over keeps its client and its pump, and the new one has both. -/
theorem connect_held {m : WebSocketManager κ} (hm : Kept m) (key : κ) (i : ℕ) (c : Call κ)
    (hc : (connect m key).calls[i]? = some c) (hended : c.pc ≠ .ended) :
    i ∈ (connect m key).clientsOf c.key ∧ (connect m key).registered c.key = some c.pump := by
  rw [clientsOf_connect, registered_connect]
  rw [connect_calls] at hc
  rcases joined_cases hc with hold | ⟨rfl, rfl⟩
  · obtain ⟨hmem, hreg⟩ := hm.held i c hold hended
    by_cases hk : c.key = key
    · rw [if_pos hk, if_pos hk, pumpFor_some (hk ▸ hreg)]
      exact ⟨List.mem_append_left _ (hk ▸ hmem), rfl⟩
    · rw [if_neg hk, if_neg hk]
      exact ⟨hmem, hreg⟩
  · rw [if_pos rfl, if_pos rfl]
    exact ⟨List.mem_append_right _ (List.mem_singleton.mpr rfl), rfl⟩

theorem kept_connect {m : WebSocketManager κ} (hm : Kept m) (key : κ) : Kept (connect m key) := by
  refine ⟨?_, ?_, ?_, ?_, ?_, connect_owned hm key, connect_held hm key⟩
  · intro k clients h
    rw [connect_clients, Function.update_apply] at h
    split at h
    · rw [← Option.some.inj h]
      simp
    · exact hm.nonempty k clients h
  · intro k
    rw [registered_connect, connect_clients, Function.update_apply]
    split
    · rfl
    · exact hm.paired k
  · intro k
    rw [clientsOf_connect]
    split
    · refine List.nodup_append.mpr ⟨hm.nodup key, by simp, ?_⟩
      intro i hi j hj
      rw [List.mem_singleton.mp hj]
      exact fun heq => hm.fresh key (heq ▸ hi)
    · exact hm.nodup k
  · intro k i hi
    rw [clientsOf_connect] at hi
    split at hi
    case isTrue hk =>
      rcases List.mem_append.mp hi with hold | hnew
      · obtain ⟨c, hc, hkey⟩ := hm.known key i hold
        exact ⟨c, connect_getCall key hc, hkey.trans hk.symm⟩
      · rw [List.mem_singleton.mp hnew, connect_calls]
        exact ⟨_, List.getElem?_concat_length, hk.symm⟩
    case isFalse =>
      obtain ⟨c, hc, hkey⟩ := hm.known k i hi
      exact ⟨c, connect_getCall key hc, hkey⟩
  · intro k p hp
    rw [registered_connect] at hp
    split at hp
    case isTrue hk =>
      obtain rfl := Option.some.inj hp
      obtain ⟨pump, hpump, hkey⟩ := connect_keyed hm key
      exact ⟨pump, hpump, hkey.trans hk.symm⟩
    case isFalse =>
      obtain ⟨pump, hpump, hkey⟩ := hm.keyed k p hp
      exact ⟨pump, connect_getPump key hpump, hkey⟩

/-! ### `_remove` -/

/-- Other clients of the key stay: only the client goes. -/
theorem remove_more {m : WebSocketManager κ} {key : κ} {i : ℕ} (hi : i ∈ m.clientsOf key)
    (hmore : (m.clientsOf key).erase i ≠ []) : remove m key i = { m with
      clients := Function.update m.clients key (some ((m.clientsOf key).erase i)) } := by
  cases hclients : m.clients key with
  | none =>
    rw [WebSocketManager.clientsOf, hclients] at hi
    exact absurd hi List.not_mem_nil
  | some clients =>
    rw [clientsOf_some hclients] at hmore ⊢
    simp only [remove, hclients, ne_eq, hmore, not_false_eq_true, if_true]

/-- The last client of the key goes, and the pump with it. -/
theorem remove_last {m : WebSocketManager κ} {key : κ} {i : ℕ} (hi : i ∈ m.clientsOf key)
    (hlast : (m.clientsOf key).erase i = []) : remove m key i = { m with
      clients := Function.update m.clients key none
      registered := Function.update m.registered key none
      pumps := m.cancelled key } := by
  cases hclients : m.clients key with
  | none =>
    rw [WebSocketManager.clientsOf, hclients] at hi
    exact absurd hi List.not_mem_nil
  | some clients =>
    rw [clientsOf_some hclients] at hlast
    simp only [remove, hclients, hlast, ne_eq, not_true_eq_false, if_false]
    rfl

theorem clientsOf_remove {m : WebSocketManager κ} {key : κ} {i : ℕ} (hi : i ∈ m.clientsOf key)
    (key' : κ) : (remove m key i).clientsOf key' =
      if key' = key then (m.clientsOf key).erase i else m.clientsOf key' := by
  by_cases hlast : (m.clientsOf key).erase i = []
  · rw [remove_last hi hlast, hlast]
    by_cases hk : key' = key
    · simp [WebSocketManager.clientsOf, hk]
    · simp [WebSocketManager.clientsOf, hk]
  · rw [remove_more hi hlast]
    by_cases hk : key' = key
    · simp [WebSocketManager.clientsOf, hk]
    · simp [WebSocketManager.clientsOf, hk]

theorem remove_calls (m : WebSocketManager κ) (key : κ) (i : ℕ) :
    (remove m key i).calls = m.calls := by
  rw [remove]
  split
  · rfl
  · split <;> rfl

section Remove
variable {m : WebSocketManager κ} {key : κ} {i : ℕ}

theorem remove_nodup (hm : Kept m) (hi : i ∈ m.clientsOf key) (k : κ) :
    ((remove m key i).clientsOf k).Nodup := by
  rw [clientsOf_remove hi]
  split
  · exact (hm.nodup key).erase i
  · exact hm.nodup k

theorem remove_known (hm : Kept m) (hi : i ∈ m.clientsOf key) (k : κ) :
    ∀ j ∈ (remove m key i).clientsOf k, ∃ c, (remove m key i).calls[j]? = some c ∧ c.key = k := by
  intro j hj
  rw [remove_calls]
  rw [clientsOf_remove hi] at hj
  split at hj
  case isTrue hk => exact hk ▸ hm.known key j (List.mem_of_mem_erase hj)
  case isFalse => exact hm.known k j hj

/-- A call that is not over is not the one that leaves, and keeps its client. -/
theorem remove_stays (hm : Kept m) (hi : i ∈ m.clientsOf key)
    (hover : ∀ c, m.calls[i]? = some c → c.pc = .ended) {j : ℕ} {c : Call κ}
    (hc : m.calls[j]? = some c) (hended : c.pc ≠ .ended) :
    j ∈ (remove m key i).clientsOf c.key := by
  have hmem := (hm.held j c hc hended).1
  rw [clientsOf_remove hi]
  split
  case isTrue hk =>
    refine (List.mem_erase_of_ne fun hji => ?_).mpr (hk ▸ hmem)
    exact hended (hover c (hji ▸ hc))
  case isFalse => exact hmem

theorem kept_remove_more (hm : Kept m) (hi : i ∈ m.clientsOf key)
    (hover : ∀ c, m.calls[i]? = some c → c.pc = .ended)
    (hmore : (m.clientsOf key).erase i ≠ []) : Kept (remove m key i) := by
  have heq := remove_more hi hmore
  have hclients (k : κ) : (remove m key i).clients k =
      if k = key then some ((m.clientsOf key).erase i) else m.clients k := by
    rw [heq]
    exact Function.update_apply ..
  have hregistered : (remove m key i).registered = m.registered := by rw [heq]
  have hpumps : (remove m key i).pumps = m.pumps := by rw [heq]
  refine ⟨?_, ?_, remove_nodup hm hi, remove_known hm hi, ?_, ?_, ?_⟩
  · intro k clients h
    rw [hclients] at h
    split at h
    · exact Option.some.inj h ▸ hmore
    · exact hm.nonempty k clients h
  · intro k
    rw [hclients, hregistered, hm.paired k]
    split
    case isTrue hk =>
      cases hnone : m.clients k with
      | none => simp [WebSocketManager.clientsOf, ← hk, hnone] at hi
      | some _ => rfl
    case isFalse => rfl
  · rw [hregistered, hpumps]
    exact hm.keyed
  · rw [hregistered, hpumps]
    exact hm.owned
  · intro j c hc hended
    rw [remove_calls] at hc
    rw [hregistered]
    exact ⟨remove_stays hm hi hover hc hended, (hm.held j c hc hended).2⟩

theorem kept_remove_last (hm : Kept m) (hi : i ∈ m.clientsOf key)
    (hover : ∀ c, m.calls[i]? = some c → c.pc = .ended)
    (hlast : (m.clientsOf key).erase i = []) : Kept (remove m key i) := by
  have heq := remove_last hi hlast
  have hclients (k : κ) : (remove m key i).clients k = if k = key then none else m.clients k := by
    rw [heq]
    exact Function.update_apply ..
  have hregistered (k : κ) : (remove m key i).registered k =
      if k = key then none else m.registered k := by
    rw [heq]
    exact Function.update_apply ..
  have hpumps : (remove m key i).pumps = m.cancelled key := by rw [heq]
  refine ⟨?_, ?_, remove_nodup hm hi, remove_known hm hi, ?_, ?_, ?_⟩
  · intro k clients h
    rw [hclients] at h
    split at h
    · cases h
    · exact hm.nonempty k clients h
  · intro k
    rw [hregistered, hclients]
    split
    · rfl
    · exact hm.paired k
  · intro k p hp
    rw [hregistered] at hp
    split at hp
    case isTrue => cases hp
    case isFalse hk =>
      obtain ⟨pump, hpump, hkey⟩ := hm.keyed k p hp
      refine ⟨pump, ?_, hkey⟩
      rw [hpumps, cancelled_other, hpump]
      intro hreg
      obtain ⟨pump', hpump', hkey'⟩ := hm.keyed key p hreg
      obtain rfl := Option.some.inj (hpump.symm.trans hpump')
      exact hk (hkey.symm.trans hkey')
  · intro p pump hp hrun
    rw [hpumps] at hp
    rcases cancelled_cases hp with ⟨old, _, _, rfl⟩ | ⟨hother, hold⟩
    · rw [running_cancel] at hrun
      cases hrun
    · have howned := hm.owned p pump hold hrun
      have hk : pump.key ≠ key := fun hk => hother (hk ▸ howned)
      rw [hregistered, if_neg hk]
      exact howned
  · intro j c hc hended
    rw [remove_calls] at hc
    have hstays := remove_stays hm hi hover hc hended
    have hk : c.key ≠ key := by
      intro hk
      rw [clientsOf_remove hi, if_pos hk, hlast] at hstays
      exact absurd hstays List.not_mem_nil
    rw [hregistered, if_neg hk]
    exact ⟨hstays, (hm.held j c hc hended).2⟩

/-- A call that is over leaves; no other call loses its client or its pump. -/
theorem kept_remove (hm : Kept m) (hi : i ∈ m.clientsOf key)
    (hover : ∀ c, m.calls[i]? = some c → c.pc = .ended) : Kept (remove m key i) := by
  by_cases hlast : (m.clientsOf key).erase i = []
  · exact kept_remove_last hm hi hover hlast
  · exact kept_remove_more hm hi hover hlast

end Remove

/-! ### The steps -/

/-- A call's step is taken from its wait; only leaving touches the registry. -/
theorem callStep_cases {m t : WebSocketManager κ} {i : ℕ} {c : Call κ} {a : Action κ}
    (h : callStep m i c a = some t) : c.pc ≠ .ended ∧
      ((∃ pc, pc ≠ .ended ∧ Uncut m a ∧ t = m.goto i c pc) ∨
        (¬ Uncut m a ∧ t = m.goto i c .ended) ∨
        (Uncut m a ∧ t = remove (m.goto i c .ended) c.key i)) := by
  cases a with
  | connect _ | subscribes _ | fails _ => cases h
  | acknowledged _ =>
    simp only [callStep] at h
    split at h
    case isTrue hcond =>
      obtain rfl := Option.some.inj h
      exact ⟨by simp [hcond.1], .inl ⟨.snapshotting, by decide, trivial, rfl⟩⟩
    case isFalse => cases h
  | snapshotTaken _ =>
    simp only [callStep] at h
    split at h
    case isTrue hpc =>
      obtain rfl := Option.some.inj h
      exact ⟨by simp [hpc], .inl ⟨.looping, by decide, trivial, rfl⟩⟩
    case isFalse => cases h
  | cancelConnect _ =>
    simp only [callStep] at h
    split at h
    case isTrue hpc =>
      obtain rfl := Option.some.inj h
      refine ⟨?_, .inr (.inl ⟨id, rfl⟩)⟩
      rcases hpc with hpc | hpc <;> simp [hpc]
    case isFalse => cases h
  | leave _ =>
    simp only [callStep] at h
    split at h
    case isTrue hpc =>
      obtain rfl := Option.some.inj h
      exact ⟨by simp [hpc], .inr (.inr ⟨trivial, rfl⟩)⟩
    case isFalse => cases h

/-- A step is a `connect`, a call going on, or a pump going on. -/
theorem step_cases {m t : WebSocketManager κ} {a : Action κ} (h : step m a = some t) :
    (∃ key, Uncut m a ∧ t = connect m key) ∨
      (∃ i c, m.calls[i]? = some c ∧ callStep m i c a = some t) ∨
      (∃ p pump pump', m.pumps[p]? = some pump ∧ pump.running = true ∧ pump'.key = pump.key ∧
        (pump'.running = true ↔ Uncut m a) ∧ t = { m with pumps := m.pumps.set p pump' }) := by
  cases a with
  | connect key => exact .inl ⟨key, trivial, (Option.some.inj h).symm⟩
  | acknowledged i | snapshotTaken i | cancelConnect i | leave i =>
    obtain ⟨c, hc, hstep⟩ := Option.bind_eq_some_iff.mp h
    exact .inr (.inl ⟨i, c, hc, hstep⟩)
  | subscribes p =>
    obtain ⟨pump, hp, hstep⟩ := Option.bind_eq_some_iff.mp h
    split at hstep
    case isTrue hstatus =>
      refine .inr (.inr ⟨p, pump, { pump with status := .listening, subscribed := true }, hp,
        by simp [Pump.running, hstatus], rfl, ?_, (Option.some.inj hstep).symm⟩)
      exact ⟨fun _ => trivial, fun _ => rfl⟩
    case isFalse => cases hstep
  | fails p =>
    obtain ⟨pump, hp, hstep⟩ := Option.bind_eq_some_iff.mp h
    split at hstep
    case isTrue hrun =>
      refine .inr (.inr ⟨p, pump, { pump with status := .failed }, hp, hrun, rfl, ?_,
        (Option.some.inj hstep).symm⟩)
      exact ⟨fun hfailed => absurd hfailed (by simp [Pump.running]), fun h => h.elim⟩
    case isFalse => cases hstep

/-- Whatever fails, the critical sections keep the two dicts together. -/
theorem kept_step (m : WebSocketManager κ) (a : Action κ) (t : WebSocketManager κ) (hm : Kept m)
    (h : step m a = some t) : Kept t := by
  rcases step_cases h with ⟨key, _, rfl⟩ | ⟨i, c, hc, hstep⟩ | ⟨p, pump, _, hp, hrun, hkey, _, rfl⟩
  · exact kept_connect hm key
  · obtain ⟨hpc, hcases⟩ := callStep_cases hstep
    rcases hcases with ⟨pc, _, _, rfl⟩ | ⟨_, rfl⟩ | ⟨_, rfl⟩
    · exact hm.goto hc hpc pc
    · exact hm.goto hc hpc .ended
    · refine kept_remove (hm.goto hc hpc .ended) (hm.held i c hc hpc).1 fun d hd => ?_
      obtain rfl := Option.some.inj ((moved_self _ hc).symm.trans hd)
      rfl
  · exact hm.setPump hp hrun hkey

/-- In every run a key has a pump just when it has a client, and at most one that runs. -/
theorem kept_run {as : List (Action κ)} {t : WebSocketManager κ}
    (h : runFrom step .start as = some t) : Kept t :=
  inv_run kept_step kept_start h

/-! ### The steps that cut nothing off -/

theorem sound_connect {m : WebSocketManager κ} (hm : Sound m) (key : κ) :
    Sound (connect m key) := by
  refine ⟨kept_connect hm.toKept key, ?_, ?_⟩
  · intro k p pump hreg hp
    rw [registered_connect] at hreg
    rw [connect_pumps] at hp
    have hold (h : m.registered k = some p) : pump.running = true := by
      obtain ⟨pump', hp', _⟩ := hm.keyed k p h
      have hsame := connect_getPump key hp'
      rw [connect_pumps, hp] at hsame
      obtain rfl := Option.some.inj hsame
      exact hm.alive k p pump h hp'
    split at hreg
    case isFalse => exact hold hreg
    case isTrue hk =>
      cases hkey : m.registered key with
      | some q =>
        rw [pumpFor_some hkey, ← hkey] at hreg
        exact hold (hk ▸ hreg)
      | none =>
        rw [WebSocketManager.pumpFor, hkey] at hreg
        rw [hkey] at hp
        obtain rfl : m.pumps.length = p := Option.some.inj hreg
        rcases joined_cases hp with hp | ⟨_, rfl⟩
        · exact absurd rfl (ne_length_of_some hp)
        · rfl
  · intro i c hc hended
    rw [connect_calls] at hc
    rw [clientsOf_connect]
    rcases joined_cases hc with hold | ⟨rfl, rfl⟩
    · have hout := hm.gone i c hold hended
      split
      case isTrue hk =>
        intro hmem
        rcases List.mem_append.mp hmem with hin | hnew
        · exact hout (hk ▸ hin)
        · exact ne_length_of_some hold (List.mem_singleton.mp hnew)
      case isFalse => exact hout
    · cases hended

/-- The call that leaves is out, and the pumps of the other keys run as before. -/
theorem sound_leave {m : WebSocketManager κ} (hm : Sound m) {i : ℕ} {c : Call κ}
    (hc : m.calls[i]? = some c) (hpc : c.pc ≠ .ended) :
    Sound (remove (m.goto i c .ended) c.key i) := by
  have hkept := hm.goto hc hpc .ended
  have hi : i ∈ (m.goto i c .ended).clientsOf c.key := (hm.held i c hc hpc).1
  have hover (d : Call κ) (hd : (m.goto i c .ended).calls[i]? = some d) : d.pc = .ended := by
    obtain rfl := Option.some.inj ((moved_self _ hc).symm.trans hd)
    rfl
  refine ⟨kept_remove hkept hi hover, ?_, ?_⟩
  · intro k p pump hreg hp
    by_cases hlast : ((m.goto i c .ended).clientsOf c.key).erase i = []
    · rw [remove_last hi hlast] at hreg hp
      have hk : k ≠ c.key := by
        intro hk
        simp [hk] at hreg
      have hreg' : m.registered k = some p := (Function.update_of_ne hk ..).symm.trans hreg
      rcases cancelled_cases hp with ⟨_, hown, _, _⟩ | ⟨_, hold⟩
      · obtain ⟨pump', hp', hkey'⟩ := hm.keyed k p hreg'
        obtain ⟨pump'', hp'', hkey''⟩ := hm.keyed c.key p hown
        obtain rfl := Option.some.inj (hp'.symm.trans hp'')
        exact absurd (hkey'.symm.trans hkey'') hk
      · exact hm.alive k p pump hreg' hold
    · rw [remove_more hi hlast] at hreg hp
      exact hm.alive k p pump hreg hp
  · intro j d hd hended
    rw [remove_calls] at hd
    rw [clientsOf_remove hi]
    rcases moved_cases hd with ⟨rfl, rfl⟩ | ⟨_, hold⟩
    · rw [if_pos rfl]
      exact (hkept.nodup c.key).not_mem_erase
    · have hout := hm.gone j d hold hended
      split
      case isTrue hk => exact fun hmem => hout (hk ▸ List.mem_of_mem_erase hmem)
      case isFalse => exact hout

theorem sound_step (m : WebSocketManager κ) (a : Action κ) (t : WebSocketManager κ) (hm : Sound m)
    (hok : Uncut m a) (h : step m a = some t) : Sound t := by
  rcases step_cases h with ⟨key, _, rfl⟩ | ⟨i, c, hc, hstep⟩ |
    ⟨p, pump, pump', hp, hrun, hkey, hrun', rfl⟩
  · exact sound_connect hm key
  · obtain ⟨hpc, hcases⟩ := callStep_cases hstep
    rcases hcases with ⟨pc, hne, _, rfl⟩ | ⟨hcut, _⟩ | ⟨_, rfl⟩
    · exact sound_goto hm hc hpc hne
    · exact absurd hok hcut
    · exact sound_leave hm hc hpc
  · refine ⟨hm.setPump hp hrun hkey, fun k q old hreg hold => ?_, hm.gone⟩
    rcases moved_cases hold with ⟨rfl, rfl⟩ | ⟨_, hold⟩
    · exact hrun'.mpr hok
    · exact hm.alive k q old hreg hold

/-- A step leaves the registry in order just when it cuts nothing off. -/
theorem inOrder_step_iff (m : WebSocketManager κ) (a : Action κ) (t : WebSocketManager κ)
    (hm : Sound m) (h : step m a = some t) : InOrder t ↔ Uncut m a := by
  rw [(kept_step m a t hm.toKept h).inOrder_sound]
  refine ⟨fun ht => ?_, fun hok => sound_step m a t hm hok h⟩
  rcases step_cases h with ⟨_, hok, _⟩ | ⟨i, c, hc, hstep⟩ |
    ⟨p, pump, pump', hp, hrun, hkey, hrun', rfl⟩
  · exact hok
  · obtain ⟨hpc, hcases⟩ := callStep_cases hstep
    rcases hcases with ⟨_, _, hok, _⟩ | ⟨_, rfl⟩ | ⟨hok, _⟩
    · exact hok
    · -- the call is over and its client still registered
      have hin := (hm.held i c hc hpc).1
      exact absurd hin (ht.gone i { c with pc := .ended } (moved_self _ hc) rfl)
    · exact hok
  · -- the pump is its key's, so a registered pump would have failed
    exact hrun'.mp (ht.alive pump.key p pump' (hm.owned p pump hp hrun) (moved_self _ hp))

/-- EXACT CONDITION: along a run of connects, disconnects, cancellations and pump failures the
    registry is in order after every step just when no pump fails and no call is cancelled while it
    waits for SUBSCRIBE or the snapshot. -/
theorem inOrder_iff (as : List (Action κ)) :
    EveryStep step (fun _ _ t => InOrder t) (WebSocketManager.start : WebSocketManager κ) as ↔
      Guarded step Uncut .start as :=
  everyStep_iff_guarded sound_step inOrder_step_iff sound_start

/-! ### A dead pump -/

/-- A client is being served when the pump's connection breaks. -/
def served : List (Action String) :=
  [.connect "r1", .subscribes 0, .acknowledged 0, .snapshotTaken 0]

/-- The pump stays registered, and a later client of the run is attached to it. -/
theorem attached_to_dead_pump :
    ¬ EveryStep step (fun _ _ t => InOrder t) (WebSocketManager.start : WebSocketManager String)
        (served ++ .fails 0 :: [.connect "r1"]) ∧
      ∃ m, runFrom step WebSocketManager.start (served ++ .fails 0 :: [.connect "r1"]) = some m ∧
        m.calls[1]? = some ⟨"r1", 0, .waiting⟩ ∧ m.pumps[0]? = some ⟨"r1", .failed, true⟩ := by
  refine ⟨fun h => ?_, _, rfl, rfl, rfl⟩
  have horder := EveryStep.at h (rfl : runFrom _ _ served = some _) rfl
  obtain ⟨pump, hp, _, hrun⟩ := horder.alive "r1" 0 rfl
  obtain rfl := Option.some.inj hp
  cases hrun

end LunaCore.Stream.Manager
