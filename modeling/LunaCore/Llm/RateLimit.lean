import LunaCore.Schemes.Expiring
import LunaCore.Schemes.Machine
import LunaCore.Schemes.Parties

/-! The rate limit of one provider: a counter that runs out, and calls that take a slot of it.

    `complete`:  INCR, TTL ─▶ no TTL: EXPIRE ─▶ within the limit ─▶ dispatch ─▶ answer
                     ▲                          └─▶ over it: sleep ─▶ dispatch    │
                     └──────────────────── back off ◀─── rate-limited, transient ─┘

    A caller over the limit sleeps for the rest of the window and goes on without a slot of the next
    one; a caller within it may take its time and dispatch when the window is over. The condition is
    that neither happens. The expiry needs none: whoever finds the counter without one gives it
    one. A call of `compact` takes its slot the same way and never tries again. -/

namespace LunaCore.Llm.RateLimit
open LunaCore.Schemes

/-- `rate_limit_rpm`, `llm_rate_limit_window_seconds` and `max_retries`. -/
structure Setup where
  rpm : ℕ
  window : ℕ
  maxRetries : ℕ

/-- Where a call of `complete` is. -/
inductive Pc where
  | checking
  /-- INCR gave `count`, and the counter had no TTL. For proofs only: in which window. -/
  | expiring (count window : ℕ)
  /-- Over the limit, until then. -/
  | sleeping (wakes : ℕ)
  /-- About to call the provider. For proofs only: the window it has a slot of. -/
  | cleared (slot : Option ℕ)
  | dispatched
  | backingOff
  | ended
  deriving DecidableEq, Repr

structure Call where
  attempt : ℕ
  pc : Pc
  deriving DecidableEq, Repr

structure State where
  /-- Milliseconds. -/
  now : ℕ
  /-- `llm_ratelimit:<provider>`. -/
  counter : Expiries Unit ℕ
  calls : List Call
  /-- For proofs only: how often the counter was reset, and how many requests were dispatched
      since. -/
  window : ℕ
  sent : ℕ

/-- How the provider answers a request. -/
inductive Outcome where
  | returned | raised | transient
  deriving DecidableEq, Repr

inductive Action where
  | wait (milliseconds : ℕ)
  | arrive
  | check (i : ℕ)
  | expire (i : ℕ)
  | wake (i : ℕ)
  | dispatch (i : ℕ)
  | answer (i : ℕ) (outcome : Outcome)
  | retry (i : ℕ)
  deriving DecidableEq, Repr

def start : State := ⟨0, fun _ => none, [], 0, 0⟩

/-- TTL in whole seconds, as Redis rounds it. -/
def ttl (now deadline : ℕ) : ℕ := (deadline - now + 500) / 1000

/-- `check_rate_limit` once it has the count and the TTL, and what `_enforce_rate_limit` makes of
    it. -/
def decideCount (setup : Setup) (now count ttl window : ℕ) : Pc :=
  let retryAfter := if 0 < ttl then ttl else setup.window
  if count ≤ setup.rpm then .cleared (some window)
  else .sleeping (now + 1000 * max 1 (min retryAfter setup.window))

/-- INCR. -/
def incr (count : Option ℕ) : Option ℕ := some (count.getD 0 + 1)

/-- The counter that was there is gone. -/
def State.passWindow (s t : State) : State :=
  if (s.counter.get s.now ()).isSome ∧ t.counter.get t.now () = none then
    { t with window := s.window + 1, sent := 0 }
  else t

/-- The call that is there moves on. -/
def State.move (s : State) (i : ℕ) (c : Call) (pc : Pc) : State :=
  { s with calls := s.calls.set i { c with pc := pc } }

/-- What follows an INCR that gave the count of a counter with that expiry. -/
def afterIncr (setup : Setup) (now count window : ℕ) : Option ℕ → Pc
  | none => .expiring count window
  | some deadline => decideCount setup now count (ttl now deadline) window

/-- The pipeline of INCR and TTL. -/
def check (setup : Setup) (s : State) (i : ℕ) (c : Call) : State :=
  let counter := s.counter.alter s.now () incr
  { s with counter := counter }.move i c
    (afterIncr setup s.now ((counter.get s.now ()).getD 0) s.window
      ((counter.entry s.now ()).bind Expiring.deadline))

def step (setup : Setup) (s : State) : Action → Option State
  | .wait milliseconds => some (s.passWindow { s with now := s.now + milliseconds })
  | .arrive => some { s with calls := s.calls ++ [⟨0, .checking⟩] }
  | .check i => (s.calls[i]?).bind fun c =>
      if c.pc = .checking then some (check setup s i c) else none
  | .expire i => (s.calls[i]?).bind fun c => match c.pc with
      | .expiring count window => some (s.passWindow ({ s with
          counter := s.counter.expire s.now () (s.now + 1000 * setup.window) }.move i c
            (decideCount setup s.now count setup.window window)))
      | _ => none
  | .wake i => (s.calls[i]?).bind fun c => match c.pc with
      | .sleeping wakes => if wakes ≤ s.now then some (s.move i c (.cleared none)) else none
      | _ => none
  | .dispatch i => (s.calls[i]?).bind fun c => match c.pc with
      | .cleared _ => some ({ s with sent := s.sent + 1 }.move i c .dispatched)
      | _ => none
  | .answer i outcome => (s.calls[i]?).bind fun c =>
      if c.pc = .dispatched then match outcome with
        | .returned | .raised => some (s.move i c .ended)
        | .transient => some (s.move i { c with attempt := c.attempt + 1 }
            (if setup.maxRetries < c.attempt + 1 then .ended else .backingOff))
      else none
  | .retry i => (s.calls[i]?).bind fun c =>
      if c.pc = .backingOff then some (s.move i c .checking) else none

/-- Between its INCR and its EXPIRE. -/
def Pc.isExpiring : Pc → Bool
  | .expiring .. => true
  | _ => false

/-- A step after which no more than the limit was dispatched since the counter was last reset; a
    counter without expiry has a call on its way to give it one, and a check that is through leaves
    none; and the counter goes within a window's time. -/
structure Limited (setup : Setup) (s : State) (a : Action) (t : State) : Prop where
  bound : t.sent ≤ setup.rpm
  healing : ∀ e, t.counter.entry t.now () = some e → e.deadline = none →
    ∃ (i : ℕ) (c : Call), t.calls[i]? = some c ∧ c.pc.isExpiring = true
  healed : ∀ i c e, a = .check i ∨ a = .expire i → t.calls[i]? = some c →
    c.pc.isExpiring = false → t.counter.entry t.now () = some e → e.deadline ≠ none
  soon : ∀ e deadline, t.counter.entry t.now () = some e → e.deadline = some deadline →
    deadline ≤ t.now + 1000 * setup.window

/-- The window a call has a slot of, and whether it is about to dispatch. -/
def Pc.slot : Pc → Option ℕ
  | .expiring _ window => some window
  | .cleared slot => slot
  | _ => none

def Pc.isCleared : Pc → Bool
  | .cleared _ => true
  | _ => false

/-- Whoever dispatches was within the limit of the window that is still running. -/
def InWindow (s : State) (a : Action) : Prop :=
  match a with
  | .dispatch i => ∀ c ∈ s.calls[i]?, c.pc.isCleared = true → c.pc.slot = some s.window
  | _ => True

instance (s : State) : ∀ a, Decidable (InWindow s a)
  | .dispatch i => inferInstanceAs (Decidable (∀ c ∈ s.calls[i]?, _ → _))
  | .wait _ | .arrive | .check _ | .expire _ | .wake _ | .answer .. | .retry _ => isTrue trivial

/-- The call has a slot of the window and has not dispatched. -/
def Call.ready (rpm window : ℕ) (c : Call) : Bool :=
  c.pc.slot = some window && match c.pc with
    | .expiring count _ => count ≤ rpm
    | _ => true

/-- What was dispatched in the window and what is about to be is within the limit, and was counted;
    and nobody has a slot of a window to come. -/
structure Tallied (setup : Setup) (s : State) : Prop where
  limit : s.sent + s.calls.countP (Call.ready setup.rpm s.window) ≤ setup.rpm
  count : s.sent + s.calls.countP (Call.ready setup.rpm s.window) ≤
    (s.counter.get s.now ()).getD 0
  slots : ∀ (i : ℕ) (c : Call), s.calls[i]? = some c → ∀ w ∈ c.pc.slot, w ≤ s.window

/-- A counter without expiry has a call on its way; one with an expiry goes within a window. -/
structure Healing (setup : Setup) (s : State) : Prop where
  pending : ∀ e, s.counter.entry s.now () = some e → e.deadline = none →
    ∃ (i : ℕ) (c : Call), s.calls[i]? = some c ∧ c.pc.isExpiring = true
  soon : ∀ e deadline, s.counter.entry s.now () = some e → e.deadline = some deadline →
    deadline ≤ s.now + 1000 * setup.window

theorem tallied_start (setup : Setup) : Tallied setup start :=
  ⟨by simp [start], by simp [start], by simp [start]⟩

theorem healing_start (setup : Setup) : Healing setup start := by
  constructor
  · intro e he
    cases he
  · intro e deadline he
    cases he

/-! ### What is dispatched -/

/-- A call moves on that has a slot of the running window after just when it had one before. -/
theorem Tallied.move {setup : Setup} {s : State} {i : ℕ} {c d : Call} {pc : Pc}
    (hs : Tallied setup s) (hi : s.calls[i]? = some c)
    (hready : Call.ready setup.rpm s.window { d with pc := pc } =
      Call.ready setup.rpm s.window c)
    (hslot : ∀ w ∈ pc.slot, w ≤ s.window) : Tallied setup (s.move i d pc) := by
  have hmoved := countP_moved (p := Call.ready setup.rpm s.window) (a := { d with pc := pc }) hi
  rw [hready] at hmoved
  have hsame : (s.move i d pc).calls.countP (Call.ready setup.rpm s.window) =
      s.calls.countP (Call.ready setup.rpm s.window) := Nat.add_right_cancel hmoved
  refine ⟨?_, ?_, forall_moved hs.slots hslot⟩
  · exact hsame ▸ hs.limit
  · exact hsame ▸ hs.count

/-- Time passes or a TTL is set: the counter is as it was, or is gone and a window begins. -/
theorem Tallied.pass {setup : Setup} {s t : State} (hs : Tallied setup s)
    (hcalls : t.calls = s.calls) (hwindow : t.window = s.window) (hsent : t.sent = s.sent)
    (hcounter : t.counter.get t.now () = s.counter.get s.now () ∨
      t.counter.get t.now () = none) : Tallied setup (s.passWindow t) := by
  unfold State.passWindow
  split
  case isTrue h =>
    have hnone : s.calls.countP (Call.ready setup.rpm (s.window + 1)) = 0 := by
      rw [List.countP_eq_zero]
      intro c hc hready
      obtain ⟨i, hi⟩ := List.getElem?_of_mem hc
      have hslot := of_decide_eq_true ((Bool.and_eq_true _ _).mp hready).1
      have := hs.slots i c hi _ hslot
      omega
    refine ⟨?_, ?_, fun i c hi w hw => ?_⟩
    · show 0 + t.calls.countP _ ≤ _
      rw [hcalls, hnone]
      exact Nat.zero_le _
    · show 0 + t.calls.countP _ ≤ _
      rw [hcalls, hnone]
      exact Nat.zero_le _
    · exact Nat.le_succ_of_le (hs.slots i c (hcalls ▸ hi) w hw)
  case isFalse h =>
    refine ⟨?_, ?_, ?_⟩
    · rw [hcalls, hwindow, hsent]
      exact hs.limit
    · rw [hcalls, hwindow, hsent]
      rcases hcounter with hsame | hgone
      · rw [hsame]
        exact hs.count
      · -- gone, and it was not there before
        have hbefore : s.counter.get s.now () = none := by
          by_contra hne
          exact h ⟨Option.isSome_iff_ne_none.mpr hne, hgone⟩
        rw [hgone, ← hbefore]
        exact hs.count
    · rw [hcalls, hwindow]
      exact hs.slots

/-- The INCR: the count it gives has not been given in this window, and the slot is the caller's if
    it is within the limit. -/
theorem Tallied.check {setup : Setup} {s : State} {i : ℕ} {c : Call} (hs : Tallied setup s)
    (hi : s.calls[i]? = some c) (hpc : c.pc = .checking) :
    Tallied setup (check setup s i c) := by
  have hcount : (s.counter.alter s.now () incr).get s.now () =
      some ((s.counter.get s.now ()).getD 0 + 1) := Expiries.get_alter_self incr
  have hmove : ∀ pc : Pc, (∀ w ∈ pc.slot, w = s.window) →
      (Call.ready setup.rpm s.window { c with pc := pc } = true →
        (s.counter.get s.now ()).getD 0 + 1 ≤ setup.rpm) →
      Tallied setup (State.move { s with counter := s.counter.alter s.now () incr } i c pc) := by
    intro pc hslot hready
    have hmoved := countP_moved (p := Call.ready setup.rpm s.window) (a := { c with pc := pc }) hi
    have hnot : Call.ready setup.rpm s.window c = false := by
      simp [Call.ready, hpc, Pc.slot]
    rw [hnot, if_neg Bool.false_ne_true, Nat.add_zero] at hmoved
    have hlimit := hs.limit
    have hold := hs.count
    refine ⟨?_, ?_, forall_moved hs.slots fun w hw => Nat.le_of_eq (hslot w hw)⟩
    · show s.sent + (s.calls.set i { c with pc := pc }).countP (Call.ready setup.rpm s.window) ≤ _
      split at hmoved
      case isTrue h =>
        have := hready h
        omega
      case isFalse => omega
    · show s.sent + (s.calls.set i { c with pc := pc }).countP (Call.ready setup.rpm s.window) ≤
        ((s.counter.alter s.now () incr).get s.now ()).getD 0
      rw [hcount, Option.getD_some]
      split at hmoved <;> omega
  unfold RateLimit.check
  simp only [hcount, Option.getD_some]
  generalize ((s.counter.alter s.now () incr).entry s.now ()).bind Expiring.deadline = deadline
  cases deadline with
  | none =>
    refine hmove _ (fun w hw => (Option.some.inj hw).symm) fun hready => ?_
    simpa [afterIncr, Call.ready, Pc.slot] using hready
  | some deadline =>
    refine hmove _ (fun w hw => ?_) fun hready => ?_
    · simp only [afterIncr, decideCount] at hw
      split at hw
      · exact (Option.some.inj hw).symm
      · cases hw
    · simp only [afterIncr, decideCount] at hready
      split at hready
      · assumption
      · simp [Call.ready, Pc.slot] at hready

/-- A slot of the running window is used. -/
theorem Tallied.dispatch {setup : Setup} {s : State} {i : ℕ} {c : Call} (hs : Tallied setup s)
    (hi : s.calls[i]? = some c) (hpc : c.pc.isCleared = true) (hslot : c.pc.slot = some s.window) :
    Tallied setup (State.move { s with sent := s.sent + 1 } i c .dispatched) := by
  have hready : Call.ready setup.rpm s.window c = true := by
    unfold Call.ready
    rw [hslot]
    cases h : c.pc <;> simp_all [Pc.isCleared]
  have hmoved := countP_moved (p := Call.ready setup.rpm s.window)
    (a := { c with pc := .dispatched }) hi
  have hnot : Call.ready setup.rpm s.window { c with pc := .dispatched } = false := rfl
  rw [hready, hnot, if_pos rfl, if_neg Bool.false_ne_true] at hmoved
  have hlimit := hs.limit
  have hcount := hs.count
  refine ⟨?_, ?_, forall_moved hs.slots fun w hw => by cases hw⟩
  · show s.sent + 1 +
      (s.calls.set i { c with pc := .dispatched }).countP (Call.ready setup.rpm s.window) ≤ _
    omega
  · show s.sent + 1 +
      (s.calls.set i { c with pc := .dispatched }).countP (Call.ready setup.rpm s.window) ≤
        (s.counter.get s.now ()).getD 0
    omega

/-! ### The expiry -/

@[simp] theorem passWindow_now (s t : State) : (s.passWindow t).now = t.now := by
  unfold State.passWindow
  split <;> rfl

@[simp] theorem passWindow_counter (s t : State) : (s.passWindow t).counter = t.counter := by
  unfold State.passWindow
  split <;> rfl

@[simp] theorem passWindow_calls (s t : State) : (s.passWindow t).calls = t.calls := by
  unfold State.passWindow
  split <;> rfl

/-- A call that has no TTL to set moves on. -/
theorem Healing.move {setup : Setup} {s : State} {i : ℕ} {c d : Call} {pc : Pc}
    (hs : Healing setup s) (hi : s.calls[i]? = some c) (hpc : c.pc.isExpiring = false) :
    Healing setup (s.move i d pc) := by
  refine ⟨fun e he hnone => ?_, hs.soon⟩
  exact exists_moved hi (by simp [hpc]) (hs.pending e he hnone)

theorem Healing.wait {setup : Setup} {s : State} (hs : Healing setup s) (milliseconds : ℕ) :
    Healing setup (s.passWindow { s with now := s.now + milliseconds }) := by
  constructor
  · simp only [passWindow_counter, passWindow_now, passWindow_calls]
    exact fun e he => hs.pending e (Expiries.entry_le (Nat.le_add_right _ _) he)
  · simp only [passWindow_counter, passWindow_now]
    intro e deadline he hd
    have := hs.soon e deadline (Expiries.entry_le (Nat.le_add_right _ _) he) hd
    omega

/-- A check finds the counter with its expiry, or is on its way to set one. -/
theorem check_expiry (setup : Setup) {s : State} {i : ℕ} {c : Call}
    (hi : s.calls[i]? = some c) :
    (∃ deadline, (s.counter.entry s.now ()).bind Expiring.deadline = some deadline) ∨
      ∃ d, (check setup s i c).calls[i]? = some d ∧ d.pc.isExpiring = true := by
  cases hd : (s.counter.entry s.now ()).bind Expiring.deadline with
  | some deadline => exact .inl ⟨deadline, rfl⟩
  | none =>
    refine .inr ⟨_, moved_self _ hi, ?_⟩
    rw [Expiries.entry_alter_self, incr, Option.map_some, Option.bind_some, hd]
    rfl

/-- The counter after an INCR has the expiry it had before. -/
theorem deadline_check {setup : Setup} {s : State} {i : ℕ} {c : Call} {e : Expiring ℕ}
    (he : (check setup s i c).counter.entry (check setup s i c).now () = some e) :
    e.deadline = (s.counter.entry s.now ()).bind Expiring.deadline := by
  have he : (s.counter.alter s.now () incr).entry s.now () = some e := he
  rw [Expiries.entry_alter_self, incr, Option.map_some] at he
  exact Option.some.inj he ▸ rfl

theorem Healing.check {setup : Setup} {s : State} {i : ℕ} {c : Call} (hs : Healing setup s)
    (hi : s.calls[i]? = some c) : Healing setup (RateLimit.check setup s i c) := by
  refine ⟨fun e he hnone => ?_, fun e deadline he hd => ?_⟩
  · rcases check_expiry setup hi with ⟨deadline, hd⟩ | ⟨d, hd, hexpiring⟩
    · rw [deadline_check he, hd] at hnone
      cases hnone
    · exact ⟨i, d, hd, hexpiring⟩
  · rw [deadline_check he] at hd
    obtain ⟨old, hold, hdeadline⟩ := Option.bind_eq_some_iff.mp hd
    exact hs.soon old deadline hold hdeadline

/-- The counter after an EXPIRE, if it is still there. -/
theorem entry_expired {counter : Expiries Unit ℕ} {now later : ℕ} {e : Expiring ℕ}
    (he : (counter.expire now () later).entry now () = some e) : e.deadline = some later := by
  unfold Expiries.expire at he
  cases hold : counter.entry now () with
  | none =>
    rw [hold] at he
    simp only at he
    rw [hold] at he
    cases he
  | some old =>
    rw [hold] at he
    simp only at he
    rw [Expiries.entry_set_self] at he
    split at he
    · exact Option.some.inj he ▸ rfl
    · cases he

theorem get_expired (counter : Expiries Unit ℕ) (now later : ℕ) :
    (counter.expire now () later).get now () = counter.get now () ∨
      (counter.expire now () later).get now () = none := by
  by_cases hlt : now < later
  · exact .inl (Expiries.get_expire hlt)
  · refine .inr (Expiries.get_eq_none_iff.mpr ?_)
    cases he : (counter.expire now () later).entry now () with
    | none => rfl
    | some e =>
      have hlive := (Expiries.entry_eq_some_iff.mp he).2
      rw [Expiring.live, entry_expired he] at hlive
      exact absurd (of_decide_eq_true hlive) hlt

theorem Tallied.expire {setup : Setup} {s : State} {i count window : ℕ} {c : Call}
    (hs : Tallied setup s) (hi : s.calls[i]? = some c) (hpc : c.pc = .expiring count window) :
    Tallied setup (s.passWindow ({ s with
      counter := s.counter.expire s.now () (s.now + 1000 * setup.window) }.move i c
        (decideCount setup s.now count setup.window window))) := by
  have hslot : window ≤ s.window := hs.slots i c hi window (by simp [hpc, Pc.slot])
  have hmoved : Tallied setup (s.move i c (decideCount setup s.now count setup.window window)) := by
    refine hs.move hi ?_ fun w hw => ?_
    · unfold decideCount Call.ready
      rw [hpc]
      simp only
      split
      case isTrue h => simp [Pc.slot, h]
      case isFalse h => simp [Pc.slot, h]
    · simp only [decideCount] at hw
      split at hw
      · exact Option.some.inj hw ▸ hslot
      · cases hw
  exact hmoved.pass rfl rfl rfl (get_expired s.counter s.now _)

theorem Healing.expire {setup : Setup} {s : State} {i : ℕ} {c : Call} {pc : Pc} :
    Healing setup (s.passWindow ({ s with
      counter := s.counter.expire s.now () (s.now + 1000 * setup.window) }.move i c pc)) := by
  constructor
  · simp only [passWindow_counter, passWindow_now]
    intro e he hnone
    rw [entry_expired he] at hnone
    cases hnone
  · simp only [passWindow_counter, passWindow_now]
    intro e deadline he hd
    rw [entry_expired he] at hd
    exact Nat.le_of_eq (Option.some.inj hd).symm

/-! ### Steps and runs -/

theorem check_cases {setup : Setup} {s t : State} {i : ℕ} (h : step setup s (.check i) = some t) :
    ∃ c, s.calls[i]? = some c ∧ c.pc = .checking ∧ t = check setup s i c := by
  obtain ⟨c, hi, h⟩ := Option.bind_eq_some_iff.mp h
  split at h
  case isTrue hpc => exact ⟨c, hi, hpc, (Option.some.inj h).symm⟩
  case isFalse => cases h

theorem expire_cases {setup : Setup} {s t : State} {i : ℕ} (h : step setup s (.expire i) = some t) :
    ∃ c count window, s.calls[i]? = some c ∧ c.pc = .expiring count window ∧
      t = s.passWindow ({ s with
        counter := s.counter.expire s.now () (s.now + 1000 * setup.window) }.move i c
          (decideCount setup s.now count setup.window window)) := by
  obtain ⟨c, hi, h⟩ := Option.bind_eq_some_iff.mp h
  split at h
  case h_1 count window hpc => exact ⟨c, count, window, hi, hpc, (Option.some.inj h).symm⟩
  case h_2 => cases h

theorem dispatch_cases {setup : Setup} {s t : State} {i : ℕ}
    (h : step setup s (.dispatch i) = some t) : ∃ c, s.calls[i]? = some c ∧
      c.pc.isCleared = true ∧ t = State.move { s with sent := s.sent + 1 } i c .dispatched := by
  obtain ⟨c, hi, h⟩ := Option.bind_eq_some_iff.mp h
  split at h
  case h_1 slot hpc => exact ⟨c, hi, by rw [hpc]; rfl, (Option.some.inj h).symm⟩
  case h_2 => cases h

/-- The other steps move a call on that had no slot and needs none. -/
theorem move_cases {setup : Setup} {s t : State} {a : Action} (h : step setup s a = some t)
    (ha : (∃ i, a = .wake i) ∨ (∃ i outcome, a = .answer i outcome) ∨ ∃ i, a = .retry i) :
    ∃ i c d pc, s.calls[i]? = some c ∧ c.pc.slot = none ∧ c.pc.isExpiring = false ∧
      Pc.slot pc = none ∧ t = s.move i d pc := by
  rcases ha with ⟨i, rfl⟩ | ⟨i, outcome, rfl⟩ | ⟨i, rfl⟩
  · obtain ⟨c, hi, h⟩ := Option.bind_eq_some_iff.mp h
    split at h
    case h_1 wakes hpc =>
      split at h
      · exact ⟨i, c, c, _, hi, by simp [hpc, Pc.slot], by simp [hpc, Pc.isExpiring], rfl,
          (Option.some.inj h).symm⟩
      · cases h
    case h_2 => cases h
  · obtain ⟨c, hi, h⟩ := Option.bind_eq_some_iff.mp h
    split at h
    case isFalse => cases h
    case isTrue hpc =>
      have hslot : c.pc.slot = none := by rw [hpc]; rfl
      have hexpiring : c.pc.isExpiring = false := by rw [hpc]; rfl
      cases outcome with
      | returned => exact ⟨i, c, c, _, hi, hslot, hexpiring, rfl, (Option.some.inj h).symm⟩
      | raised => exact ⟨i, c, c, _, hi, hslot, hexpiring, rfl, (Option.some.inj h).symm⟩
      | transient =>
        refine ⟨i, c, _, _, hi, hslot, hexpiring, ?_, (Option.some.inj h).symm⟩
        split <;> rfl
  · obtain ⟨c, hi, h⟩ := Option.bind_eq_some_iff.mp h
    split at h
    case isTrue hpc =>
      exact ⟨i, c, c, _, hi, by rw [hpc]; rfl, by rw [hpc]; rfl, rfl, (Option.some.inj h).symm⟩
    case isFalse => cases h

/-- STEP LEMMA of the expiry, for every step. -/
theorem step_healing {setup : Setup} (s : State) (a : Action) (t : State)
    (hs : Healing setup s) (h : step setup s a = some t) : Healing setup t := by
  cases a with
  | wait milliseconds =>
    obtain rfl := Option.some.inj h
    exact hs.wait milliseconds
  | arrive =>
    obtain rfl := Option.some.inj h
    refine ⟨fun e he hnone => ?_, hs.soon⟩
    obtain ⟨i, c, hi, hexpiring⟩ := hs.pending e he hnone
    exact ⟨i, c, joined_old _ hi, hexpiring⟩
  | check i =>
    obtain ⟨c, hi, _, rfl⟩ := check_cases h
    exact hs.check hi
  | expire i =>
    obtain ⟨c, count, window, hi, _, rfl⟩ := expire_cases h
    exact Healing.expire
  | dispatch i =>
    obtain ⟨c, hi, hpc, rfl⟩ := dispatch_cases h
    refine Healing.move (s := { s with sent := s.sent + 1 }) ⟨hs.pending, hs.soon⟩ hi ?_
    cases hc : c.pc <;> simp_all [Pc.isCleared, Pc.isExpiring]
  | wake i =>
    obtain ⟨i, c, d, pc, hi, _, hexpiring, _, rfl⟩ := move_cases h (.inl ⟨i, rfl⟩)
    exact hs.move hi hexpiring
  | answer i outcome =>
    obtain ⟨i, c, d, pc, hi, _, hexpiring, _, rfl⟩ := move_cases h (.inr (.inl ⟨i, outcome, rfl⟩))
    exact hs.move hi hexpiring
  | retry i =>
    obtain ⟨i, c, d, pc, hi, _, hexpiring, _, rfl⟩ := move_cases h (.inr (.inr ⟨i, rfl⟩))
    exact hs.move hi hexpiring

/-- STEP LEMMA of the bound, for a step that dispatches in the window of its slot. -/
theorem step_tallied {setup : Setup} (s : State) (a : Action) (t : State)
    (hs : Tallied setup s) (hok : InWindow s a) (h : step setup s a = some t) :
    Tallied setup t := by
  have hmove : ∀ (i : ℕ) (c d : Call) (pc : Pc), s.calls[i]? = some c → c.pc.slot = none →
      Pc.slot pc = none → Tallied setup (s.move i d pc) := by
    intro i c d pc hi hslot hnext
    exact hs.move hi (by simp [Call.ready, hslot, hnext]) (by simp [hnext])
  cases a with
  | wait milliseconds =>
    obtain rfl := Option.some.inj h
    refine hs.pass rfl rfl rfl ?_
    cases hlater : s.counter.get (s.now + milliseconds) () with
    | none => exact .inr rfl
    | some count => exact .inl (Expiries.get_le (Nat.le_add_right _ _) hlater).symm
  | arrive =>
    obtain rfl := Option.some.inj h
    have hsame : (s.calls ++ [(⟨0, .checking⟩ : Call)]).countP (Call.ready setup.rpm s.window) =
        s.calls.countP (Call.ready setup.rpm s.window) := by
      rw [List.countP_append]
      rfl
    exact ⟨hsame ▸ hs.limit, hsame ▸ hs.count, forall_joined hs.slots fun w hw => by cases hw⟩
  | check i =>
    obtain ⟨c, hi, hpc, rfl⟩ := check_cases h
    exact hs.check hi hpc
  | expire i =>
    obtain ⟨c, count, window, hi, hpc, rfl⟩ := expire_cases h
    exact hs.expire hi hpc
  | dispatch i =>
    obtain ⟨c, hi, hpc, rfl⟩ := dispatch_cases h
    exact hs.dispatch hi hpc (hok c hi hpc)
  | wake i =>
    obtain ⟨i, c, d, pc, hi, hslot, _, hnext, rfl⟩ := move_cases h (.inl ⟨i, rfl⟩)
    exact hmove i c d pc hi hslot hnext
  | answer i outcome =>
    obtain ⟨i, c, d, pc, hi, hslot, _, hnext, rfl⟩ := move_cases h (.inr (.inl ⟨i, outcome, rfl⟩))
    exact hmove i c d pc hi hslot hnext
  | retry i =>
    obtain ⟨i, c, d, pc, hi, hslot, _, hnext, rfl⟩ := move_cases h (.inr (.inr ⟨i, rfl⟩))
    exact hmove i c d pc hi hslot hnext

/-- A check that is through leaves the counter an expiry. -/
theorem step_healed {setup : Setup} {s t : State} {a : Action} {i : ℕ} {c : Call} {e : Expiring ℕ}
    (h : step setup s a = some t) (ha : a = .check i ∨ a = .expire i) (hc : t.calls[i]? = some c)
    (hpc : c.pc.isExpiring = false) (he : t.counter.entry t.now () = some e) :
    e.deadline ≠ none := by
  rcases ha with rfl | rfl
  · obtain ⟨old, hi, _, rfl⟩ := check_cases h
    rcases check_expiry setup hi with ⟨deadline, hd⟩ | ⟨d, hd, hexpiring⟩
    · rw [deadline_check he, hd]
      simp
    · obtain rfl := Option.some.inj (hc.symm.trans hd)
      rw [hpc] at hexpiring
      cases hexpiring
  · obtain ⟨old, count, window, _, _, rfl⟩ := expire_cases h
    simp only [passWindow_counter, passWindow_now] at he
    rw [entry_expired he]
    simp

/-- THE CONDITION: along any interleaving of calls, with their retries, in which whoever dispatches
    was within the limit of the window that is still running, no more than the limit is dispatched
    between two resets. In every run a counter without an expiry is about to get one. -/
theorem limited_run (setup : Setup) (as : List Action)
    (hok : Guarded (step setup) InWindow start as) :
    EveryStep (step setup) (Limited setup) start as := by
  have hinv : ∀ s a t, Tallied setup s ∧ Healing setup s → InWindow s a →
      step setup s a = some t → Tallied setup t ∧ Healing setup t := fun s a t hs hok h =>
    ⟨step_tallied s a t hs.1 hok h, step_healing s a t hs.2 h⟩
  refine everyStep_of_guarded hinv (fun s a t hs hok h => ?_)
    ⟨tallied_start setup, healing_start setup⟩ hok
  obtain ⟨htallied, hhealing⟩ := hinv s a t hs hok h
  exact ⟨Nat.le_of_add_right_le htallied.limit, hhealing.pending,
    fun i c e ha hc hpc he => step_healed h ha hc hpc he, hhealing.soon⟩

/-- The same of the expiry alone, with no condition. -/
theorem healing_run (setup : Setup) {as : List Action} {t : State}
    (h : runFrom (step setup) start as = some t) : Healing setup t :=
  inv_run (fun s a t => step_healing s a t) (healing_start setup) h

/-- One request a second. -/
def everySecond : Setup := ⟨1, 1, 3⟩

/-- Two requests a second. -/
def twiceASecond : Setup := ⟨2, 1, 3⟩

/-- Two calls find the counter without an expiry, both give it one, and dispatch; a third is over the
    limit and waits. In the next window the one that was told to come back takes a slot beside a
    fourth call. -/
theorem retried : EveryStep (step twiceASecond) (Limited twiceASecond) start
    [.arrive, .arrive, .arrive, .check 0, .check 1, .expire 0, .check 2, .dispatch 0, .expire 1,
      .dispatch 1, .answer 1 .transient, .answer 0 .returned, .arrive, .wait 1500, .retry 1,
      .check 3, .check 1, .expire 1, .dispatch 1, .expire 3, .dispatch 3, .answer 3 .raised] :=
  limited_run twiceASecond _ (by decide +kernel)

/-- One call is denied and sleeps until the counter is gone; then it and a third one dispatch. -/
def deniedAndNext : List Action :=
  [.arrive, .arrive, .arrive, .check 0, .expire 0, .dispatch 0, .check 1, .wait 1000, .wake 1,
    .dispatch 1, .check 2, .expire 2]

theorem two_in_a_window : ¬ ∀ as, EveryStep (step everySecond) (Limited everySecond) start as := by
  intro h
  have hsecond := EveryStep.at (h (deniedAndNext ++ [.dispatch 2]))
    (rfl : runFrom _ _ deniedAndNext = some _) rfl
  exact absurd hsecond.bound (by decide +kernel)

end LunaCore.Llm.RateLimit
