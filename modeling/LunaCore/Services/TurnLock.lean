import LunaCore.Schemes.Expiring
import LunaCore.Schemes.Machine
import LunaCore.Schemes.Parties
import Mathlib.Data.Finset.Basic

/-! The turn lock of a conversation, and the listing of a user's locks.

    `conversation_turn`:  SET NX EX ─▶ SADD ─▶ EXPIRE ─▶ the turn ─▶ SREM ─▶ GET ─▶ DELETE
    `active_turns`:       SMEMBERS ─▶ (EXISTS ─▶ count, or SREM)*

    Every arrow is a command of its own, and any other turn or count may run between two of them.
    A turn that its process died in is one that takes no further step. Leaving compares the token
    (GET) and deletes the key (DELETE) in two commands; in between, the key can run out and be
    taken by another turn. The exact condition for the lock to be exclusive is that no turn deletes
    while another one holds. -/

namespace LunaCore.Services
open LunaCore.Schemes

/-- The next command of a turn that got the lock. -/
inductive Pc where
  | adding | refreshing | running | unlisting | comparing | deleting | left
  deriving DecidableEq, Repr

/-- A caller that got the lock; its token (`uuid4`) is its place among them. -/
structure Turn where
  conversation : ℕ
  owner : Option ℕ
  ttl : ℕ
  /-- For proofs only: the moment its key runs out. -/
  deadline : ℕ
  pc : Pc
  deriving DecidableEq, Repr

/-- A call of `active_turns` past its SMEMBERS. -/
structure Count where
  owner : ℕ
  remaining : Finset ℕ
  /-- The member EXISTS found no key for, to be removed next. -/
  gone : Option ℕ
  count : ℕ
  deriving DecidableEq

/-- `conversation_turn_lock:<id>` holds a token, `user_turns:<id>` the listed locks. -/
structure Redis where
  locks : Expiries ℕ ℕ
  listings : Expiries ℕ (Finset ℕ)

structure State where
  now : ℕ
  redis : Redis
  turns : List Turn
  counts : List Count

inductive Action where
  | wait
  | enter (conversation : ℕ) (owner : Option ℕ) (ttl : ℕ)
  | advance (i : ℕ)
  | count (owner : ℕ)
  | check (k : ℕ) (member : ℕ)
  | drop (k : ℕ)
  deriving DecidableEq, Repr

/-- Nothing is locked and nothing listed. -/
def start : State := ⟨0, ⟨fun _ => none, fun _ => none⟩, [], []⟩

def State.locked (s : State) (conversation : ℕ) : Option ℕ :=
  s.redis.locks.get s.now conversation

/-- SMEMBERS. -/
def State.listing (s : State) (owner : ℕ) : Finset ℕ := s.redis.listings.members s.now owner

/-- The SET NX EX a turn enters with: a caller that does not get the lock is refused and leaves
    nothing behind. -/
def enter (s : State) (conversation : ℕ) (owner : Option ℕ) (ttl : ℕ) : Option State :=
  if ttl = 0 then none -- Redis refuses `EX 0`
  else match s.locked conversation with
    | some _ => some s
    | none => some { s with
        redis.locks := s.redis.locks.set conversation s.turns.length (some (s.now + ttl))
        turns := s.turns ++ [⟨conversation, owner, ttl, s.now + ttl,
          if owner.isSome then .adding else .running⟩] }

/-- The next command of the turn whose token is `token`. -/
def Turn.advance (redis : Redis) (now token : ℕ) (turn : Turn) : Option (Redis × Pc) :=
  match turn.pc, turn.owner with
  | .adding, some owner => some
      ({ redis with listings := redis.listings.addMembers now owner {turn.conversation} },
        .refreshing)
  | .refreshing, some owner => some
      ({ redis with listings := redis.listings.expire now owner (now + turn.ttl) }, .running)
  | .running, some _ => some (redis, .unlisting)
  | .running, none => some (redis, .comparing)
  | .unlisting, some owner => some
      ({ redis with listings := redis.listings.dropMember now owner turn.conversation },
        .comparing)
  | .comparing, _ => some
      (redis, if redis.locks.get now turn.conversation = some token then .deleting else .left)
  | .deleting, _ => some ({ redis with locks := redis.locks.delete turn.conversation }, .left)
  | _, _ => none

/-- EXISTS of one listed lock. -/
def Count.check (s : State) (c : Count) (member : ℕ) : Option Count :=
  if c.gone = none ∧ member ∈ c.remaining then
    if (s.locked member).isSome then
      some { c with remaining := c.remaining.erase member, count := c.count + 1 }
    else some { c with remaining := c.remaining.erase member, gone := some member }
  else none

def step (s : State) : Action → Option State
  | .wait => some { s with now := s.now + 1 }
  | .enter conversation owner ttl => enter s conversation owner ttl
  | .advance i => (s.turns[i]?).bind fun turn =>
      (turn.advance s.redis s.now i).map fun r =>
        { s with redis := r.1, turns := s.turns.set i { turn with pc := r.2 } }
  | .count owner => some { s with counts := s.counts ++ [⟨owner, s.listing owner, none, 0⟩] }
  | .check k member => (s.counts[k]?).bind fun c =>
      (c.check s member).map fun d => { s with counts := s.counts.set k d }
  | .drop k => (s.counts[k]?).bind fun c => c.gone.map fun member =>
      { s with
        redis.listings := s.redis.listings.dropMember s.now c.owner member
        counts := s.counts.set k { c with gone := none } }

/-! ### What a step does to the locks -/

/-- A turn's command leaves the locks alone, except the DELETE it leaves with. -/
theorem advance_locks {redis : Redis} {now token : ℕ} {turn : Turn} {r : Redis × Pc}
    (h : turn.advance redis now token = some r) :
    (turn.pc ≠ .left ∧ turn.pc ≠ .deleting ∧ r.1.locks = redis.locks ∧ (r.2 = .left →
        redis.locks.get now turn.conversation ≠ some token)) ∨
      (turn.pc = .deleting ∧ r = ({ redis with
        locks := redis.locks.delete turn.conversation }, .left)) := by
  unfold Turn.advance at h
  split at h
  case h_6 hpc =>
    obtain rfl := Option.some.inj h
    refine .inl ⟨by simp [hpc], by simp [hpc], rfl, fun hleft heq => ?_⟩
    rw [if_pos heq] at hleft
    cases hleft
  case h_7 hpc =>
    obtain rfl := Option.some.inj h
    exact .inr ⟨hpc, rfl⟩
  case h_8 => cases h
  all_goals
    rename_i hpc _
    obtain rfl := Option.some.inj h
    exact .inl ⟨by simp [hpc], by simp [hpc], rfl, by simp⟩

theorem advance_cases {s t : State} {i : ℕ} (h : step s (.advance i) = some t) :
    ∃ turn r, s.turns[i]? = some turn ∧ turn.advance s.redis s.now i = some r ∧
      t = { s with redis := r.1, turns := s.turns.set i { turn with pc := r.2 } } := by
  obtain ⟨turn, hturn, h⟩ := Option.bind_eq_some_iff.mp h
  obtain ⟨r, hr, rfl⟩ := Option.map_eq_some_iff.mp h
  exact ⟨turn, r, hturn, hr, rfl⟩

theorem enter_cases {s t : State} {conversation ttl : ℕ} {owner : Option ℕ}
    (h : step s (.enter conversation owner ttl) = some t) :
    t = s ∨ (0 < ttl ∧ s.locked conversation = none ∧ t = { s with
      redis.locks := s.redis.locks.set conversation s.turns.length (some (s.now + ttl))
      turns := s.turns ++ [⟨conversation, owner, ttl, s.now + ttl,
        if owner.isSome then .adding else .running⟩] }) := by
  simp only [step, enter] at h
  split at h
  case isTrue => cases h
  case isFalse httl =>
    split at h
    case h_1 => exact .inl (Option.some.inj h).symm
    case h_2 hfree => exact .inr ⟨Nat.pos_of_ne_zero httl, hfree, (Option.some.inj h).symm⟩

theorem check_cases {s t : State} {k member : ℕ} (h : step s (.check k member) = some t) :
    ∃ c d, s.counts[k]? = some c ∧ c.check s member = some d ∧
      t = { s with counts := s.counts.set k d } := by
  obtain ⟨c, hc, h⟩ := Option.bind_eq_some_iff.mp h
  obtain ⟨d, hd, rfl⟩ := Option.map_eq_some_iff.mp h
  exact ⟨c, d, hc, hd, rfl⟩

theorem drop_cases {s t : State} {k : ℕ} (h : step s (.drop k) = some t) :
    ∃ c member, s.counts[k]? = some c ∧ c.gone = some member ∧ t = { s with
      redis.listings := s.redis.listings.dropMember s.now c.owner member
      counts := s.counts.set k { c with gone := none } } := by
  obtain ⟨c, hc, h⟩ := Option.bind_eq_some_iff.mp h
  obtain ⟨member, hgone, rfl⟩ := Option.map_eq_some_iff.mp h
  exact ⟨c, member, hc, hgone, rfl⟩

/-! ### Who holds the lock -/

/-- The turn has not left, and the time it got the lock for has not passed. -/
def Turn.Holds (turn : Turn) (now : ℕ) : Prop := turn.pc ≠ .left ∧ now < turn.deadline

instance (turn : Turn) (now : ℕ) : Decidable (turn.Holds now) :=
  inferInstanceAs (Decidable (_ ∧ _))

/-- A step in which a turn leaves takes no other turn's lock, and after it whoever holds a lock has
    its key, so that no two turns of a conversation hold. -/
structure Exclusive (s : State) (a : Action) (t : State) : Prop where
  own : ∀ i conversation j, a = .advance i → s.locked conversation = some j →
    t.locked conversation = none → j = i
  kept : ∀ (i : ℕ) (turn : Turn), t.turns[i]? = some turn → turn.Holds t.now →
    t.locked turn.conversation = some i
  alone : ∀ (i j : ℕ) (v w : Turn), t.turns[i]? = some v → t.turns[j]? = some w →
    v.conversation = w.conversation → v.Holds t.now → w.Holds t.now → i = j

/-- No turn sends its DELETE while another turn of the conversation holds the lock. -/
def NotOvertaken (s : State) (a : Action) : Prop :=
  match a with
  | .advance i => ∀ (turn : Turn), s.turns[i]? = some turn → turn.pc = .deleting →
      ∀ (j : ℕ) (other : Turn), s.turns[j]? = some other →
        other.conversation = turn.conversation → other.Holds s.now → j = i
  | _ => True

/-- A key is some turn's, with its deadline, and while it is live that turn has not left; and a
    turn that holds has its key. -/
structure Locked (s : State) : Prop where
  issued : ∀ c e, s.redis.locks c = some e → ∃ turn : Turn, s.turns[e.value]? = some turn ∧
    turn.conversation = c ∧ e.deadline = some turn.deadline ∧
      (e.live s.now = true → turn.pc ≠ .left)
  kept : ∀ (i : ℕ) (turn : Turn), s.turns[i]? = some turn → turn.Holds s.now →
    s.redis.locks turn.conversation = some ⟨i, some turn.deadline⟩

theorem locked_start : Locked start :=
  ⟨by simp [start], by simp [start]⟩

theorem Locked.locked {s : State} {i : ℕ} {turn : Turn} (hs : Locked s)
    (hi : s.turns[i]? = some turn) (h : turn.Holds s.now) :
    s.locked turn.conversation = some i :=
  Expiries.get_eq_some_iff.mpr ⟨_, Expiries.entry_eq_some_iff.mpr
    ⟨hs.kept i turn hi h, decide_eq_true h.2⟩, rfl⟩

/-- A live key is the key of a turn that holds. -/
theorem Locked.holder {s : State} {c i : ℕ} (hs : Locked s) (h : s.locked c = some i) :
    ∃ turn : Turn, s.turns[i]? = some turn ∧ turn.conversation = c ∧ turn.Holds s.now := by
  obtain ⟨e, he, rfl⟩ := Expiries.get_eq_some_iff.mp h
  obtain ⟨hk, hlive⟩ := Expiries.entry_eq_some_iff.mp he
  obtain ⟨turn, hturn, hc, hd, hleft⟩ := hs.issued c e hk
  refine ⟨turn, hturn, hc, hleft hlive, ?_⟩
  rw [Expiring.live, hd] at hlive
  exact of_decide_eq_true hlive

/-- Steps that leave the locks, the turns and the time alone. -/
theorem Locked.same {s t : State} (hs : Locked s) (hnow : t.now = s.now)
    (hlocks : t.redis.locks = s.redis.locks) (hturns : t.turns = s.turns) : Locked t := by
  refine ⟨?_, ?_⟩
  · rw [hnow, hlocks, hturns]
    exact hs.issued
  · rw [hnow, hlocks, hturns]
    exact hs.kept

theorem Locked.wait {s : State} (hs : Locked s) : Locked { s with now := s.now + 1 } := by
  refine ⟨fun c e he => ?_, fun i turn hi h => ?_⟩
  · obtain ⟨turn, hturn, hc, hd, hleft⟩ := hs.issued c e he
    exact ⟨turn, hturn, hc, hd, fun hlive => hleft (Expiries.live_le (Nat.le_succ _) hlive)⟩
  · exact hs.kept i turn hi ⟨h.1, Nat.lt_of_succ_lt h.2⟩

/-- Getting the lock: the key was free, so nobody held it. -/
theorem Locked.enter {s : State} {c ttl : ℕ} {owner : Option ℕ} {pc : Pc} (hs : Locked s)
    (hfree : s.locked c = none) (hpc : pc ≠ .left) : Locked { s with
      redis.locks := s.redis.locks.set c s.turns.length (some (s.now + ttl))
      turns := s.turns ++ [⟨c, owner, ttl, s.now + ttl, pc⟩] } := by
  refine ⟨fun d e he => ?_, forall_joined (fun i turn hi h => ?_) fun _ => ?_⟩
  · by_cases hd : d = c
    · subst hd
      simp only [Expiries.set, Function.update_self, Option.some.injEq] at he
      subst he
      exact ⟨_, List.getElem?_concat_length, rfl, rfl, fun _ => hpc⟩
    · simp only [Expiries.set_other hd] at he
      obtain ⟨turn, hturn, hrest⟩ := hs.issued d e he
      exact ⟨turn, joined_old _ hturn, hrest⟩
  · have hne : turn.conversation ≠ c := by
      rintro rfl
      rw [hs.locked hi h] at hfree
      cases hfree
    exact (Expiries.set_other hne _).trans (hs.kept i turn hi h)
  · simp only [Expiries.set, Function.update_self]

/-- A command that leaves the locks alone. -/
theorem Locked.move {s : State} {i : ℕ} {turn : Turn} {redis : Redis} {pc : Pc} (hs : Locked s)
    (hi : s.turns[i]? = some turn) (hpc : turn.pc ≠ .left) (hlocks : redis.locks = s.redis.locks)
    (hleft : pc = .left → s.locked turn.conversation ≠ some i) :
    Locked { s with redis := redis, turns := s.turns.set i { turn with pc := pc } } := by
  refine ⟨fun c e he => ?_, forall_moved (fun j other hj h => ?_) fun h => ?_⟩
  · rw [hlocks] at he
    obtain ⟨other, hother, hc, hd, hlive⟩ := hs.issued c e he
    by_cases hij : i = e.value
    · subst hij
      obtain rfl := Option.some.inj (hi.symm.trans hother)
      refine ⟨_, moved_self _ hi, hc, hd, fun hl hgone => hleft hgone ?_⟩
      exact Expiries.get_eq_some_iff.mpr ⟨e, Expiries.entry_eq_some_iff.mpr ⟨hc ▸ he, hl⟩, rfl⟩
    · exact ⟨other, (moved_other _ hij).trans hother, hc, hd, hlive⟩
  · rw [hlocks]
    exact hs.kept j other hj h
  · rw [hlocks]
    exact hs.kept i turn hi ⟨hpc, h.2⟩

/-- The DELETE of a turn nobody has overtaken. -/
theorem Locked.delete {s : State} {i : ℕ} {turn : Turn} (hs : Locked s)
    (hi : s.turns[i]? = some turn) (halone : ∀ (j : ℕ) (other : Turn), s.turns[j]? = some other →
      other.conversation = turn.conversation → other.Holds s.now → j = i) :
    Locked { s with
      redis.locks := s.redis.locks.delete turn.conversation
      turns := s.turns.set i { turn with pc := .left } } := by
  refine ⟨fun c e he => ?_, fun j other hj h => ?_⟩
  · have hne : c ≠ turn.conversation := by
      rintro rfl
      simp [Expiries.delete] at he
    simp only [Expiries.delete_other hne] at he
    obtain ⟨other, hother, hc, hrest⟩ := hs.issued c e he
    have hij : i ≠ e.value := by
      rintro rfl
      obtain rfl := Option.some.inj (hi.symm.trans hother)
      exact hne hc.symm
    exact ⟨other, (moved_other _ hij).trans hother, hc, hrest⟩
  · rcases moved_cases hj with ⟨rfl, rfl⟩ | ⟨hij, hold⟩
    · exact absurd rfl h.1
    · have hne : other.conversation ≠ turn.conversation := fun heq =>
        hij (halone j other hold heq h).symm
      exact (Expiries.delete_other hne).trans (hs.kept j other hold h)

/-- STEP LEMMA: a step that overtakes nobody keeps the locks with their turns. -/
theorem step_locked (s : State) (a : Action) (t : State) (hs : Locked s) (hok : NotOvertaken s a)
    (h : step s a = some t) : Locked t := by
  cases a with
  | wait =>
    obtain rfl := Option.some.inj h
    exact hs.wait
  | enter conversation owner ttl =>
    rcases enter_cases h with rfl | ⟨_, hfree, rfl⟩
    · exact hs
    · exact hs.enter hfree (by split <;> simp)
  | advance i =>
    obtain ⟨turn, r, hi, hr, rfl⟩ := advance_cases h
    rcases advance_locks hr with ⟨hpc, _, hlocks, hleft⟩ | ⟨hpc, rfl⟩
    · exact hs.move hi hpc hlocks hleft
    · exact hs.delete hi (hok turn hi hpc)
  | count owner =>
    obtain rfl := Option.some.inj h
    exact hs.same rfl rfl rfl
  | check k member =>
    obtain ⟨c, d, _, _, rfl⟩ := check_cases h
    exact hs.same rfl rfl rfl
  | drop k =>
    obtain ⟨c, member, _, _, rfl⟩ := drop_cases h
    exact hs.same rfl rfl rfl

/-- Only a DELETE takes a lock while no time passes. -/
theorem own_of_locked {s t : State} {i c j : ℕ} (hs : Locked s)
    (hok : NotOvertaken s (.advance i)) (h : step s (.advance i) = some t)
    (hheld : s.locked c = some j) (hfree : t.locked c = none) : j = i := by
  obtain ⟨turn, r, hi, hr, rfl⟩ := advance_cases h
  rcases advance_locks hr with ⟨_, _, hlocks, _⟩ | ⟨hpc, rfl⟩
  · rw [State.locked, hlocks] at hfree
    rw [State.locked, hfree] at hheld
    cases hheld
  · obtain ⟨other, hj, hc, hholds⟩ := hs.holder hheld
    by_cases heq : c = turn.conversation
    · exact hok turn hi hpc j other hj (hc.trans heq) hholds
    · rw [State.locked, Expiries.get_delete_other heq] at hfree
      rw [State.locked, hfree] at hheld
      cases hheld

theorem exclusive_iff (s : State) (a : Action) (t : State) (hs : Locked s)
    (h : step s a = some t) : Exclusive s a t ↔ NotOvertaken s a := by
  constructor
  · intro hex
    cases a with
    | advance i =>
      intro turn hi hpc j other hj hc hholds
      obtain ⟨turn', r, hi', hr, rfl⟩ := advance_cases h
      obtain rfl := Option.some.inj (hi.symm.trans hi')
      rcases advance_locks hr with ⟨_, hnot, _⟩ | ⟨_, rfl⟩
      · exact absurd hpc hnot
      · exact hex.own i turn.conversation j rfl (hc ▸ hs.locked hj hholds)
          Expiries.get_delete_self
    | _ => exact trivial
  · intro hok
    have ht : Locked t := step_locked s a t hs hok h
    refine ⟨?_, fun i turn hi hholds => ht.locked hi hholds, ?_⟩
    · rintro i c j rfl hheld hfree
      exact own_of_locked hs hok h hheld hfree
    · intro i j v w hi hj hc hv hw
      have hboth := ht.locked hi hv
      rw [hc, ht.locked hj hw] at hboth
      exact (Option.some.inj hboth).symm

/-- EXACT CONDITION: along any interleaving of turns and counts, leaving removes no lock but the
    leaver's own and no two turns of a conversation hold it, just when no turn sends its DELETE
    while another one holds. -/
theorem exclusive_run_iff (as : List Action) :
    EveryStep step Exclusive start as ↔ Guarded step NotOvertaken start as :=
  everyStep_iff_guarded step_locked exclusive_iff locked_start

/-- A turn compares, its time passes, the next turn gets the lock, and the first one deletes it. -/
def overtaking : List Action :=
  [.enter 0 none 1, .advance 0, .advance 0, .wait, .enter 0 none 1]

theorem overtaken : ¬ ∀ as, EveryStep step Exclusive start as := by
  intro h
  have hdelete := EveryStep.at (h (overtaking ++ [.advance 0]))
    (rfl : runFrom _ _ overtaking = some _) rfl
  exact absurd (hdelete.own 0 0 1 rfl rfl rfl) (by decide)

end LunaCore.Services
