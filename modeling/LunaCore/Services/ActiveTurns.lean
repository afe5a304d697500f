import LunaCore.Services.TurnLock
import Mathlib.Data.Finset.Card

/-! Is the number `active_turns` gives the number of turns a user has running?

    `user_turns:<id>` lists lock keys, not turns, and successive turns of one conversation share a
    key. A turn that outlived its lock takes its successor's listing away when it leaves, as the
    SREM looks at no token; so does a count whose EXISTS came before the successor; the listing has
    a TTL of its own that the last turn to enter sets; and a listing left behind counts whoever has
    the key next. The exact condition rules these out one by one. -/

namespace LunaCore.Services
open LunaCore.Schemes

/-- The turn has added its key to its owner's listing and not yet taken it out. -/
def Pc.listed : Pc → Bool
  | .refreshing | .running | .unlisting => true
  | _ => false

/-- The turn whose token the lock of the conversation has. -/
def State.holder (s : State) (c : ℕ) : Option Turn := (s.locked c).bind (s.turns[·]?)

/-- The conversation's lock is held by a turn listed for the user. -/
def State.Held (s : State) (u c : ℕ) : Prop :=
  ∃ turn ∈ s.holder c, turn.owner = some u ∧ turn.pc.listed = true

instance (s : State) (u c : ℕ) : Decidable (s.Held u c) :=
  inferInstanceAs (Decidable (∃ turn ∈ s.holder c, _))

/-- What a call of `active_turns` gives that nothing comes between. -/
def State.activeTurns (s : State) (u : ℕ) : ℕ :=
  ((s.listing u).filter fun c => (s.locked c).isSome).card

/-- How many conversations have their lock held by a turn listed for the user. -/
def State.heldTurns (s : State) (u : ℕ) : ℕ :=
  ((s.turns.map Turn.conversation).toFinset.filter (s.Held u)).card

/-! ### A count nobody comes between -/

/-- The commands that look at the members in turn. -/
def alone (s : State) (k : ℕ) (members : List ℕ) : List Action :=
  members.flatMap fun m => if (s.locked m).isSome then [.check k m] else [.check k m, .drop k]

/-- A count that looks at its members one after another adds up those whose lock is there. -/
theorem runFrom_alone {k u : ℕ} : ∀ (members : List ℕ) (s : State) (n : ℕ), members.Nodup →
    s.counts[k]? = some ⟨u, members.toFinset, none, n⟩ →
      ∃ t, runFrom step s (alone s k members) = some t ∧ t.counts[k]? =
        some ⟨u, ∅, none, n + (members.toFinset.filter fun c => (s.locked c).isSome).card⟩ := by
  intro members
  induction members with
  | nil =>
    intro s n _ hk
    exact ⟨s, rfl, by simpa using hk⟩
  | cons m members ih =>
    intro s n hnodup hk
    obtain ⟨hnot, hnodup⟩ := List.nodup_cons.mp hnodup
    have hrest : (m :: members).toFinset.erase m = members.toFinset := by
      rw [List.toFinset_cons, Finset.erase_insert (by simpa using hnot)]
    have hmem : m ∈ (m :: members).toFinset := by simp
    by_cases hlock : (s.locked m).isSome
    · -- the key is there and is counted
      have hcheck : step s (.check k m) = some { s with
          counts := s.counts.set k ⟨u, members.toFinset, none, n + 1⟩ } := by
        simp [step, hk, Count.check, hlock, hrest, -List.toFinset_cons, hmem]
      obtain ⟨t, ht, hcount⟩ := ih { s with
        counts := s.counts.set k ⟨u, members.toFinset, none, n + 1⟩ } (n + 1) hnodup
        (moved_self _ hk)
      refine ⟨t, ?_, ?_⟩
      · rw [alone, List.flatMap_cons, if_pos hlock, List.singleton_append, runFrom_cons, hcheck]
        exact ht
      · rw [hcount, List.toFinset_cons, Finset.filter_insert, if_pos hlock,
          Finset.card_insert_of_notMem (by simp [hnot]), Nat.add_assoc, Nat.add_comm 1]
        rfl
    · -- the key is gone, and so is its listing after the next command
      have hcheck : step s (.check k m) = some { s with
          counts := s.counts.set k ⟨u, members.toFinset, some m, n⟩ } := by
        simp [step, hk, Count.check, hlock, hrest, -List.toFinset_cons, hmem]
      have hdrop : step { s with counts := s.counts.set k ⟨u, members.toFinset, some m, n⟩ }
          (.drop k) = some { s with
            redis.listings := s.redis.listings.dropMember s.now u m
            counts := (s.counts.set k ⟨u, members.toFinset, some m, n⟩).set k
              ⟨u, members.toFinset, none, n⟩ } := by
        simp [step, moved_self _ hk]
      obtain ⟨t, ht, hcount⟩ := ih { s with
        redis.listings := s.redis.listings.dropMember s.now u m
        counts := (s.counts.set k ⟨u, members.toFinset, some m, n⟩).set k
          ⟨u, members.toFinset, none, n⟩ } n hnodup (moved_self _ (moved_self _ hk))
      refine ⟨t, ?_, ?_⟩
      · rw [alone, List.flatMap_cons, if_neg hlock, List.cons_append, List.singleton_append,
          runFrom_cons, hcheck, Option.bind_some, runFrom_cons, hdrop]
        exact ht
      · rw [hcount, List.toFinset_cons, Finset.filter_insert, if_neg hlock]
        rfl

/-- A call of `active_turns` that runs by itself gives `activeTurns`. -/
theorem activeTurns_alone (s : State) (u : ℕ) (members : List ℕ) (hnodup : members.Nodup)
    (hmem : members.toFinset = s.listing u) :
    ∃ t, runFrom step s (.count u :: alone s s.counts.length members) = some t ∧
      t.counts[s.counts.length]? = some ⟨u, ∅, none, s.activeTurns u⟩ := by
  obtain ⟨t, ht, hcount⟩ := runFrom_alone (k := s.counts.length) (u := u) members
    { s with counts := s.counts ++ [⟨u, s.listing u, none, 0⟩] } 0 hnodup
    (by rw [List.getElem?_concat_length, hmem])
  refine ⟨t, ht, ?_⟩
  rw [hcount, hmem, Nat.zero_add]
  rfl

/-! ### The listings and the locks -/

/-- A user's listing has, among the locks that are there, those held by a turn listed for the
    user. -/
def Lawful (s : State) : Prop :=
  ∀ u c, (c ∈ s.listing u ∧ (s.locked c).isSome) ↔ s.Held u c

/-- A step after which the listings say who holds, and in which a count counts the member it looks
    at just when a turn listed for the user holds it. -/
structure Counted (s : State) (a : Action) (t : State) : Prop where
  number : ∀ u, t.activeTurns u = t.heldTurns u
  missing : ∀ u c, t.Held u c → c ∈ t.listing u
  finished : ∀ u, ∀ c ∈ t.listing u, (t.locked c).isSome → t.Held u c
  checked : ∀ (k member : ℕ) (c d : Count), a = .check k member → s.counts[k]? = some c →
    t.counts[k]? = some d → (d.count = c.count + 1 ↔ s.Held c.owner member)

/-- Time does not run out for a listing with a live lock in it; a lock that is taken is listed
    nowhere; a turn lists its key while that is its own, free, or held by another turn listed for
    the user; no SREM takes a key that another turn listed for the user holds; and a count looks at
    a member that is still listed, or whose lock is free. -/
def NoLeftover (s : State) (a : Action) : Prop :=
  match a with
  | .wait => ∀ u, ∀ c ∈ s.listing u, s.redis.listings.get (s.now + 1) u = none →
      s.redis.locks.get (s.now + 1) c = none
  | .enter c _ ttl => 0 < ttl → s.locked c = none → ∀ u, c ∉ s.listing u
  | .advance i => ∀ (turn : Turn), s.turns[i]? = some turn → ∀ u, turn.owner = some u →
      (turn.pc = .adding → (s.locked turn.conversation).isSome →
        s.locked turn.conversation = some i ∨ s.Held u turn.conversation) ∧
      (turn.pc = .unlisting → s.Held u turn.conversation → s.locked turn.conversation = some i)
  | .count _ => True
  | .check k member => ∀ (c : Count), s.counts[k]? = some c → (s.locked member).isSome →
      member ∈ s.listing c.owner
  | .drop k => ∀ (c : Count), s.counts[k]? = some c → ∀ m, c.gone = some m → ¬ s.Held c.owner m

/-- A key is some turn's of its conversation, and turns enter for some time. -/
structure Issued (s : State) : Prop where
  turn : ∀ c e, s.redis.locks c = some e →
    ∃ turn : Turn, s.turns[e.value]? = some turn ∧ turn.conversation = c
  ttl : ∀ (i : ℕ) (turn : Turn), s.turns[i]? = some turn → 0 < turn.ttl

theorem Issued.locked {s : State} {c i : ℕ} (hs : Issued s) (h : s.locked c = some i) :
    ∃ turn : Turn, s.turns[i]? = some turn ∧ turn.conversation = c := by
  obtain ⟨e, he, rfl⟩ := Expiries.get_eq_some_iff.mp h
  exact hs.turn c e (Expiries.entry_eq_some_iff.mp he).1

theorem held_iff {s : State} {u c : ℕ} : s.Held u c ↔ ∃ (i : ℕ) (turn : Turn),
    s.locked c = some i ∧ s.turns[i]? = some turn ∧ turn.owner = some u ∧
      turn.pc.listed = true := by
  unfold State.Held State.holder
  constructor
  · rintro ⟨turn, hturn, hrest⟩
    obtain ⟨i, hi, hturn⟩ := Option.bind_eq_some_iff.mp hturn
    exact ⟨i, turn, hi, hturn, hrest⟩
  · rintro ⟨i, turn, hi, hturn, hrest⟩
    exact ⟨turn, Option.bind_eq_some_iff.mpr ⟨i, hi, hturn⟩, hrest⟩

theorem Held.locked {s : State} {u c : ℕ} (h : s.Held u c) : (s.locked c).isSome := by
  obtain ⟨i, _, hi, _⟩ := held_iff.mp h
  rw [hi]
  rfl

/-- Where the law holds, the two numbers agree. -/
theorem Lawful.number {s : State} (hs : Issued s) (h : Lawful s) (u : ℕ) :
    s.activeTurns u = s.heldTurns u := by
  unfold State.activeTurns State.heldTurns
  congr 1
  ext c
  rw [Finset.mem_filter, Finset.mem_filter, h u c, List.mem_toFinset]
  refine ⟨fun hheld => ⟨?_, hheld⟩, And.right⟩
  obtain ⟨i, turn, hi, hturn, _⟩ := held_iff.mp hheld
  obtain ⟨turn', hturn', hc⟩ := hs.locked hi
  exact List.mem_map.mpr ⟨turn', List.mem_of_getElem? hturn', hc⟩

/-! ### What each step does to the law -/

/-- Who holds after a turn moved on, its lock or another's. -/
theorem held_move {s : State} {i u c : ℕ} {turn : Turn} {redis : Redis} {pc : Pc}
    (hi : s.turns[i]? = some turn) (hlocks : redis.locks = s.redis.locks) :
    State.Held { s with redis := redis, turns := s.turns.set i { turn with pc := pc } } u c ↔
      (s.locked c = some i ∧ turn.owner = some u ∧ pc.listed = true) ∨
        (s.locked c ≠ some i ∧ s.Held u c) := by
  rw [held_iff, held_iff]
  have hlocked : State.locked { s with
      redis := redis, turns := s.turns.set i { turn with pc := pc } } c = s.locked c := by
    rw [State.locked, hlocks, State.locked]
  rw [hlocked]
  constructor
  · rintro ⟨j, other, hj, hother, hrest⟩
    rcases moved_cases hother with ⟨rfl, rfl⟩ | ⟨hij, hold⟩
    · exact .inl ⟨hj, hrest⟩
    · exact .inr ⟨fun hself => hij (Option.some.inj (hself.symm.trans hj)),
        j, other, hj, hold, hrest⟩
  · rintro (⟨hj, hrest⟩ | ⟨hne, j, other, hj, hother, hrest⟩)
    · exact ⟨i, _, hj, moved_self _ hi, hrest⟩
    · have hij : i ≠ j := by
        rintro rfl
        exact hne hj
      exact ⟨j, other, hj, (moved_other _ hij).trans hother, hrest⟩

/-- A turn holds its lock as it did, where the move does not change whether it is listed. -/
theorem held_quiet {s : State} {i u c : ℕ} {turn : Turn} {redis : Redis} {pc : Pc}
    (hi : s.turns[i]? = some turn) (hlocks : redis.locks = s.redis.locks)
    (hlisted : turn.owner = some u → pc.listed = turn.pc.listed) :
    State.Held { s with redis := redis, turns := s.turns.set i { turn with pc := pc } } u c ↔
      s.Held u c := by
  rw [held_move hi hlocks]
  by_cases hself : s.locked c = some i
  · rw [held_iff]
    constructor
    · rintro (⟨_, howner, hpc⟩ | ⟨hne, _⟩)
      · exact ⟨i, turn, hself, hi, howner, hlisted howner ▸ hpc⟩
      · exact absurd hself hne
    · rintro ⟨j, other, hj, hother, howner, hpc⟩
      obtain rfl := Option.some.inj (hself.symm.trans hj)
      obtain rfl := Option.some.inj (hi.symm.trans hother)
      exact .inl ⟨hself, howner, (hlisted howner).trans hpc⟩
  · simp [hself]

theorem lawful_wait_iff {s : State} (hs : Lawful s) :
    Lawful { s with now := s.now + 1 } ↔ NoLeftover s .wait := by
  have hlater {u c : ℕ} : State.Held { s with now := s.now + 1 } u c ↔
      (s.redis.locks.get (s.now + 1) c).isSome ∧ s.Held u c := by
    rw [held_iff, held_iff]
    constructor
    · rintro ⟨i, turn, hi, hrest⟩
      exact ⟨Option.isSome_iff_exists.mpr ⟨i, hi⟩, i, turn,
        Expiries.get_le (Nat.le_succ _) hi, hrest⟩
    · rintro ⟨hsome, i, turn, hi, hrest⟩
      obtain ⟨j, hj⟩ := Option.isSome_iff_exists.mp hsome
      obtain rfl := Option.some.inj ((Expiries.get_le (Nat.le_succ _) hj).symm.trans hi)
      exact ⟨j, turn, hj, hrest⟩
  have hmem {u c : ℕ} : c ∈ State.listing { s with now := s.now + 1 } u ↔
      c ∈ s.listing u ∧ s.redis.listings.get (s.now + 1) u ≠ none :=
    Expiries.mem_members_later (Nat.le_succ _)
  constructor
  · intro ht u c hc hgone
    by_contra hlive
    have hsome := Option.isSome_iff_ne_none.mpr hlive
    obtain ⟨j, hj⟩ := Option.isSome_iff_exists.mp hsome
    have hheld : s.Held u c := (hs u c).mp ⟨hc, Option.isSome_iff_exists.mpr
      ⟨j, Expiries.get_le (Nat.le_succ _) hj⟩⟩
    exact (hmem.mp ((ht u c).mpr (hlater.mpr ⟨hsome, hheld⟩)).1).2 hgone
  · intro hok u c
    rw [hlater, hmem]
    constructor
    · rintro ⟨⟨hc, _⟩, hsome⟩
      obtain ⟨i, hi⟩ := Option.isSome_iff_exists.mp hsome
      exact ⟨hsome, (hs u c).mp ⟨hc, Option.isSome_iff_exists.mpr
        ⟨i, Expiries.get_le (Nat.le_succ _) hi⟩⟩⟩
    · rintro ⟨hsome, hheld⟩
      have hc := ((hs u c).mpr hheld).1
      refine ⟨⟨hc, fun hgone => ?_⟩, hsome⟩
      rw [hok u c hc hgone] at hsome
      cases hsome

/-- Taking a free lock, which no turn listed for anybody holds yet. -/
theorem lawful_enter_iff {s : State} {c ttl : ℕ} {owner : Option ℕ} (hissued : Issued s)
    (hs : Lawful s) (httl : 0 < ttl) (hfree : s.locked c = none) :
    Lawful { s with
      redis.locks := s.redis.locks.set c s.turns.length (some (s.now + ttl))
      turns := s.turns ++ [⟨c, owner, ttl, s.now + ttl,
        if owner.isSome then .adding else .running⟩] } ↔ ∀ u, c ∉ s.listing u := by
  set t : State := { s with
    redis.locks := s.redis.locks.set c s.turns.length (some (s.now + ttl))
    turns := s.turns ++ [⟨c, owner, ttl, s.now + ttl,
      if owner.isSome then .adding else .running⟩] } with ht
  have hself : t.locked c = some s.turns.length :=
    Expiries.get_set_self (Nat.lt_add_of_pos_right httl)
  have hother {d : ℕ} (hd : d ≠ c) : t.locked d = s.locked d := Expiries.get_set_other hd _
  have hnone (u : ℕ) : ¬ t.Held u c := by
    rw [held_iff]
    rintro ⟨i, turn, hi, hturn, howner, hpc⟩
    obtain rfl := Option.some.inj (hself.symm.trans hi)
    rw [List.getElem?_concat_length] at hturn
    obtain rfl := Option.some.inj hturn
    cases owner with
    | none => cases howner
    | some _ => simp [Pc.listed] at hpc
  have hheld {u d : ℕ} (hd : d ≠ c) : t.Held u d ↔ s.Held u d := by
    rw [held_iff, held_iff, hother hd]
    constructor
    · rintro ⟨i, turn, hi, hturn, hrest⟩
      obtain ⟨old, hold, _⟩ := hissued.locked hi
      obtain rfl := Option.some.inj ((joined_old _ hold).symm.trans hturn)
      exact ⟨i, old, hi, hold, hrest⟩
    · rintro ⟨i, turn, hi, hturn, hrest⟩
      exact ⟨i, turn, hi, joined_old _ hturn, hrest⟩
  constructor
  · intro hlaw u hc
    exact hnone u ((hlaw u c).mp ⟨hc, by simp [hself]⟩)
  · intro hok u d
    by_cases hd : d = c
    · subst hd
      exact ⟨fun h => absurd h.1 (hok u), fun h => absurd h (hnone u)⟩
    · rw [hheld hd, hother hd]
      exact hs u d

/-- Listing the key says of it that whoever has it is listed for the user. -/
theorem lawful_add_iff {s : State} {i u : ℕ} {turn : Turn} (hissued : Issued s) (hs : Lawful s)
    (hi : s.turns[i]? = some turn) (howner : turn.owner = some u) (hpc : turn.pc = .adding) :
    Lawful { s with
      redis.listings := s.redis.listings.addMembers s.now u {turn.conversation}
      turns := s.turns.set i { turn with pc := .refreshing } } ↔
      ((s.locked turn.conversation).isSome →
        s.locked turn.conversation = some i ∨ s.Held u turn.conversation) := by
  have hheld {v c : ℕ} : State.Held { s with
      redis.listings := s.redis.listings.addMembers s.now u {turn.conversation}
      turns := s.turns.set i { turn with pc := .refreshing } } v c ↔
      (s.locked c = some i ∧ v = u) ∨ s.Held v c := by
    refine (held_move hi rfl).trans ?_
    have hnot : s.locked c = some i → ¬ s.Held v c := by
      intro hself hheld
      obtain ⟨j, other, hj, hother, _, hlisted⟩ := held_iff.mp hheld
      obtain rfl := Option.some.inj (hself.symm.trans hj)
      obtain rfl := Option.some.inj (hi.symm.trans hother)
      simp [hpc, Pc.listed] at hlisted
    simp only [howner, Option.some.injEq, Pc.listed, and_true, eq_comm (a := u) (b := v)]
    constructor
    · exact Or.imp_right And.right
    · exact Or.imp_right fun hheld => ⟨fun hself => hnot hself hheld, hheld⟩
  constructor
  · intro hlaw hsome
    have hmem := (hlaw u turn.conversation).mp
      ⟨Expiries.mem_addMembers_iff.mpr (.inr ⟨rfl, Finset.mem_singleton_self _⟩), hsome⟩
    exact (hheld.mp hmem).imp_left And.left
  · intro hok v c
    rw [hheld, ← hs v c]
    constructor
    · rintro ⟨hmem, hsome⟩
      rcases Expiries.mem_addMembers_iff.mp hmem with hold | ⟨rfl, hself⟩
      · exact .inr ⟨hold, hsome⟩
      · obtain rfl := Finset.mem_singleton.mp hself
        rw [hs v turn.conversation]
        exact (hok hsome).imp_left fun hself => ⟨hself, rfl⟩
    · rintro (⟨hself, rfl⟩ | ⟨hold, hsome⟩)
      · obtain ⟨other, hother, hc⟩ := hissued.locked hself
        obtain rfl := Option.some.inj (hi.symm.trans hother)
        exact ⟨Expiries.mem_addMembers_iff.mpr (.inr ⟨rfl, Finset.mem_singleton.mpr hc.symm⟩), by
          rw [State.locked] at hself ⊢
          simp [hself]⟩
      · exact ⟨Expiries.mem_addMembers_iff.mpr (.inl hold), hsome⟩

/-- Taking the key out of the listing says of it that no turn listed for the user has it. -/
theorem lawful_remove_iff {s : State} {i u : ℕ} {turn : Turn} (hissued : Issued s) (hs : Lawful s)
    (hi : s.turns[i]? = some turn) (howner : turn.owner = some u) :
    Lawful { s with
      redis.listings := s.redis.listings.dropMember s.now u turn.conversation
      turns := s.turns.set i { turn with pc := .comparing } } ↔
      (s.Held u turn.conversation → s.locked turn.conversation = some i) := by
  have hheld {v c : ℕ} : State.Held { s with
      redis.listings := s.redis.listings.dropMember s.now u turn.conversation
      turns := s.turns.set i { turn with pc := .comparing } } v c ↔
      s.locked c ≠ some i ∧ s.Held v c := by
    refine (held_move hi rfl).trans ?_
    simp [Pc.listed]
  constructor
  · intro hlaw hold
    by_contra hne
    have hmem := ((hlaw u turn.conversation).mpr (hheld.mpr ⟨hne, hold⟩)).1
    exact (Expiries.mem_dropMember_iff.mp hmem).2 ⟨rfl, rfl⟩
  · intro hok v c
    rw [hheld, ← hs v c]
    constructor
    · rintro ⟨hmem, hsome⟩
      obtain ⟨hold, hnot⟩ := Expiries.mem_dropMember_iff.mp hmem
      refine ⟨fun hself => hnot ?_, hold, hsome⟩
      -- the lock is the leaving turn's own: listed for its owner, and of its conversation
      obtain ⟨other, hother, hc⟩ := hissued.locked hself
      obtain rfl := Option.some.inj (hi.symm.trans hother)
      obtain ⟨j, other, hj, hother, howner', _⟩ := held_iff.mp ((hs v c).mp ⟨hold, hsome⟩)
      obtain rfl := Option.some.inj (hself.symm.trans hj)
      obtain rfl := Option.some.inj (hi.symm.trans hother)
      exact ⟨Option.some.inj (howner'.symm.trans howner), hc.symm⟩
    · rintro ⟨hne, hold, hsome⟩
      refine ⟨Expiries.mem_dropMember_iff.mpr ⟨hold, ?_⟩, hsome⟩
      rintro ⟨rfl, rfl⟩
      exact hne (hok ((hs v turn.conversation).mp ⟨hold, hsome⟩))

/-- The SREM of a count. -/
theorem lawful_drop_iff {s : State} {u m : ℕ} {counts : List Count} (hs : Lawful s) :
    Lawful { s with
      redis.listings := s.redis.listings.dropMember s.now u m, counts := counts } ↔
      ¬ s.Held u m := by
  constructor
  · intro hlaw hheld
    exact (Expiries.mem_dropMember_iff.mp ((hlaw u m).mpr hheld).1).2 ⟨rfl, rfl⟩
  · intro hok v c
    refine Iff.trans ?_ (hs v c)
    constructor
    · rintro ⟨hmem, hsome⟩
      exact ⟨(Expiries.mem_dropMember_iff.mp hmem).1, hsome⟩
    · rintro ⟨hmem, hsome⟩
      refine ⟨Expiries.mem_dropMember_iff.mpr ⟨hmem, ?_⟩, hsome⟩
      rintro ⟨rfl, rfl⟩
      exact hok ((hs v c).mp ⟨hmem, hsome⟩)

/-- A command that changes neither the locks, nor what is listed, nor whether the turn is. -/
theorem lawful_quiet {s : State} {i : ℕ} {turn : Turn} {redis : Redis} {pc : Pc} (hs : Lawful s)
    (hi : s.turns[i]? = some turn) (hlocks : redis.locks = s.redis.locks)
    (hlistings : ∀ u, redis.listings.members s.now u = s.listing u)
    (hlisted : ∀ u, turn.owner = some u → pc.listed = turn.pc.listed) :
    Lawful { s with redis := redis, turns := s.turns.set i { turn with pc := pc } } := by
  intro u c
  rw [held_quiet hi hlocks (hlisted u), State.listing, State.locked, hlistings u, hlocks]
  exact hs u c

/-- The DELETE: a lock that is gone is held by nobody. -/
theorem lawful_delete {s : State} {i : ℕ} {turn : Turn} (hs : Lawful s)
    (hi : s.turns[i]? = some turn) (hpc : turn.pc = .deleting) : Lawful { s with
      redis.locks := s.redis.locks.delete turn.conversation
      turns := s.turns.set i { turn with pc := .left } } := by
  set t : State := { s with
    redis.locks := s.redis.locks.delete turn.conversation
    turns := s.turns.set i { turn with pc := .left } } with ht
  intro u c
  by_cases hc : c = turn.conversation
  · have hgone : t.locked c = none := by
      rw [hc]
      exact Expiries.get_delete_self
    constructor
    · rintro ⟨_, hsome⟩
      simp [hgone] at hsome
    · intro hheld
      have hsome := Held.locked hheld
      simp [hgone] at hsome
  · have hsame : t.locked c = s.locked c := Expiries.get_delete_other hc
    have hheld : t.Held u c ↔ s.Held u c := by
      have hleft : turn.owner = some u → Pc.left.listed = turn.pc.listed :=
        fun _ => by simp [hpc, Pc.listed]
      rw [← held_quiet hi (rfl : s.redis.locks = s.redis.locks) hleft, held_iff, held_iff, hsame]
      rfl
    rw [hheld, hsame]
    exact hs u c

theorem lawful_advance_iff {s t : State} {i : ℕ} (hissued : Issued s) (hs : Lawful s)
    (h : step s (.advance i) = some t) : Lawful t ↔ NoLeftover s (.advance i) := by
  obtain ⟨turn, r, hi, hr, rfl⟩ := advance_cases h
  have hok : NoLeftover s (.advance i) ↔ ∀ u, turn.owner = some u →
      (turn.pc = .adding → (s.locked turn.conversation).isSome →
        s.locked turn.conversation = some i ∨ s.Held u turn.conversation) ∧
      (turn.pc = .unlisting → s.Held u turn.conversation →
        s.locked turn.conversation = some i) := by
    constructor
    · exact fun hok => hok turn hi
    · intro hok other hother
      obtain rfl := Option.some.inj (hi.symm.trans hother)
      exact hok
  rw [hok]
  unfold Turn.advance at hr
  split at hr
  case h_1 u hpc howner =>
    obtain rfl := Option.some.inj hr
    rw [lawful_add_iff hissued hs hi howner hpc]
    simp [hpc, howner]
  case h_2 u hpc howner =>
    obtain rfl := Option.some.inj hr
    have httl : s.now < s.now + turn.ttl := Nat.lt_add_of_pos_right (hissued.ttl i turn hi)
    exact iff_of_true (lawful_quiet hs hi rfl
      (fun v => Expiries.members_expire httl) (fun _ _ => by simp [hpc, Pc.listed]))
      fun _ _ => by simp [hpc]
  case h_3 hpc howner =>
    obtain rfl := Option.some.inj hr
    exact iff_of_true (lawful_quiet hs hi rfl (fun _ => rfl) fun _ _ => by simp [hpc, Pc.listed])
      fun _ _ => by simp [hpc]
  case h_4 hpc howner =>
    obtain rfl := Option.some.inj hr
    exact iff_of_true (lawful_quiet hs hi rfl (fun _ => rfl) fun _ h => by simp [howner] at h)
      fun _ _ => by simp [hpc]
  case h_5 u hpc howner =>
    obtain rfl := Option.some.inj hr
    rw [lawful_remove_iff hissued hs hi howner]
    simp [hpc, howner]
  case h_6 hpc =>
    obtain rfl := Option.some.inj hr
    refine iff_of_true (lawful_quiet hs hi rfl (fun _ => rfl) fun _ _ => ?_)
      fun _ _ => by simp [hpc]
    rw [hpc]
    split <;> rfl
  case h_7 hpc =>
    obtain rfl := Option.some.inj hr
    exact iff_of_true (lawful_delete hs hi hpc) fun _ _ => by simp [hpc]
  case h_8 => cases hr

theorem step_issued (s : State) (a : Action) (t : State) (hs : Issued s)
    (h : step s a = some t) : Issued t := by
  cases a with
  | wait =>
    obtain rfl := Option.some.inj h
    exact ⟨hs.turn, hs.ttl⟩
  | enter c owner ttl =>
    rcases enter_cases h with rfl | ⟨httl, hfree, rfl⟩
    · exact hs
    · refine ⟨fun d e he => ?_, forall_joined hs.ttl httl⟩
      by_cases hd : d = c
      · subst hd
        simp only [Expiries.set, Function.update_self, Option.some.injEq] at he
        subst he
        exact ⟨_, List.getElem?_concat_length, rfl⟩
      · simp only [Expiries.set_other hd] at he
        obtain ⟨turn, hturn, hc⟩ := hs.turn d e he
        exact ⟨turn, joined_old _ hturn, hc⟩
  | advance i =>
    obtain ⟨turn, r, hi, hr, rfl⟩ := advance_cases h
    refine ⟨fun c e he => ?_, forall_moved hs.ttl (hs.ttl i turn hi)⟩
    have hold : s.redis.locks c = some e := by
      rcases advance_locks hr with ⟨_, _, hlocks, _⟩ | ⟨_, rfl⟩
      · rwa [hlocks] at he
      · by_cases hc : c = turn.conversation
        · subst hc
          simp [Expiries.delete] at he
        · exact (Expiries.delete_other hc).symm.trans he
    exact still_moved hi id (hs.turn c e hold)
  | count u =>
    obtain rfl := Option.some.inj h
    exact ⟨hs.turn, hs.ttl⟩
  | check k member =>
    obtain ⟨c, d, _, _, rfl⟩ := check_cases h
    exact ⟨hs.turn, hs.ttl⟩
  | drop k =>
    obtain ⟨c, member, _, _, rfl⟩ := drop_cases h
    exact ⟨hs.turn, hs.ttl⟩

/-- A check counts the member just when its lock is there. -/
theorem check_count {s : State} {c d : Count} {member : ℕ} (h : c.check s member = some d) :
    d.count = c.count + 1 ↔ (s.locked member).isSome := by
  unfold Count.check at h
  split at h
  case isFalse => cases h
  case isTrue =>
    split at h
    case isTrue hlock =>
      obtain rfl := Option.some.inj h
      exact iff_of_true rfl hlock
    case isFalse hlock =>
      obtain rfl := Option.some.inj h
      exact iff_of_false (Nat.ne_of_lt (Nat.lt_succ_self _)) hlock

/-- Apart from what a check counts, a step is right just when the law holds after it. -/
theorem counted_of_lawful {s t : State} {a : Action} (ht : Issued t) (hlaw : Lawful t)
    (hchecked : ∀ (k member : ℕ) (c d : Count), a = .check k member → s.counts[k]? = some c →
      t.counts[k]? = some d → (d.count = c.count + 1 ↔ s.Held c.owner member)) :
    Counted s a t :=
  ⟨hlaw.number ht, fun u c hheld => ((hlaw u c).mpr hheld).1,
    fun u c hc hsome => (hlaw u c).mp ⟨hc, hsome⟩, hchecked⟩

theorem Counted.lawful {s t : State} {a : Action} (h : Counted s a t) : Lawful t :=
  fun u c => ⟨fun hc => h.finished u c hc.1 hc.2,
    fun hheld => ⟨h.missing u c hheld, Held.locked hheld⟩⟩

/-- The keys are some turns' and the listings say who holds. -/
structure Listed (s : State) : Prop where
  issued : Issued s
  lawful : Lawful s

theorem lawful_iff (s : State) (a : Action) (t : State) (hs : Listed s) (h : step s a = some t)
    (ha : ∀ k member, a ≠ .check k member) : Lawful t ↔ NoLeftover s a := by
  cases a with
  | wait =>
    obtain rfl := Option.some.inj h
    exact lawful_wait_iff hs.lawful
  | enter c owner ttl =>
    rcases enter_cases h with rfl | ⟨httl, hfree, rfl⟩
    · refine iff_of_true hs.lawful fun httl hfree => ?_
      -- refused, so the lock was taken
      simp only [step, enter, Nat.ne_of_gt httl, if_false, hfree, Option.some.injEq] at h
      have hlen := congrArg (fun u => u.turns.length) h
      simp at hlen
    · rw [lawful_enter_iff hs.issued hs.lawful httl hfree]
      simp [NoLeftover, httl, hfree]
  | advance i => exact lawful_advance_iff hs.issued hs.lawful h
  | count u =>
    obtain rfl := Option.some.inj h
    exact iff_of_true hs.lawful trivial
  | check k member => exact absurd rfl (ha k member)
  | drop k =>
    obtain ⟨c, member, hk, hgone, rfl⟩ := drop_cases h
    rw [lawful_drop_iff hs.lawful]
    constructor
    · intro hnot d hd m hm
      obtain rfl := Option.some.inj (hk.symm.trans hd)
      obtain rfl := Option.some.inj (hgone.symm.trans hm)
      exact hnot
    · exact fun hok => hok c hk member hgone

theorem step_listed (s : State) (a : Action) (t : State) (hs : Listed s) (hok : NoLeftover s a)
    (h : step s a = some t) : Listed t := by
  refine ⟨step_issued s a t hs.issued h, ?_⟩
  cases a with
  | check k member =>
    obtain ⟨c, d, _, _, rfl⟩ := check_cases h
    exact hs.lawful
  | _ => exact (lawful_iff s _ t hs h (by simp)).mpr hok

theorem counted_iff (s : State) (a : Action) (t : State) (hs : Listed s)
    (h : step s a = some t) : Counted s a t ↔ NoLeftover s a := by
  have ht : Issued t := step_issued s a t hs.issued h
  by_cases ha : ∃ k member, a = .check k member
  · obtain ⟨k, member, rfl⟩ := ha
    obtain ⟨c, d, hk, hd, rfl⟩ := check_cases h
    have hheld : s.Held c.owner member ↔
        member ∈ s.listing c.owner ∧ (s.locked member).isSome :=
      (hs.lawful c.owner member).symm
    constructor
    · intro hcounted c' hc' hsome
      obtain rfl := Option.some.inj (hk.symm.trans hc')
      exact (hheld.mp ((hcounted.checked k member c d rfl hk (moved_self _ hk)).mp
        ((check_count hd).mpr hsome))).1
    · intro hok
      refine counted_of_lawful ht hs.lawful ?_
      rintro k' member' c' d' heq hc' hd'
      obtain ⟨rfl, rfl⟩ := Action.check.inj heq
      obtain rfl := Option.some.inj (hk.symm.trans hc')
      obtain rfl := Option.some.inj ((moved_self d hk).symm.trans hd')
      rw [check_count hd, hheld]
      exact ⟨fun hsome => ⟨hok c hk hsome, hsome⟩, And.right⟩
  · have hnot : ∀ k member, a ≠ .check k member := fun k member heq => ha ⟨k, member, heq⟩
    rw [← lawful_iff s a t hs h hnot]
    refine ⟨Counted.lawful, fun hlaw => counted_of_lawful ht hlaw ?_⟩
    intro k member c d heq
    exact absurd heq (hnot k member)

theorem listed_start : Listed start := by
  refine ⟨⟨by simp [start], by simp [start]⟩, fun u c => ?_⟩
  constructor
  · rintro ⟨hc, _⟩
    exact absurd hc (Finset.notMem_empty c)
  · intro hheld
    exact absurd (Held.locked hheld) (by simp [State.locked, start, Expiries.get, Expiries.entry])

/-- EXACT CONDITION: along any interleaving of turns and counts, the listings say which locks are
    held by turns listed for a user, `active_turns` gives their number, and a count counts the
    locks so held when it looks, just when every step meets `NoLeftover`. -/
theorem counted_run_iff (as : List Action) :
    EveryStep step Counted start as ↔ Guarded step NoLeftover start as :=
  everyStep_iff_guarded step_listed counted_iff listed_start

/-- A turn outlives its lock, and the user's next turn of the conversation takes it and lists it. -/
def succeeded : List Action :=
  [.enter 0 (some 7) 1, .advance 0, .advance 0, .advance 0, .wait,
    .enter 0 (some 7) 1, .advance 1, .advance 1]

/-- The first turn leaves, and the running one is in no listing. -/
theorem successor_unlisted : ¬ ∀ as, EveryStep step Counted start as := by
  intro h
  have hleave := EveryStep.at (h (succeeded ++ [.advance 0]))
    (rfl : runFrom _ _ succeeded = some _) rfl
  exact absurd (hleave.missing 7 0) (by decide)

end LunaCore.Services
