import Mathlib.Data.List.Nodup
import Mathlib.Order.Nat
import LunaCore.Schemes.Machine

/-! Sequence numbers of one run: persisted events and live deltas over one timeline.

    Two allocators share the Redis mark `max_seq`. `EventEmitter.emit` reads MAX(sequence) from the
    database, then the mark, inserts the maximum plus one (a collision on the unique constraint is
    retried), publishes and only then writes the mark. A streaming turn numbers its deltas
    `base + INCR`, publishes each and only then writes the mark. The write is a plain SET.

        emit    SELECT max → GET mark → INSERT ⟲ → PUBLISH → SET
        delta   INCR → PUBLISH → SET

    Every arrow is a step of its own, and any number of emits and turns interleave. -/

namespace LunaCore.Events
open LunaCore.Schemes

/-- `_EMIT_MAX_RETRIES`. -/
def emitMaxRetries : ℕ := 32

/-- `_next_event_sequence`, from the two maxima it reads. -/
def nextEventSequence (dbMax redisMax : ℕ) : ℕ := max dbMax redisMax + 1

/-- Where one call of `emit` stands. `before` is a ghost: the sequences persisted or published when
    the call began; so is `missed`: those of them above what the call read whose SET was still
    outstanding when it read the mark. -/
inductive Emit where
  | selecting (attempt : ℕ) (before : List ℕ)
  | reading (attempt : ℕ) (before : List ℕ) (dbMax : ℕ)
  | inserting (attempt : ℕ) (before : List ℕ) (sequence : ℕ) (missed : List ℕ)
  | publishing (sequence : ℕ)
  | bumping (sequence : ℕ)
  | done
  | raised
  deriving DecidableEq

/-- Where a streaming turn stands: `base` is the sequence of its started event (0 when that failed
    to persist), `offset` its INCR counter. -/
inductive Turn where
  | streaming (base offset : ℕ)
  | publishing (base offset : ℕ)
  | bumping (base offset : ℕ)
  deriving DecidableEq

/-- The number of a delta that is published and whose SET has not landed. -/
def Turn.awaitingSet : Turn → Option ℕ
  | .bumping base offset => some (base + offset)
  | _ => none

/-- An event `emit` committed, with the ghost `before` of its call. -/
structure Commit where
  sequence : ℕ
  before : List ℕ
  deriving DecidableEq

/-- One run's events: the table's sequences, the delta numbers published so far, the mark
    (0 while the key is absent), and every call and turn. `commits` is a ghost. -/
structure Timeline where
  persisted : List ℕ
  published : List ℕ
  mark : ℕ
  emits : List Emit
  turns : List Turn
  commits : List Commit
  deriving DecidableEq

/-- A run with no event yet. -/
def Timeline.fresh : Timeline := ⟨[], [], 0, [], [], []⟩

inductive Action where
  | beginEmit
  | selectMax (i : ℕ)
  | getMark (i : ℕ)
  | insert (i : ℕ)
  | publishEvent (i : ℕ)
  | setMarkEvent (i : ℕ)
  | beginTurn (base : ℕ)
  | incr (j : ℕ)
  | publishDelta (j : ℕ)
  | setMarkDelta (j : ℕ)
  | dropCounter (j : ℕ)
  | expireMark
  deriving DecidableEq

/-- `coalesce(max(sequence), 0)`. -/
def dbMax (persisted : List ℕ) : ℕ := persisted.foldr max 0

/-- The delta numbers whose SET is outstanding. -/
def outstanding (turns : List Turn) : List ℕ := turns.filterMap Turn.awaitingSet

/-- `INSERT … COMMIT` of one attempt; a collision rolls back and retries, up to the cap. -/
def insertEvent (s : Timeline) (i attempt : ℕ) (before : List ℕ) (sequence : ℕ) : Timeline :=
  if sequence ∈ s.persisted then
    if attempt + 1 < emitMaxRetries then
      { s with emits := s.emits.set i (.selecting (attempt + 1) before) }
    else { s with emits := s.emits.set i .raised }
  else
    { s with
      persisted := sequence :: s.persisted
      commits := ⟨sequence, before⟩ :: s.commits
      emits := s.emits.set i (.publishing sequence) }

/-- One step of one party. -/
def step (s : Timeline) : Action → Option Timeline
  | .beginEmit => some { s with emits := s.emits ++ [.selecting 0 (s.persisted ++ s.published)] }
  | .selectMax i => match s.emits[i]? with
    | some (.selecting attempt before) =>
      some { s with emits := s.emits.set i (.reading attempt before (dbMax s.persisted)) }
    | _ => none
  | .getMark i => match s.emits[i]? with
    | some (.reading attempt before dbMax) =>
      let sequence := nextEventSequence dbMax s.mark
      let missed := (outstanding s.turns).filter fun q => decide (q ∈ before ∧ sequence ≤ q)
      some { s with emits := s.emits.set i (.inserting attempt before sequence missed) }
    | _ => none
  | .insert i => match s.emits[i]? with
    | some (.inserting attempt before sequence _) => some (insertEvent s i attempt before sequence)
    | _ => none
  | .publishEvent i => match s.emits[i]? with
    | some (.publishing sequence) => some { s with emits := s.emits.set i (.bumping sequence) }
    | _ => none
  | .setMarkEvent i => match s.emits[i]? with
    | some (.bumping sequence) =>
      some { s with mark := sequence, emits := s.emits.set i .done }
    | _ => none
  | .beginTurn base =>
    if base = 0 ∨ base ∈ s.persisted then
      some { s with turns := s.turns ++ [.streaming base 0] }
    else none
  | .incr j => match s.turns[j]? with
    | some (.streaming base offset) =>
      some { s with turns := s.turns.set j (.publishing base (offset + 1)) }
    | _ => none
  | .publishDelta j => match s.turns[j]? with
    | some (.publishing base offset) =>
      some { s with
        published := (base + offset) :: s.published
        turns := s.turns.set j (.bumping base offset) }
    | _ => none
  | .setMarkDelta j => match s.turns[j]? with
    | some (.bumping base offset) =>
      some { s with mark := base + offset, turns := s.turns.set j (.streaming base offset) }
    | _ => none
  -- a provider that retries after its stream dropped deletes the counter with the cache
  | .dropCounter j => match s.turns[j]? with
    | some (.streaming base _) => some { s with turns := s.turns.set j (.streaming base 0) }
    | _ => none
  | .expireMark => some { s with mark := 0 }

/-! ### The law and the condition under which it holds -/

/-- What each step must leave: distinct persisted numbers, every committed event above all that was
    persisted or published before its emit began, and a mark that did not go down. -/
structure Increasing (s : Timeline) (_ : Action) (t : Timeline) : Prop where
  distinct : t.persisted.Nodup
  above : ∀ c ∈ t.commits, ∀ q ∈ c.before, q < c.sequence
  mark : s.mark ≤ t.mark

/-- The steps that keep the law: a SET finds no higher mark, the mark does not expire, and no event
    is committed whose emit read the mark ahead of the SET of an earlier, higher delta. -/
def Safe (s : Timeline) : Action → Prop
  | .insert i => ∀ attempt before sequence missed,
      s.emits[i]? = some (.inserting attempt before sequence missed) →
        sequence ∈ s.persisted ∨ missed = []
  | .setMarkEvent i => ∀ sequence, s.emits[i]? = some (.bumping sequence) → s.mark ≤ sequence
  | .setMarkDelta j => ∀ base offset,
      s.turns[j]? = some (.bumping base offset) → s.mark ≤ base + offset
  | .expireMark => s.mark = 0
  | _ => True

/-- The numbers are in use: persisted, or published. -/
def InUse (s : Timeline) (before : List ℕ) : Prop :=
  ∀ q ∈ before, q ∈ s.persisted ∨ q ∈ s.published

/-- What a call of `emit` knows of the numbers in use before it began. -/
def EmitValid (s : Timeline) : Emit → Prop
  | .selecting _ before => InUse s before
  | .reading _ before dbMax => InUse s before ∧ ∀ q ∈ before, q ≤ dbMax ∨ q ∈ s.published
  | .inserting _ before sequence missed => InUse s before ∧
      (∀ q ∈ before, q < sequence ∨ q ∈ missed) ∧ ∀ q ∈ missed, q ∈ before ∧ sequence ≤ q
  | _ => True

/-- The invariant: a published delta is at most the mark, or its SET is outstanding. -/
structure Valid (s : Timeline) : Prop where
  distinct : s.persisted.Nodup
  above : ∀ c ∈ s.commits, ∀ q ∈ c.before, q < c.sequence
  marked : ∀ q ∈ s.published, q ≤ s.mark ∨ q ∈ outstanding s.turns
  emits : ∀ e ∈ s.emits, EmitValid s e

theorem valid_fresh : Valid .fresh where
  distinct := List.nodup_nil
  above := by simp [Timeline.fresh]
  marked := by simp [Timeline.fresh]
  emits := by simp [Timeline.fresh]

theorem le_dbMax : ∀ {persisted : List ℕ} {q : ℕ}, q ∈ persisted → q ≤ dbMax persisted
  | p :: persisted, q, h => by
      rcases List.mem_cons.mp h with rfl | h
      · exact le_max_left _ _
      · exact le_trans (le_dbMax h) (le_max_right _ _)

theorem mem_outstanding {turns : List Turn} {q : ℕ} :
    q ∈ outstanding turns ↔ ∃ turn ∈ turns, turn.awaitingSet = some q := by
  simp [outstanding]

/-- Moving one turn takes at most its own number out of the outstanding ones. -/
theorem outstanding_set {turns : List Turn} {j : ℕ} {old new : Turn} {q : ℕ}
    (hj : turns[j]? = some old) (hq : q ∈ outstanding turns) :
    q ∈ outstanding (turns.set j new) ∨ old.awaitingSet = some q := by
  obtain ⟨turn, hmem, hturn⟩ := mem_outstanding.mp hq
  obtain ⟨k, hk⟩ := List.mem_iff_getElem?.mp hmem
  by_cases hkj : j = k
  · subst hkj
    rw [hj] at hk
    obtain rfl := Option.some.inj hk
    exact .inr hturn
  · refine .inl (mem_outstanding.mpr ⟨turn, List.mem_iff_getElem?.mpr ⟨k, ?_⟩, hturn⟩)
    rwa [List.getElem?_set_ne hkj]

/-- A turn set to awaiting its SET is among the outstanding ones. -/
theorem outstanding_set_self {turns : List Turn} {j : ℕ} {old new : Turn} {q : ℕ}
    (hj : turns[j]? = some old) (hnew : new.awaitingSet = some q) :
    q ∈ outstanding (turns.set j new) :=
  have hlt : j < turns.length := (List.getElem?_eq_some_iff.mp hj).1
  mem_outstanding.mpr ⟨new, List.mem_set hlt new, hnew⟩

theorem inUse_mono {s t : Timeline} (hp : ∀ q ∈ s.persisted, q ∈ t.persisted)
    (hd : ∀ q ∈ s.published, q ∈ t.published) {before : List ℕ} (h : InUse s before) :
    InUse t before :=
  fun q hq => (h q hq).imp (hp q) (hd q)

/-- What an emit knows stays true while numbers are only added. -/
theorem EmitValid.mono {s t : Timeline} {e : Emit} (h : EmitValid s e)
    (hp : ∀ q ∈ s.persisted, q ∈ t.persisted) (hd : ∀ q ∈ s.published, q ∈ t.published) :
    EmitValid t e := by
  cases e with
  | selecting attempt before => exact inUse_mono hp hd h
  | reading attempt before dbMax =>
    exact ⟨inUse_mono hp hd h.1, fun q hq => (h.2 q hq).imp_right (hd q)⟩
  | inserting attempt before sequence missed => exact ⟨inUse_mono hp hd h.1, h.2⟩
  | _ => trivial

/-- Moving one emit needs its new state to be valid. -/
theorem valid_setEmit {s : Timeline} (hs : Valid s) (i : ℕ) {new : Emit} (hnew : EmitValid s new) :
    Valid { s with emits := s.emits.set i new } where
  distinct := hs.distinct
  above := hs.above
  marked := hs.marked
  emits := fun e he => by
    rcases List.mem_or_eq_of_mem_set he with he | rfl
    · exact (hs.emits e he).mono (fun _ h => h) (fun _ h => h)
    · exact hnew.mono (fun _ h => h) (fun _ h => h)

/-- Moving turns, publishing and writing the mark need every published delta to stay at most the
    mark or outstanding. -/
theorem valid_moveTurns {s : Timeline} (hs : Valid s) {published : List ℕ} {mark : ℕ}
    {turns : List Turn} (hd : ∀ q ∈ s.published, q ∈ published)
    (hmarked : ∀ q ∈ published, q ≤ mark ∨ q ∈ outstanding turns) :
    Valid { s with published := published, mark := mark, turns := turns } where
  distinct := hs.distinct
  above := hs.above
  marked := hmarked
  emits := fun e he => (hs.emits e he).mono (fun _ h => h) hd

/-- A turn that publishes nothing and awaits no SET moves freely. -/
theorem valid_setTurn {s : Timeline} (hs : Valid s) {j : ℕ} {old new : Turn}
    (hj : s.turns[j]? = some old) (hold : old.awaitingSet = none) :
    Valid { s with turns := s.turns.set j new } :=
  valid_moveTurns hs (fun _ h => h) fun q hq => (hs.marked q hq).imp_right fun hq =>
    (outstanding_set hj hq).resolve_right (by simp [hold])

/-- A SET that finds no higher mark keeps what lies below the mark there. -/
theorem valid_setMark {s : Timeline} (hs : Valid s) {mark : ℕ} (hle : s.mark ≤ mark) :
    Valid { s with mark := mark } :=
  valid_moveTurns hs (fun _ h => h) fun q hq => (hs.marked q hq).imp_left fun hq => le_trans hq hle

theorem emitValid_of_get {s : Timeline} (hs : Valid s) {i : ℕ} {e : Emit}
    (h : s.emits[i]? = some e) : EmitValid s e :=
  hs.emits e (List.mem_of_getElem? h)

/-- Reading the mark: what the allocated number does not exceed is an earlier delta whose SET is
    outstanding. -/
theorem emitValid_getMark {s : Timeline} (hs : Valid s) {attempt dbMax : ℕ} {before : List ℕ}
    (h : EmitValid s (.reading attempt before dbMax)) :
    EmitValid s (.inserting attempt before (nextEventSequence dbMax s.mark)
      ((outstanding s.turns).filter fun q =>
        decide (q ∈ before ∧ nextEventSequence dbMax s.mark ≤ q))) := by
  refine ⟨h.1, fun q hq => ?_, fun q hq => by simpa using (List.mem_filter.mp hq).2⟩
  by_cases hlt : q < nextEventSequence dbMax s.mark
  · exact .inl hlt
  · refine .inr (List.mem_filter.mpr ⟨?_, by simpa using ⟨hq, not_lt.mp hlt⟩⟩)
    rw [nextEventSequence] at hlt
    have hpub : q ∈ s.published := (h.2 q hq).resolve_left (by omega)
    exact (hs.marked q hpub).resolve_left (by omega)

/-- One attempt to insert keeps the invariant, as long as it misses nothing or collides. -/
theorem valid_insertEvent {s : Timeline} (hs : Valid s) {i attempt sequence : ℕ}
    {before missed : List ℕ} (hi : s.emits[i]? = some (.inserting attempt before sequence missed))
    (hok : sequence ∈ s.persisted ∨ missed = []) :
    Valid (insertEvent s i attempt before sequence) := by
  have he := emitValid_of_get hs hi
  rw [insertEvent]
  split_ifs with hcol hcap
  · exact valid_setEmit hs i he.1
  · exact valid_setEmit hs i trivial
  · rw [or_iff_right hcol] at hok
    refine
      { distinct := List.nodup_cons.mpr ⟨hcol, hs.distinct⟩
        above := fun c hc => ?_
        marked := hs.marked
        emits := fun e he => ?_ }
    · rcases List.mem_cons.mp hc with rfl | hc
      · intro q hq
        simpa [hok] using he.2.1 q hq
      · exact hs.above c hc
    · rcases List.mem_or_eq_of_mem_set he with he | rfl
      · exact (hs.emits e he).mono (fun _ h => List.mem_cons_of_mem _ h) (fun _ h => h)
      · trivial

/-- The step preserves the invariant when it is safe. -/
theorem valid_step (s : Timeline) (a : Action) (t : Timeline) (hs : Valid s) (hok : Safe s a)
    (h : step s a = some t) : Valid t := by
  cases a with
  | beginEmit =>
    obtain rfl := Option.some.inj h
    refine { distinct := hs.distinct, above := hs.above, marked := hs.marked, emits := ?_ }
    intro e he
    rcases List.mem_append.mp he with he | he
    · exact (hs.emits e he).mono (fun _ h => h) (fun _ h => h)
    · rw [List.mem_singleton.mp he]
      exact fun q hq => List.mem_append.mp hq
  | selectMax i =>
    simp only [step] at h
    split at h
    · rename_i attempt before hi
      obtain rfl := Option.some.inj h
      have hknown := emitValid_of_get hs hi
      exact valid_setEmit hs i ⟨hknown, fun q hq => (hknown q hq).imp_left le_dbMax⟩
    · simp at h
  | getMark i =>
    simp only [step] at h
    split at h
    · rename_i attempt before dbMax hi
      obtain rfl := Option.some.inj h
      exact valid_setEmit hs i (emitValid_getMark hs (emitValid_of_get hs hi))
    · simp at h
  | insert i =>
    simp only [step] at h
    split at h
    · rename_i attempt before sequence missed hi
      obtain rfl := Option.some.inj h
      exact valid_insertEvent hs hi (hok attempt before sequence missed hi)
    · simp at h
  | publishEvent i =>
    simp only [step] at h
    split at h
    · obtain rfl := Option.some.inj h
      exact valid_setEmit hs i trivial
    · simp at h
  | setMarkEvent i =>
    simp only [step] at h
    split at h
    · rename_i sequence hi
      obtain rfl := Option.some.inj h
      exact valid_setEmit (valid_setMark hs (hok sequence hi)) i trivial
    · simp at h
  | beginTurn base =>
    simp only [step] at h
    split at h
    · obtain rfl := Option.some.inj h
      refine valid_moveTurns hs (fun _ h => h) fun q hq => (hs.marked q hq).imp_right fun hq => ?_
      simpa [outstanding, List.filterMap_append] using .inl (mem_outstanding.mp hq)
    · simp at h
  | incr j =>
    simp only [step] at h
    split at h
    · rename_i base offset hj
      obtain rfl := Option.some.inj h
      exact valid_setTurn hs hj rfl
    · simp at h
  | publishDelta j =>
    simp only [step] at h
    split at h
    · rename_i base offset hj
      obtain rfl := Option.some.inj h
      refine valid_moveTurns hs (fun _ h => List.mem_cons_of_mem _ h) fun q hq => ?_
      rcases List.mem_cons.mp hq with rfl | hq
      · exact .inr (outstanding_set_self hj rfl)
      · refine (hs.marked q hq).imp_right fun hq => ?_
        exact (outstanding_set hj hq).resolve_right (by simp [Turn.awaitingSet])
    · simp at h
  | setMarkDelta j =>
    simp only [step] at h
    split at h
    · rename_i base offset hj
      obtain rfl := Option.some.inj h
      have hle : s.mark ≤ base + offset := hok base offset hj
      refine valid_moveTurns hs (fun _ h => h) fun q hq => ?_
      rcases hs.marked q hq with hq | hq
      · exact .inl (le_trans hq hle)
      · rcases outstanding_set hj hq with hq | hq
        · exact .inr hq
        · -- the delta whose SET lands here
          exact .inl (le_of_eq (Option.some.inj hq).symm)
    · simp at h
  | dropCounter j =>
    simp only [step] at h
    split at h
    · rename_i base offset hj
      obtain rfl := Option.some.inj h
      exact valid_setTurn hs hj rfl
    · simp at h
  | expireMark =>
    obtain rfl := Option.some.inj h
    have hzero : s.mark = 0 := hok
    exact valid_setMark hs (le_of_eq hzero)

/-- An insert has the property exactly when it collides or misses nothing. -/
theorem increasing_insertEvent {s : Timeline} (hs : Valid s) {i attempt sequence : ℕ}
    {before missed : List ℕ} (hi : s.emits[i]? = some (.inserting attempt before sequence missed))
    {a : Action} :
    Increasing s a (insertEvent s i attempt before sequence) ↔
      sequence ∈ s.persisted ∨ missed = [] := by
  refine ⟨fun h => ?_, fun hok => ?_⟩
  · by_contra hnot
    obtain ⟨hcol, hmiss⟩ := not_or.mp hnot
    obtain ⟨q, hq⟩ := List.exists_mem_of_ne_nil _ hmiss
    obtain ⟨hbefore, hle⟩ := (emitValid_of_get hs hi).2.2 q hq
    have hlt := h.above ⟨sequence, before⟩ (by simp [insertEvent, hcol]) q hbefore
    exact absurd hlt (not_lt.mpr hle)
  · have ht := valid_insertEvent hs hi hok
    refine ⟨ht.distinct, ht.above, ?_⟩
    rw [insertEvent]
    split_ifs <;> exact le_refl _

/-- A step has the property exactly when it is safe. -/
theorem increasing_iff_safe (s : Timeline) (a : Action) (t : Timeline) (hs : Valid s)
    (h : step s a = some t) : Increasing s a t ↔ Safe s a := by
  have hquiet : t.persisted = s.persisted → t.commits = s.commits →
      (Increasing s a t ↔ s.mark ≤ t.mark) := fun hp hc =>
    ⟨fun hi => hi.mark, fun hm => ⟨hp ▸ hs.distinct, hc ▸ hs.above, hm⟩⟩
  cases a with
  | insert i =>
    simp only [step] at h
    split at h
    · rename_i attempt before sequence missed hi
      obtain rfl := Option.some.inj h
      rw [increasing_insertEvent hs hi]
      refine ⟨fun hok a b c d hd => ?_, fun hok => hok _ _ _ _ hi⟩
      rw [hi] at hd
      cases hd
      exact hok
    · simp at h
  | setMarkEvent i =>
    simp only [step] at h
    split at h
    · rename_i sequence hi
      obtain rfl := Option.some.inj h
      rw [hquiet rfl rfl]
      simp [Safe, hi]
    · simp at h
  | setMarkDelta j =>
    simp only [step] at h
    split at h
    · rename_i base offset hj
      obtain rfl := Option.some.inj h
      rw [hquiet rfl rfl]
      simp [Safe, hj]
    · simp at h
  | expireMark =>
    obtain rfl := Option.some.inj h
    rw [hquiet rfl rfl]
    simp [Safe]
  | beginEmit =>
    obtain rfl := Option.some.inj h
    exact (hquiet rfl rfl).trans ⟨fun _ => trivial, fun _ => le_refl _⟩
  | selectMax i | getMark i | publishEvent i | beginTurn base | incr j | publishDelta j
  | dropCounter j =>
    simp only [step] at h
    split at h
    · obtain rfl := Option.some.inj h
      exact (hquiet rfl rfl).trans ⟨fun _ => trivial, fun _ => le_refl _⟩
    · simp at h

/-- CORRECT (exactly when): over every interleaving of emits and turns, the law holds at every step
    if and only if every step is safe. -/
theorem increasing_iff (as : List Action) :
    EveryStep step Increasing .fresh as ↔ Guarded step Safe .fresh as :=
  everyStep_iff_guarded valid_step increasing_iff_safe valid_fresh

/-! ### The two defects -/

/-- An emit that begins after delta 2 was published commits 2, ahead of the delta's SET. -/
def aheadOfSet : List Action :=
  [.beginEmit, .selectMax 0, .getMark 0, .insert 0, .publishEvent 0, .setMarkEvent 0,
    .beginTurn 1, .incr 0, .publishDelta 0, .beginEmit, .selectMax 1, .getMark 1]

/-- Two emits: the SET of the first lands after that of the second. -/
def lateSet : List Action :=
  [.beginEmit, .selectMax 0, .getMark 0, .insert 0, .publishEvent 0,
    .beginEmit, .selectMax 1, .getMark 1, .insert 1, .publishEvent 1, .setMarkEvent 1]

/-- A committed event need not be above an earlier delta, and the mark can go down. -/
theorem not_increasing :
    ¬ EveryStep step Increasing .fresh (aheadOfSet ++ [.insert 1]) ∧
      ¬ EveryStep step Increasing .fresh (lateSet ++ [.setMarkEvent 0]) := by
  refine ⟨fun h => ?_, fun h => ?_⟩
  · have hlast := EveryStep.at h (rfl : runFrom step .fresh aheadOfSet = some _) rfl
    exact absurd (hlast.above ⟨2, [1, 2]⟩ (by decide) 2 (by decide)) (by decide)
  · have hlast := EveryStep.at h (rfl : runFrom step .fresh lateSet = some _) rfl
    exact absurd hlast.mark (by decide)

end LunaCore.Events
