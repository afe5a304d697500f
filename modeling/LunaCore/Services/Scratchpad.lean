import LunaCore.Schemes.Expiring
import LunaCore.Schemes.Machine
import LunaCore.Schemes.Parties
import Mathlib.Data.PNat.Basic

/-! The scratchpad of a run: records under keys of their own, and per collection a set of their ids.

    `stash_batch`:    SET each record ─▶ SADD the ids ─▶ EXPIRE the set
    `drop`:           DELETE the record ─▶ SREM its id
    `stash_records`:  SMEMBERS ─▶ what is not there yet ─▶ `stash_batch`

    A record has the TTL it was stashed with, the set the TTL of the last batch: the ids of older
    records stay listed when these have run out. Between any two commands others may run. The exact
    condition says which steps keep the records and the set in lockstep. -/

namespace LunaCore.Services.Scratchpad
open LunaCore.Schemes

variable {κ ι ρ : Type}

/-- The next command of a call; the TTL is positive, as Redis refuses `EX 0`. -/
inductive Pc (κ ι ρ : Type) where
  /-- `stash_records` with its records and their ids: SMEMBERS. -/
  | looking (collection : κ) (ttl : ℕ+) (targets : List (ι × ρ))
  /-- `stash_batch` has set the first ids: the next SET, or the SADD. -/
  | storing (collection : κ) (ttl : ℕ+) (done : List ι) (todo : List (ι × ρ))
  /-- The EXPIRE of the set. -/
  | refreshing (collection : κ) (ttl : ℕ+)
  /-- `drop` has deleted the record: SREM. -/
  | dropping (collection : κ) (id : ι)
  | finished
  deriving DecidableEq

/-- A call, and the ids it reports as `already_stashed`. -/
structure Op (κ ι ρ : Type) where
  pc : Pc κ ι ρ
  already : List ι
  deriving DecidableEq

structure State (κ ι ρ : Type) where
  now : ℕ
  /-- `scratchpad:{run}:records:{collection}:{id}` -/
  records : Expiries (κ × ι) ρ
  /-- `scratchpad:{run}:index:{collection}` -/
  indexes : Expiries κ (Finset ι)
  ops : List (Op κ ι ρ)

/-- Records come with an explicit id or none. -/
inductive Action (κ ι ρ : Type) where
  | wait (time : ℕ)
  | stashBatch (collection : κ) (ttl : ℕ+) (records : List (ρ × Option ι))
  | stashRecords (collection : κ) (ttl : ℕ+) (records : List (ρ × Option ι))
  | get (collection : κ) (id : ι)
  | listIds (collection : κ)
  | drop (collection : κ) (id : ι)
  | advance (k : ℕ)

def start : State κ ι ρ := ⟨0, fun _ => none, fun _ => none, []⟩

def State.get [DecidableEq κ] [DecidableEq ι] (s : State κ ι ρ) (c : κ) (id : ι) : Option ρ :=
  s.records.get s.now (c, id)

def State.listIds [DecidableEq κ] (s : State κ ι ρ) (c : κ) : Finset ι :=
  s.indexes.members s.now c

/-- `compute_target_ids`: the explicit id, or the hash of the record. -/
def computeTargetIds (hashRecord : ρ → ι) (records : List (ρ × Option ι)) : List (ι × ρ) :=
  records.map fun r => (r.2.getD (hashRecord r.1), r.1)

/-- What `stash_records` goes on to stash, and what it reports as there: ids of the collection, and
    ids that came before in the same call. -/
def splitTargets [DecidableEq ι] (existing : Finset ι) :
    List ι → List (ι × ρ) → List (ι × ρ) × List ι
  | _, [] => ([], [])
  | seen, (id, record) :: rest =>
    if id ∈ existing ∨ id ∈ seen then
      let u := splitTargets existing seen rest
      (u.1, id :: u.2)
    else
      let u := splitTargets existing (id :: seen) rest
      ((id, record) :: u.1, u.2)

/-- `stash_batch` returns at once when there is nothing to stash. -/
def beginBatch (c : κ) (ttl : ℕ+) : List (ι × ρ) → Pc κ ι ρ
  | [] => .finished
  | targets => .storing c ttl [] targets

variable [DecidableEq κ] [DecidableEq ι]

/-- The next command of the call in place `k`. -/
def advance (s : State κ ι ρ) (k : ℕ) (op : Op κ ι ρ) : Option (State κ ι ρ) :=
  match op.pc with
  | .looking c ttl targets =>
    let u := splitTargets (s.listIds c) [] targets
    some { s with ops := s.ops.set k ⟨beginBatch c ttl u.1, u.2⟩ }
  | .storing c ttl done ((id, record) :: todo) => some { s with
      records := s.records.set (c, id) record (some (s.now + ttl))
      ops := s.ops.set k { op with pc := .storing c ttl (done ++ [id]) todo } }
  | .storing c ttl done [] => some { s with
      indexes := s.indexes.addMembers s.now c done.toFinset
      ops := s.ops.set k { op with pc := .refreshing c ttl } }
  | .refreshing c ttl => some { s with
      indexes := s.indexes.expire s.now c (s.now + ttl)
      ops := s.ops.set k { op with pc := .finished } }
  | .dropping c id => some { s with
      indexes := s.indexes.dropMember s.now c id
      ops := s.ops.set k { op with pc := .finished } }
  | .finished => none

def step (hashRecord : ρ → ι) (s : State κ ι ρ) : Action κ ι ρ → Option (State κ ι ρ)
  | .wait time => some { s with now := s.now + time }
  | .stashBatch c ttl records => some { s with
      ops := s.ops ++ [⟨beginBatch c ttl (computeTargetIds hashRecord records), []⟩] }
  | .stashRecords c ttl records => some { s with
      ops := s.ops ++ [⟨.looking c ttl (computeTargetIds hashRecord records), []⟩] }
  | .get _ _ => some s
  | .listIds _ => some s
  | .drop c id => some { s with
      records := s.records.delete (c, id)
      ops := s.ops ++ [⟨.dropping c id, []⟩] }
  | .advance k => (s.ops[k]?).bind (advance s k)

/-! ### In lockstep -/

/-- The record has been set, and its id is still to be added. -/
def Pc.Stores (pc : Pc κ ι ρ) (c : κ) (id : ι) : Prop :=
  ∃ ttl done todo, pc = .storing c ttl done todo ∧ id ∈ done

/-- A stash of the record is short of the SADD. -/
def Storing (ops : List (Op κ ι ρ)) (c : κ) (id : ι) : Prop :=
  ∃ (k : ℕ) (op : Op κ ι ρ), ops[k]? = some op ∧ op.pc.Stores c id

/-- A drop of the record is short of the SREM. -/
def Dropping (ops : List (Op κ ι ρ)) (c : κ) (id : ι) : Prop :=
  ∃ (k : ℕ) (op : Op κ ι ρ), ops[k]? = some op ∧ op.pc = .dropping c id

/-- What is listed is there, unless it is just being dropped; and what is there is listed, unless it
    is just being stashed. -/
structure Coherent (s : State κ ι ρ) : Prop where
  listed : ∀ c, ∀ id ∈ s.listIds c, s.get c id ≠ none ∨ Dropping s.ops c id
  stashed : ∀ c id, s.get c id ≠ none → id ∈ s.listIds c ∨ Storing s.ops c id

/-- The collection whose ids the step reads. -/
def lists (s : State κ ι ρ) : Action κ ι ρ → Option κ
  | .listIds c => some c
  | .advance k => match (s.ops[k]?).map Op.pc with
    | some (.looking c _ _) => some c
    | _ => none
  | _ => none

/-- A step that reports ids reports what can be fetched; what `stash_records` says is stashed can be,
    or is in the batch it goes on to stash; and the records and the sets are coherent after it. -/
structure Lockstep (s : State κ ι ρ) (a : Action κ ι ρ) (t : State κ ι ρ) : Prop where
  reported : ∀ c, lists s a = some c → ∀ id ∈ s.listIds c, s.get c id ≠ none
  already : ∀ (k : ℕ) (op next : Op κ ι ρ) c ttl targets, a = .advance k → s.ops[k]? = some op →
    op.pc = .looking c ttl targets → t.ops[k]? = some next → ∀ id ∈ next.already,
      s.get c id ≠ none ∨ ∃ batch, next.pc = .storing c ttl [] batch ∧ id ∈ batch.map Prod.fst
  coherent : Coherent t

/-- No listed record runs out before its set, and no set before a stashed record; ids are read when
    no drop of one of them is under way; the SADD comes while the records of its batch are there, or
    their drop is on its way; and an SREM when the record has not been stashed again. -/
def InStep (s : State κ ι ρ) (a : Action κ ι ρ) : Prop :=
  match a with
  | .wait time => ∀ c id,
      (id ∈ s.listIds c → s.indexes.get (s.now + time) c ≠ none → ¬ Dropping s.ops c id →
        s.records.get (s.now + time) (c, id) ≠ none) ∧
      (s.records.get (s.now + time) (c, id) ≠ none → ¬ Storing s.ops c id →
        s.indexes.get (s.now + time) c ≠ none)
  | .listIds c => ∀ id ∈ s.listIds c, Dropping s.ops c id → s.get c id ≠ none
  | .advance k => ∀ (op : Op κ ι ρ), s.ops[k]? = some op → match op.pc with
      | .looking c _ _ => ∀ id ∈ s.listIds c, Dropping s.ops c id → s.get c id ≠ none
      | .storing c _ done [] => ∀ id ∈ done, s.get c id ≠ none ∨ Dropping s.ops c id
      | .dropping c id => s.get c id ≠ none → Storing s.ops c id
      | _ => True
  | _ => True

/-! ### The calls under way -/

section Stores

omit [DecidableEq κ] [DecidableEq ι]

variable {c c' : κ} {id id' : ι} {ttl : ℕ+}

@[simp] theorem stores_storing_iff {done : List ι} {todo : List (ι × ρ)} :
    (Pc.storing c ttl done todo).Stores c' id' ↔ c' = c ∧ id' ∈ done := by
  constructor
  · rintro ⟨ttl', done', todo', heq, hid⟩
    obtain ⟨rfl, rfl, rfl, rfl⟩ := Pc.storing.inj heq
    exact ⟨rfl, hid⟩
  · rintro ⟨rfl, hid⟩
    exact ⟨ttl, done, todo, rfl, hid⟩

@[simp] theorem not_stores_looking {targets : List (ι × ρ)} :
    ¬ (Pc.looking c ttl targets).Stores c' id' := by
  rintro ⟨_, _, _, heq, _⟩
  cases heq

@[simp] theorem not_stores_refreshing : ¬ (Pc.refreshing c ttl : Pc κ ι ρ).Stores c' id' := by
  rintro ⟨_, _, _, heq, _⟩
  cases heq

@[simp] theorem not_stores_dropping : ¬ (Pc.dropping c id : Pc κ ι ρ).Stores c' id' := by
  rintro ⟨_, _, _, heq, _⟩
  cases heq

@[simp] theorem not_stores_finished : ¬ (Pc.finished : Pc κ ι ρ).Stores c' id' := by
  rintro ⟨_, _, _, heq, _⟩
  cases heq

end Stores

/-- A step that leaves records and sets alone, and takes no stash or drop off its way. -/
theorem Coherent.same {s t : State κ ι ρ} (hs : Coherent s) (hnow : t.now = s.now)
    (hrecords : t.records = s.records) (hindexes : ∀ c, t.listIds c = s.listIds c)
    (hstoring : ∀ c id, Storing s.ops c id → Storing t.ops c id)
    (hdropping : ∀ c id, Dropping s.ops c id → Dropping t.ops c id) : Coherent t := by
  have hget : ∀ c id, t.get c id = s.get c id := fun c id => by
    rw [State.get, State.get, hnow, hrecords]
  refine ⟨fun c id hid => ?_, fun c id hlive => ?_⟩
  · rw [hindexes] at hid
    rw [hget]
    exact (hs.listed c id hid).imp_right (hdropping c id)
  · rw [hget] at hlive
    rw [hindexes]
    exact (hs.stashed c id hlive).imp_right (hstoring c id)

/-! ### What each command does -/

theorem coherent_wait_iff {s : State κ ι ρ} (hs : Coherent s) (time : ℕ) (hashRecord : ρ → ι)
    {t : State κ ι ρ} (h : step hashRecord s (.wait time) = some t) :
    Coherent t ↔ InStep s (.wait time) := by
  obtain rfl := Option.some.inj h
  have hmem {c : κ} {id : ι} : id ∈ State.listIds { s with now := s.now + time } c ↔
      id ∈ s.listIds c ∧ s.indexes.get (s.now + time) c ≠ none :=
    Expiries.mem_members_later (Nat.le_add_right _ _)
  have hbefore {c : κ} {id : ι} (hlive : s.records.get (s.now + time) (c, id) ≠ none) :
      s.get c id ≠ none := by
    obtain ⟨r, hr⟩ := Option.ne_none_iff_exists'.mp hlive
    rw [State.get, Expiries.get_le (Nat.le_add_right _ _) hr]
    simp
  constructor
  · rintro ⟨hlisted, hstashed⟩ c id
    refine ⟨fun hid hindex hnot => ?_, fun hlive hnot => ?_⟩
    · exact (hlisted c id (hmem.mpr ⟨hid, hindex⟩)).resolve_right hnot
    · exact (hmem.mp ((hstashed c id hlive).resolve_right hnot)).2
  · intro hok
    refine ⟨fun c id hid => ?_, fun c id hlive => ?_⟩
    · obtain ⟨hold, hindex⟩ := hmem.mp hid
      by_cases hdrop : Dropping s.ops c id
      · exact .inr hdrop
      · exact .inl ((hok c id).1 hold hindex hdrop)
    · by_cases hstore : Storing s.ops c id
      · exact .inr hstore
      · refine .inl (hmem.mpr ⟨?_, (hok c id).2 hlive hstore⟩)
        exact (hs.stashed c id (hbefore hlive)).resolve_right hstore

/-- The SET of one record of a batch. -/
theorem Coherent.set {s : State κ ι ρ} {k : ℕ} {op : Op κ ι ρ} {c : κ} {ttl : ℕ+} {done : List ι}
    {id : ι} {record : ρ} {todo : List (ι × ρ)} (hs : Coherent s) (hk : s.ops[k]? = some op)
    (hpc : op.pc = .storing c ttl done ((id, record) :: todo)) : Coherent { s with
      records := s.records.set (c, id) record (some (s.now + ttl))
      ops := s.ops.set k { op with pc := .storing c ttl (done ++ [id]) todo } } := by
  have hlive : ∀ c' id', s.get c' id' ≠ none →
      (s.records.set (c, id) record (some (s.now + ttl))).get s.now (c', id') ≠ none := by
    intro c' id' hold
    by_cases hkey : (c', id') = (c, id)
    · rw [hkey, Expiries.get_set_self (Nat.lt_add_of_pos_right ttl.pos)]
      simp
    · rw [Expiries.get_set_other hkey]
      exact hold
  refine ⟨fun c' id' hid => ?_, fun c' id' hnew => ?_⟩
  · refine (hs.listed c' id' hid).imp (hlive c' id') fun hdrop => ?_
    exact exists_moved hk (by simp [hpc]) hdrop
  · by_cases hkey : (c', id') = (c, id)
    · obtain ⟨rfl, rfl⟩ := Prod.mk.inj hkey
      exact .inr ⟨k, _, moved_self _ hk, by simp⟩
    · have hold : s.get c' id' ≠ none := by
        rw [State.get, Expiries.get_set_other hkey] at hnew
        exact hnew
      refine (hs.stashed c' id' hold).imp_right fun hstore => ?_
      obtain ⟨j, hstores⟩ := hstore
      refine ⟨j, still_moved (p := fun c => Pc.Stores c.pc c' id') hk (fun hmore => ?_) hstores⟩
      rw [hpc, stores_storing_iff] at hmore
      exact stores_storing_iff.mpr ⟨hmore.1, List.mem_append_left _ hmore.2⟩

/-- The SADD of the batch lists what is still there just when all of it is, or is being dropped. -/
theorem coherent_add_iff {s : State κ ι ρ} {k : ℕ} {op : Op κ ι ρ} {c : κ} {ttl : ℕ+}
    {done : List ι} (hs : Coherent s) (hk : s.ops[k]? = some op)
    (hpc : op.pc = .storing c ttl done []) : Coherent { s with
      indexes := s.indexes.addMembers s.now c done.toFinset
      ops := s.ops.set k { op with pc := .refreshing c ttl } } ↔
        ∀ id ∈ done, s.get c id ≠ none ∨ Dropping s.ops c id := by
  constructor
  · rintro ⟨hlisted, _⟩ id hid
    have hmem := hlisted c id (Expiries.mem_addMembers_iff.mpr (.inr ⟨rfl, by simpa using hid⟩))
    exact hmem.imp_right (exists_of_moved (by simp))
  · intro hok
    refine ⟨fun c' id' hid => ?_, fun c' id' hlive => ?_⟩
    · have hold : s.get c' id' ≠ none ∨ Dropping s.ops c' id' := by
        rcases Expiries.mem_addMembers_iff.mp hid with hold | ⟨rfl, hdone⟩
        · exact hs.listed c' id' hold
        · exact hok id' (by simpa using hdone)
      exact hold.imp_right fun hdrop => exists_moved hk (by simp [hpc]) hdrop
    · rcases hs.stashed c' id' hlive with hold | ⟨j, other, hj, hstores⟩
      · exact .inl (Expiries.mem_addMembers_iff.mpr (.inl hold))
      · by_cases hjk : k = j
        · subst hjk
          obtain rfl := Option.some.inj (hk.symm.trans hj)
          obtain ⟨rfl, hid⟩ := stores_storing_iff.mp (hpc ▸ hstores)
          exact .inl (Expiries.mem_addMembers_iff.mpr (.inr ⟨rfl, by simpa using hid⟩))
        · exact .inr ⟨j, other, (moved_other _ hjk).trans hj, hstores⟩

/-- The SREM of a drop leaves what was stashed again without an id. -/
theorem coherent_remove_iff {s : State κ ι ρ} {k : ℕ} {op : Op κ ι ρ} {c : κ} {id : ι}
    (hs : Coherent s) (hk : s.ops[k]? = some op) (hpc : op.pc = .dropping c id) :
    Coherent { s with
      indexes := s.indexes.dropMember s.now c id
      ops := s.ops.set k { op with pc := .finished } } ↔
        (s.get c id ≠ none → Storing s.ops c id) := by
  constructor
  · rintro ⟨_, hstashed⟩ hlive
    rcases hstashed c id hlive with hmem | hstore
    · exact absurd ⟨rfl, rfl⟩ (Expiries.mem_dropMember_iff.mp hmem).2
    · exact exists_of_moved (by simp) hstore
  · intro hok
    refine ⟨fun c' id' hid => ?_, fun c' id' hlive => ?_⟩
    · obtain ⟨hold, hnot⟩ := Expiries.mem_dropMember_iff.mp hid
      refine (hs.listed c' id' hold).imp_right fun hdrop => exists_moved hk ?_ hdrop
      rw [hpc]
      intro heq
      obtain ⟨rfl, rfl⟩ := Pc.dropping.inj heq
      exact hnot ⟨rfl, rfl⟩
    · have hmove : Storing s.ops c' id' → Storing (s.ops.set k { op with pc := .finished }) c' id' :=
        exists_moved hk (by simp [hpc])
      by_cases hkey : c' = c ∧ id' = id
      · obtain ⟨rfl, rfl⟩ := hkey
        exact .inr (hmove (hok hlive))
      · refine (hs.stashed c' id' hlive).imp (fun hold => ?_) hmove
        exact Expiries.mem_dropMember_iff.mpr ⟨hold, hkey⟩

/-- The DELETE of a drop. -/
theorem Coherent.drop {s : State κ ι ρ} (hs : Coherent s) (c : κ) (id : ι) : Coherent { s with
    records := s.records.delete (c, id)
    ops := s.ops ++ [⟨.dropping c id, []⟩] } := by
  refine ⟨fun c' id' hid => ?_, fun c' id' hlive => ?_⟩
  · by_cases hkey : (c', id') = (c, id)
    · obtain ⟨rfl, rfl⟩ := Prod.mk.inj hkey
      exact .inr ⟨_, _, List.getElem?_concat_length, rfl⟩
    · refine (hs.listed c' id' hid).imp (fun hold => ?_) (exists_joined _)
      rw [State.get, Expiries.get_delete_other hkey]
      exact hold
  · have hkey : (c', id') ≠ (c, id) := by
      intro heq
      rw [State.get, heq, Expiries.get_delete_self] at hlive
      exact hlive rfl
    rw [State.get, Expiries.get_delete_other hkey] at hlive
    exact (hs.stashed c' id' hlive).imp_right (exists_joined _)

/-! ### What is reported -/

/-- Where the sets are coherent, what they list can be fetched unless it is being dropped. -/
theorem reported_iff {s : State κ ι ρ} (hs : Coherent s) (c : κ) :
    (∀ id ∈ s.listIds c, s.get c id ≠ none) ↔
      ∀ id ∈ s.listIds c, Dropping s.ops c id → s.get c id ≠ none := by
  constructor
  · exact fun hall id hid _ => hall id hid
  · intro hdrop id hid
    rcases hs.listed c id hid with hlive | hdropping
    · exact hlive
    · exact hdrop id hid hdropping

omit [DecidableEq κ] in
/-- What is reported as stashed was in the collection, came before, or is stashed by this call. -/
theorem splitTargets_already {existing : Finset ι} {id : ι} (targets : List (ι × ρ)) :
    ∀ seen : List ι, id ∈ (splitTargets existing seen targets).2 →
      id ∈ existing ∨ id ∈ seen ∨ id ∈ (splitTargets existing seen targets).1.map Prod.fst := by
  induction targets with
  | nil =>
    intro seen h
    cases h
  | cons target targets ih =>
    intro seen h
    obtain ⟨id', record⟩ := target
    rw [splitTargets] at h ⊢
    split at h
    case isTrue hthere =>
      rw [if_pos hthere]
      rcases List.mem_cons.mp h with rfl | h
      · exact hthere.imp_right .inl
      · exact ih seen h
    case isFalse hnew =>
      rw [if_neg hnew]
      rcases ih (id' :: seen) h with h | h | h
      · exact .inl h
      · rcases List.mem_cons.mp h with rfl | h
        · exact .inr (.inr (by simp))
        · exact .inr (.inl h)
      · exact .inr (.inr (by simp [h]))

/-- The look-up of `stash_records` changes neither records nor sets. -/
theorem Coherent.look {s : State κ ι ρ} {k : ℕ} {op next : Op κ ι ρ} {c : κ} {ttl : ℕ+}
    {targets : List (ι × ρ)} (hs : Coherent s) (hk : s.ops[k]? = some op)
    (hpc : op.pc = .looking c ttl targets) : Coherent { s with ops := s.ops.set k next } := by
  exact hs.same rfl rfl (fun _ => rfl) (fun c id hstore => exists_moved hk (by simp [hpc]) hstore)
    fun c id hdrop => exists_moved hk (by simp [hpc]) hdrop

/-! ### Steps and runs -/

/-- A step that reads no ids and is not the call's look-up is right when the sets are coherent. -/
theorem lockstep_iff_coherent {s t : State κ ι ρ} {a : Action κ ι ρ} (ha : lists s a = none) :
    Lockstep s a t ↔ Coherent t := by
  refine ⟨Lockstep.coherent, fun ht => ⟨fun c hc => ?_, ?_, ht⟩⟩
  · rw [ha] at hc
    cases hc
  · rintro k op next c ttl targets rfl hk hpc
    simp [lists, hk, hpc] at ha

omit [DecidableEq κ] [DecidableEq ι] in
/-- What a batch begins with, where there is something to stash. -/
theorem beginBatch_of_mem {c : κ} {ttl : ℕ+} {targets : List (ι × ρ)} {id : ι}
    (h : id ∈ targets.map Prod.fst) : beginBatch c ttl targets = .storing c ttl [] targets := by
  cases targets with
  | nil => cases h
  | cons target targets => rfl

/-- The look-up of `stash_records` is right when what it lists can be fetched. -/
theorem lockstep_look_iff {s : State κ ι ρ} {k : ℕ} {op : Op κ ι ρ} {c : κ} {ttl : ℕ+}
    {targets : List (ι × ρ)} (hs : Coherent s) (hk : s.ops[k]? = some op)
    (hpc : op.pc = .looking c ttl targets) :
    let u := splitTargets (s.listIds c) [] targets
    Lockstep s (.advance k) { s with ops := s.ops.set k ⟨beginBatch c ttl u.1, u.2⟩ } ↔
      ∀ id ∈ s.listIds c, Dropping s.ops c id → s.get c id ≠ none := by
  intro u
  rw [← reported_iff hs c]
  constructor
  · exact fun hlock => hlock.reported c (by simp [lists, hk, hpc])
  · intro hall
    refine ⟨fun c' hc' => ?_, ?_, hs.look hk hpc⟩
    · simp only [lists, hk, Option.map_some, hpc, Option.some.injEq] at hc'
      exact hc' ▸ hall
    · rintro k' op' next c' ttl' targets' heq hk' hpc' hnext id hid
      obtain rfl := Action.advance.inj heq
      obtain rfl := Option.some.inj (hk.symm.trans hk')
      obtain ⟨rfl, rfl, rfl⟩ := Pc.looking.inj (hpc.symm.trans hpc')
      obtain rfl := Option.some.inj ((moved_self _ hk).symm.trans hnext)
      rcases splitTargets_already targets [] hid with hold | hseen | hbatch
      · exact .inl (hall id hold)
      · cases hseen
      · exact .inr ⟨u.1, beginBatch_of_mem hbatch, hbatch⟩

theorem lockstep_advance_iff {s t : State κ ι ρ} {k : ℕ} {hashRecord : ρ → ι} (hs : Coherent s)
    (h : step hashRecord s (.advance k) = some t) :
    Lockstep s (.advance k) t ↔ InStep s (.advance k) := by
  obtain ⟨op, hk, h⟩ := Option.bind_eq_some_iff.mp h
  have hok : ∀ p : Op κ ι ρ → Prop,
      (∀ other : Op κ ι ρ, s.ops[k]? = some other → p other) ↔ p op := by
    intro p
    constructor
    · exact fun hall => hall op hk
    · intro hop other hother
      obtain rfl := Option.some.inj (hk.symm.trans hother)
      exact hop
  unfold InStep
  simp only [hok]
  unfold advance at h
  split at h
  case h_1 c ttl targets hpc =>
    obtain rfl := Option.some.inj h
    simp only [hpc]
    exact lockstep_look_iff hs hk hpc
  case h_2 c ttl done id record todo hpc =>
    obtain rfl := Option.some.inj h
    rw [lockstep_iff_coherent (by simp [lists, hk, hpc])]
    simp only [hpc, iff_true]
    exact hs.set hk hpc
  case h_3 c ttl done hpc =>
    obtain rfl := Option.some.inj h
    rw [lockstep_iff_coherent (by simp [lists, hk, hpc])]
    simp only [hpc]
    exact coherent_add_iff hs hk hpc
  case h_4 c ttl hpc =>
    obtain rfl := Option.some.inj h
    rw [lockstep_iff_coherent (by simp [lists, hk, hpc])]
    simp only [hpc, iff_true]
    exact hs.same rfl rfl (fun c' => Expiries.members_expire (Nat.lt_add_of_pos_right ttl.pos))
      (fun c' id hstore => exists_moved hk (by simp [hpc]) hstore)
      fun c' id hdrop => exists_moved hk (by simp [hpc]) hdrop
  case h_5 c id hpc =>
    obtain rfl := Option.some.inj h
    rw [lockstep_iff_coherent (by simp [lists, hk, hpc])]
    simp only [hpc]
    exact coherent_remove_iff hs hk hpc
  case h_6 => cases h

theorem lockstep_iff {hashRecord : ρ → ι} (s : State κ ι ρ) (a : Action κ ι ρ) (t : State κ ι ρ)
    (hs : Coherent s) (h : step hashRecord s a = some t) : Lockstep s a t ↔ InStep s a := by
  cases a with
  | wait time =>
    rw [lockstep_iff_coherent rfl]
    exact coherent_wait_iff hs time hashRecord h
  | stashBatch c ttl records =>
    obtain rfl := Option.some.inj h
    exact (lockstep_iff_coherent rfl).trans (iff_of_true (hs.same rfl rfl (fun _ => rfl)
      (fun _ _ => exists_joined _) fun _ _ => exists_joined _) trivial)
  | stashRecords c ttl records =>
    obtain rfl := Option.some.inj h
    exact (lockstep_iff_coherent rfl).trans (iff_of_true (hs.same rfl rfl (fun _ => rfl)
      (fun _ _ => exists_joined _) fun _ _ => exists_joined _) trivial)
  | get c id =>
    obtain rfl := Option.some.inj h
    exact (lockstep_iff_coherent rfl).trans (iff_of_true hs trivial)
  | listIds c =>
    obtain rfl := Option.some.inj h
    rw [InStep, ← reported_iff hs c]
    constructor
    · exact fun hlock => hlock.reported c rfl
    · intro hall
      refine ⟨fun c' hc' => Option.some.inj hc' ▸ hall, ?_, hs⟩
      rintro k op next c' ttl targets heq
      cases heq
  | drop c id =>
    obtain rfl := Option.some.inj h
    exact (lockstep_iff_coherent rfl).trans (iff_of_true (hs.drop c id) trivial)
  | advance k => exact lockstep_advance_iff hs h

theorem coherent_start : Coherent (start : State κ ι ρ) := by
  constructor
  · intro c id hid
    exact absurd hid (Finset.notMem_empty id)
  · intro c id hlive
    exact absurd rfl hlive

/-- EXACT CONDITION: along any interleaving of stashes, reads and drops and any passing of time,
    what is listed can be fetched, what is stashed is listed, and `stash_records` calls stashed only
    what can be fetched, just when every step is in step. -/
theorem lockstep_run_iff (hashRecord : ρ → ι) (as : List (Action κ ι ρ)) :
    EveryStep (step hashRecord) Lockstep start as ↔
      Guarded (step hashRecord) InStep start as :=
  everyStep_iff_guarded (fun s a t hs hok h => ((lockstep_iff s a t hs h).mpr hok).coherent)
    lockstep_iff coherent_start

/-- Record 1 is stashed, and later record 2; record 1 runs out, and the set has its TTL from
    record 2. -/
def refreshed : List (Action ℕ ℕ ℕ) :=
  [.stashBatch 0 10 [(1, none)], .advance 0, .advance 0, .advance 0, .wait 5,
    .stashBatch 0 10 [(2, none)], .advance 1, .advance 1, .advance 1]

/-- Record 1 is still listed when it is gone, and a call that stashes it again reports it as
    stashed. -/
theorem listed_when_gone :
    ¬ EveryStep (step id) Lockstep start (refreshed ++ [.wait 5, .listIds 0]) ∧
      ∃ s t, runFrom (step id) start (refreshed ++ [.wait 5, .stashRecords 0 10 [(1, none)]]) =
          some s ∧ step id s (.advance 2) = some t ∧
        t.ops[2]? = some ⟨.finished, [1]⟩ ∧ s.get 0 1 = none := by
  refine ⟨fun h => ?_, _, _, rfl, rfl, rfl, rfl⟩
  have hsplit : EveryStep (step id) Lockstep start ((refreshed ++ [.wait 5]) ++ [.listIds 0]) := h
  have hlist := EveryStep.at hsplit rfl rfl
  exact hlist.reported 0 rfl 1 (by decide) rfl

end LunaCore.Services.Scratchpad
