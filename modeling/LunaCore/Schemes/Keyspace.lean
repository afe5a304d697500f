import LunaCore.Schemes.Expiring
import Mathlib.Data.List.Dedup
import Mathlib.Data.List.Nodup
import Mathlib.Data.PNat.Basic
import Mathlib.Logic.Function.Basic

/-! One flat keyspace of texts and sets, and the commands on it.

        k₁  text v          GET, SET        set anything, read a text
        k₂  members a b     SADD, SREM      refused where a text stands

    A set without members is no key at all. A command touches its own key only; it is refused where
    the key holds a value of the other kind (`none`). With a clock a key may be given a TTL: `keys`
    is what a command finds then, and but for `wait` every command does to it what it does without
    one. -/

namespace LunaCore.Schemes

/-- A value of the keyspace. -/
inductive Stored (τ μ : Type*) where
  | text (value : τ)
  | members (ms : List μ)

abbrev Keyspace (κ τ μ : Type*) := κ → Option (Stored τ μ)

namespace Keyspace

variable {κ τ μ : Type*} [DecidableEq κ]

/-- GET. -/
def get (s : Keyspace κ τ μ) (k : κ) : Option (Option τ) :=
  match s k with
  | none => some none
  | some (.text value) => some (some value)
  | some (.members _) => none

/-- SET, over a value of any kind. -/
def set (s : Keyspace κ τ μ) (k : κ) (value : τ) : Keyspace κ τ μ :=
  Function.update s k (some (.text value))

/-- DEL. -/
def delete (s : Keyspace κ τ μ) (k : κ) : Keyspace κ τ μ := Function.update s k none

/-- SMEMBERS; the order says nothing. -/
def smembers (s : Keyspace κ τ μ) (k : κ) : Option (List μ) :=
  match s k with
  | none => some []
  | some (.members ms) => some ms
  | some (.text _) => none

/-- A set under a key; an empty one is none. -/
def putMembers (s : Keyspace κ τ μ) (k : κ) (ms : List μ) : Keyspace κ τ μ :=
  Function.update s k (if ms = [] then none else some (.members ms))

/-- SADD. -/
def sadd [DecidableEq μ] (s : Keyspace κ τ μ) (k : κ) (ms : List μ) : Option (Keyspace κ τ μ) :=
  (s.smembers k).map fun old => s.putMembers k (old ++ ms).dedup

/-- SREM. -/
def srem [DecidableEq μ] (s : Keyspace κ τ μ) (k : κ) (m : μ) : Option (Keyspace κ τ μ) :=
  (s.smembers k).map fun old => s.putMembers k (old.filter (· ≠ m))

variable {s t : Keyspace κ τ μ} {k k' : κ}

/-! ### One key -/

omit [DecidableEq κ] in
theorem get_eq_iff {value : Option τ} : s.get k = some value ↔ s k = value.map .text := by
  rw [get]
  cases hk : s k with
  | none => cases value <;> simp
  | some stored => cases stored <;> cases value <;> simp

@[simp] theorem set_same (value : τ) : s.set k value k = some (.text value) :=
  Function.update_self ..

theorem set_other (h : k' ≠ k) (value : τ) : s.set k value k' = s k' :=
  Function.update_of_ne h ..

@[simp] theorem delete_same : s.delete k k = none := Function.update_self ..

theorem delete_other (h : k' ≠ k) : s.delete k k' = s k' := Function.update_of_ne h ..

/-- Deleting several keys. -/
theorem foldl_delete {α : Type*} (key : α → κ) (as : List α) (k : κ) :
    as.foldl (fun s a => s.delete (key a)) s k = if k ∈ as.map key then none else s k := by
  induction as generalizing s with
  | nil => simp
  | cons a as ih =>
    rw [List.foldl_cons, ih, List.map_cons]
    by_cases ha : k = key a
    · simp [ha]
    · by_cases hmem : k ∈ as.map key
      · simp [hmem]
      · rw [if_neg hmem, if_neg (by simp [ha, List.mem_map.not.mp hmem]), delete_other ha]

theorem putMembers_other (h : k' ≠ k) (ms : List μ) : s.putMembers k ms k' = s k' :=
  Function.update_of_ne h ..

omit [DecidableEq κ] in
/-- What a key reads as depends on that key. -/
theorem smembers_congr (h : t k = s k) : t.smembers k = s.smembers k := by
  rw [smembers, smembers, h]

@[simp] theorem smembers_putMembers (ms : List μ) : (s.putMembers k ms).smembers k = some ms := by
  rw [smembers, putMembers, Function.update_self]
  split
  case h_1 h =>
    split at h
    case isTrue hnone => rw [hnone]
    case isFalse => cases h
  case h_2 h =>
    split at h
    case isTrue => cases h
    case isFalse => cases h; rfl
  case h_3 h => split at h <;> cases h

/-! ### What the set commands do -/

/-- A set is added to: its members, each once, and no other key. -/
theorem sadd_some [DecidableEq μ] {old : List μ} (h : s.smembers k = some old) (ms : List μ) :
    ∃ t, s.sadd k ms = some t ∧ (∀ k', k' ≠ k → t k' = s k') ∧
      ∃ new, t.smembers k = some new ∧ new.Nodup ∧ ∀ m, m ∈ new ↔ m ∈ old ∨ m ∈ ms := by
  refine ⟨s.putMembers k (old ++ ms).dedup, by rw [sadd, h, Option.map_some],
    fun k' hk => putMembers_other hk _, _, smembers_putMembers _, List.nodup_dedup _, fun m => ?_⟩
  rw [List.mem_dedup, List.mem_append]

/-- A member is taken out. -/
theorem srem_some [DecidableEq μ] {old : List μ} (h : s.smembers k = some old) (m : μ) :
    ∃ t, s.srem k m = some t ∧ (∀ k', k' ≠ k → t k' = s k') ∧
      ∃ new, t.smembers k = some new ∧ (old.Nodup → new.Nodup) ∧
        ∀ x, x ∈ new ↔ x ∈ old ∧ x ≠ m := by
  refine ⟨s.putMembers k (old.filter (· ≠ m)), by rw [srem, h, Option.map_some],
    fun k' hk => putMembers_other hk _, _, smembers_putMembers _, fun hold => hold.filter _,
    fun x => ?_⟩
  simp

end Keyspace

/-! ### With a clock -/

/-- A keyspace in time: a key may have a moment it is gone from. -/
structure Clocked (κ τ μ : Type*) where
  now : ℕ
  entries : Expiries κ (Stored τ μ)

namespace Clocked

variable {κ τ μ : Type*}

/-- What a command finds. -/
def keys (s : Clocked κ τ μ) : Keyspace κ τ μ := fun k => s.entries.get s.now k

def wait (s : Clocked κ τ μ) (time : ℕ) : Clocked κ τ μ := { s with now := s.now + time }

/-- Time only takes keys away. -/
theorem keys_wait {s : Clocked κ τ μ} {time : ℕ} {k : κ} (h : (s.wait time).keys k ≠ none) :
    (s.wait time).keys k = s.keys k := by
  obtain ⟨value, hvalue⟩ := Option.ne_none_iff_exists'.mp h
  exact hvalue.trans (Expiries.get_le (Nat.le_add_right s.now time) hvalue).symm

variable [DecidableEq κ]

/-- SET with EX. -/
def set (s : Clocked κ τ μ) (k : κ) (value : τ) (ttl : ℕ+) : Clocked κ τ μ :=
  { s with entries := s.entries.set k (.text value) (some (s.now + ttl)) }

/-- DEL. -/
def delete (s : Clocked κ τ μ) (k : κ) : Clocked κ τ μ := { s with entries := s.entries.delete k }

/-- EXPIRE. -/
def expire (s : Clocked κ τ μ) (k : κ) (ttl : ℕ+) : Clocked κ τ μ :=
  { s with entries := s.entries.expire s.now k (s.now + ttl) }

/-- A value put under a key; its TTL stays. -/
def put (s : Clocked κ τ μ) (k : κ) (value : Option (Stored τ μ)) : Clocked κ τ μ :=
  { s with entries := s.entries.alter s.now k fun _ => value }

/-- SADD. -/
def sadd [DecidableEq μ] (s : Clocked κ τ μ) (k : κ) (ms : List μ) : Option (Clocked κ τ μ) :=
  (s.keys.sadd k ms).map fun t => s.put k (t k)

/-- SREM. -/
def srem [DecidableEq μ] (s : Clocked κ τ μ) (k : κ) (m : μ) : Option (Clocked κ τ μ) :=
  (s.keys.srem k m).map fun t => s.put k (t k)

variable {s : Clocked κ τ μ} {k : κ}

@[simp] theorem keys_set (value : τ) (ttl : ℕ+) :
    (s.set k value ttl).keys = s.keys.set k value := by
  funext l
  by_cases hl : l = k
  · rw [hl, Keyspace.set_same]
    exact Expiries.get_set_self (Nat.lt_add_of_pos_right ttl.pos)
  · rw [Keyspace.set_other hl]
    exact Expiries.get_set_other hl _

@[simp] theorem keys_delete : (s.delete k).keys = s.keys.delete k := by
  funext l
  by_cases hl : l = k
  · rw [hl, Keyspace.delete_same]
    exact Expiries.get_delete_self
  · rw [Keyspace.delete_other hl]
    exact Expiries.get_delete_other hl

@[simp] theorem keys_expire (ttl : ℕ+) : (s.expire k ttl).keys = s.keys := by
  funext l
  exact Expiries.get_expire (Nat.lt_add_of_pos_right ttl.pos)

theorem keys_put_same (value : Option (Stored τ μ)) : (s.put k value).keys k = value :=
  Expiries.get_alter_self fun _ => value

theorem keys_put_other {l : κ} (hl : l ≠ k) (value : Option (Stored τ μ)) :
    (s.put k value).keys l = s.keys l :=
  Expiries.get_alter_other hl fun _ => value

omit [DecidableEq κ] in
/-- Commands one after another do to `keys` what each does. -/
theorem keys_foldl {α : Type*} {command : Clocked κ τ μ → α → Clocked κ τ μ}
    {untimed : Keyspace κ τ μ → α → Keyspace κ τ μ}
    (h : ∀ s a, (command s a).keys = untimed s.keys a) (as : List α) :
    (as.foldl command s).keys = as.foldl untimed s.keys := by
  induction as generalizing s with
  | nil => rfl
  | cons a as ih => rw [List.foldl_cons, ih, h, List.foldl_cons]

/-- `Keyspace.foldl_delete`, with a clock. -/
theorem keys_foldl_delete {α : Type*} (key : α → κ) (as : List α) (l : κ) :
    (as.foldl (fun s a => s.delete (key a)) s).keys l =
      if l ∈ as.map key then none else s.keys l := by
  have hstep : ∀ (s : Clocked κ τ μ) (a : α), (s.delete (key a)).keys = s.keys.delete (key a) :=
    fun _ _ => keys_delete
  have hkeys : (as.foldl (fun s a => s.delete (key a)) s).keys =
      as.foldl (fun s a => s.delete (key a)) s.keys := keys_foldl hstep as
  rw [hkeys, Keyspace.foldl_delete]

/-- A SET gives its key the deadline, and no other key one. -/
theorem entries_set {l : κ} {e : Expiring (Stored τ μ)} {value : τ} {ttl : ℕ+}
    (h : (s.set k value ttl).entries l = some e) :
    (e.deadline = some (s.now + ttl) ∧ l = k) ∨ (s.entries l = some e ∧ l ≠ k) := by
  by_cases hl : l = k
  · subst hl
    obtain rfl := Option.some.inj (Expiries.set_self.symm.trans h)
    exact .inl ⟨rfl, rfl⟩
  · exact .inr ⟨(Expiries.set_other hl _).symm.trans h, hl⟩

/-- An EXPIRE of what was just put there does, too. -/
theorem entries_put_expire {l : κ} {e : Expiring (Stored τ μ)} {value : Option (Stored τ μ)} {ttl : ℕ+}
    (h : ((s.put k value).expire k ttl).entries l = some e) :
    (e.deadline = some (s.now + ttl) ∧ l = k) ∨ (s.entries l = some e ∧ l ≠ k) := by
  by_cases hl : l = k
  · subst hl
    exact .inl ⟨Expiries.deadline_alter_expire (fun _ => value) h, rfl⟩
  · exact .inr ⟨((Expiries.expire_other hl).trans
      (Expiries.alter_other hl fun _ => value)).symm.trans h, hl⟩

/-- `Keyspace.sadd_some`, with a clock. -/
theorem sadd_some [DecidableEq μ] {old : List μ} (h : s.keys.smembers k = some old)
    (ms : List μ) : ∃ t, s.sadd k ms = some t ∧ (∀ l, l ≠ k → t.keys l = s.keys l) ∧
      ∃ new, t.keys.smembers k = some new ∧ new.Nodup ∧ ∀ m, m ∈ new ↔ m ∈ old ∨ m ∈ ms := by
  obtain ⟨t, ht, -, new, hnew, hrest⟩ := Keyspace.sadd_some h ms
  exact ⟨s.put k (t k), by rw [sadd, ht, Option.map_some], fun l hl => keys_put_other hl _, new,
    (Keyspace.smembers_congr (keys_put_same _)).trans hnew, hrest⟩

/-- `Keyspace.srem_some`, with a clock. -/
theorem srem_some [DecidableEq μ] {old : List μ} (h : s.keys.smembers k = some old) (m : μ) :
    ∃ t, s.srem k m = some t ∧ (∀ l, l ≠ k → t.keys l = s.keys l) ∧
      ∃ new, t.keys.smembers k = some new ∧ (old.Nodup → new.Nodup) ∧
        ∀ x, x ∈ new ↔ x ∈ old ∧ x ≠ m := by
  obtain ⟨t, ht, -, new, hnew, hrest⟩ := Keyspace.srem_some h m
  exact ⟨s.put k (t k), by rw [srem, ht, Option.map_some], fun l hl => keys_put_other hl _, new,
    (Keyspace.smembers_congr (keys_put_same _)).trans hnew, hrest⟩

end Clocked

end LunaCore.Schemes
