import Mathlib.Data.Finset.Basic
import Mathlib.Data.List.Basic
import Mathlib.Logic.Function.Basic
import Mathlib.Tactic.Common

/-! A store whose keys may carry an expiry.

    key ─▶ value, read until `deadline` and gone from then on

    Time is a number handed to every operation, so nothing happens to the store when it passes: an
    entry whose moment has come is no longer read, and a write finds the key free. -/

namespace LunaCore.Schemes

/-- A value and the moment it is gone from; without one it stays. -/
structure Expiring (ν : Type*) where
  value : ν
  deadline : Option ℕ
  deriving DecidableEq, Repr

def Expiring.live {ν : Type*} (e : Expiring ν) (now : ℕ) : Bool := e.deadline.all (now < ·)

/-- The entries by key, those that ran out included. -/
abbrev Expiries (κ ν : Type*) := κ → Option (Expiring ν)

namespace Expiries

variable {κ ν : Type*}

/-- The entry a command finds under the key. -/
def entry (store : Expiries κ ν) (now : ℕ) (k : κ) : Option (Expiring ν) :=
  (store k).filter (·.live now)

def get (store : Expiries κ ν) (now : ℕ) (k : κ) : Option ν :=
  (store.entry now k).map Expiring.value

variable {store : Expiries κ ν} {now later deadline : ℕ} {k l : κ} {v : ν} {e : Expiring ν}

theorem entry_eq_some_iff : store.entry now k = some e ↔ store k = some e ∧ e.live now = true := by
  rw [entry, Option.filter_eq_some_iff]

theorem get_eq_some_iff :
    store.get now k = some v ↔ ∃ e, store.entry now k = some e ∧ e.value = v :=
  Option.map_eq_some_iff

theorem get_eq_none_iff : store.get now k = none ↔ store.entry now k = none :=
  Option.map_eq_none_iff

/-- An entry that is live now was live before. -/
theorem live_le (hle : now ≤ later) (h : e.live later = true) : e.live now = true := by
  unfold Expiring.live at h ⊢
  cases hd : e.deadline with
  | none => rfl
  | some d =>
    rw [hd] at h
    simp only [Option.all_some, decide_eq_true_eq] at h ⊢
    omega

theorem entry_le (hle : now ≤ later) (h : store.entry later k = some e) :
    store.entry now k = some e := by
  obtain ⟨hk, hlive⟩ := entry_eq_some_iff.mp h
  exact entry_eq_some_iff.mpr ⟨hk, live_le hle hlive⟩

/-- Time only takes values away. -/
theorem get_le (hle : now ≤ later) (h : store.get later k = some v) :
    store.get now k = some v := by
  obtain ⟨e, he, hv⟩ := get_eq_some_iff.mp h
  exact get_eq_some_iff.mpr ⟨e, entry_le hle he, hv⟩

theorem get_congr {other : Expiries κ ν} (h : store k = other k) :
    store.get now k = other.get now k := by
  rw [get, get, entry, entry, h]

/-! ### Writes -/

variable [DecidableEq κ]

/-- Write the key, with a deadline or without. -/
def set (store : Expiries κ ν) (k : κ) (v : ν) (deadline : Option ℕ) : Expiries κ ν :=
  Function.update store k (some ⟨v, deadline⟩)

def delete (store : Expiries κ ν) (k : κ) : Expiries κ ν := Function.update store k none

/-- Change the value in place: the deadline stays, and a key without a value is deleted. -/
def alter (store : Expiries κ ν) (now : ℕ) (k : κ) (f : Option ν → Option ν) : Expiries κ ν :=
  match f (store.get now k) with
  | none => store.delete k
  | some v => store.set k v ((store.entry now k).bind Expiring.deadline)

/-- Give the key a new deadline; a key that is not there stays away. -/
def expire (store : Expiries κ ν) (now : ℕ) (k : κ) (deadline : ℕ) : Expiries κ ν :=
  match store.entry now k with
  | none => store
  | some e => store.set k e.value (some deadline)

/-! ### One key -/

theorem entry_set_self : (store.set k v (some deadline)).entry now k =
    if now < deadline then some ⟨v, some deadline⟩ else none := by
  by_cases h : now < deadline <;> simp [entry, set, Expiring.live, Option.filter, h]

theorem get_set_self (h : now < deadline) : (store.set k v (some deadline)).get now k = some v := by
  rw [get, entry_set_self, if_pos h, Option.map_some]

theorem entry_delete_self : (store.delete k).entry now k = none := by
  simp [entry, delete]

@[simp] theorem get_delete_self : (store.delete k).get now k = none := by
  rw [get, entry_delete_self, Option.map_none]

/-- What is altered keeps the deadline it had. -/
theorem entry_alter_self (f : Option ν → Option ν) :
    (store.alter now k f).entry now k = (f (store.get now k)).map fun v =>
      ⟨v, (store.entry now k).bind Expiring.deadline⟩ := by
  rw [alter]
  cases f (store.get now k) with
  | none => exact entry_delete_self
  | some v =>
    rw [Option.map_some, entry_eq_some_iff]
    refine ⟨by simp [set], ?_⟩
    cases he : store.entry now k with
    | none => rfl
    | some e => exact (entry_eq_some_iff.mp he).2

@[simp] theorem get_alter_self (f : Option ν → Option ν) :
    (store.alter now k f).get now k = f (store.get now k) := by
  rw [get, entry_alter_self, Option.map_map]
  cases f (store.get now k) <;> rfl

/-- A new deadline takes nothing away before it comes. -/
theorem get_expire_self (h : now < deadline) :
    (store.expire now k deadline).get now k = store.get now k := by
  rw [expire]
  cases he : store.entry now k with
  | none => rfl
  | some e => rw [get_set_self h, get, he, Option.map_some]

theorem set_self {d : Option ℕ} : store.set k v d k = some ⟨v, d⟩ :=
  Function.update_self ..

/-- What is altered and given a deadline has that one. -/
theorem deadline_alter_expire (f : Option ν → Option ν)
    (h : ((store.alter now k f).expire now k deadline) k = some e) :
    e.deadline = some deadline := by
  rw [expire, entry_alter_self, alter] at h
  cases hf : f (store.get now k) with
  | none => simp [hf, delete] at h
  | some v =>
    simp only [hf, Option.map_some, set, Function.update_self, Option.some.injEq] at h
    rw [← h]

/-! ### The other keys -/

theorem set_other (h : l ≠ k) (d : Option ℕ) : (store.set k v d) l = store l :=
  Function.update_of_ne h _ _

theorem delete_other (h : l ≠ k) : (store.delete k) l = store l :=
  Function.update_of_ne h _ _

theorem alter_other (h : l ≠ k) (f : Option ν → Option ν) :
    (store.alter now k f) l = store l := by
  rw [alter]
  cases f (store.get now k) with
  | none => exact delete_other h
  | some v => exact set_other h _

theorem expire_other (h : l ≠ k) : (store.expire now k deadline) l = store l := by
  rw [expire]
  cases store.entry now k with
  | none => rfl
  | some e => exact set_other h _

theorem get_set_other (h : l ≠ k) (d : Option ℕ) : (store.set k v d).get now l = store.get now l :=
  get_congr (set_other h d)

theorem get_delete_other (h : l ≠ k) : (store.delete k).get now l = store.get now l :=
  get_congr (delete_other h)

theorem get_alter_other (h : l ≠ k) (f : Option ν → Option ν) :
    (store.alter now k f).get later l = store.get later l :=
  get_congr (alter_other h f)

/-- A new deadline changes no value. -/
theorem get_expire (h : now < deadline) :
    (store.expire now k deadline).get now l = store.get now l := by
  by_cases hl : l = k
  · rw [hl, get_expire_self h]
  · exact get_congr (expire_other hl)

/-! ### Sets under keys -/

variable {α : Type*} [DecidableEq α]

/-- The set under the key; a key that is not there reads as the empty set. -/
def members (store : Expiries κ (Finset α)) (now : ℕ) (k : κ) : Finset α :=
  (store.get now k).getD ∅

/-- Adding makes the key where there is none. -/
def addMembers (store : Expiries κ (Finset α)) (now : ℕ) (k : κ) (ms : Finset α) :
    Expiries κ (Finset α) :=
  store.alter now k fun old => some (old.getD ∅ ∪ ms)

/-- Removing the last member removes the key. -/
def dropMember (store : Expiries κ (Finset α)) (now : ℕ) (k : κ) (m : α) :
    Expiries κ (Finset α) :=
  store.alter now k fun old => (old.map (·.erase m)).filter (· ≠ ∅)

variable {sets : Expiries κ (Finset α)} {ms : Finset α} {m x : α}

theorem mem_addMembers_iff :
    x ∈ (sets.addMembers now k ms).members now l ↔ x ∈ sets.members now l ∨ (l = k ∧ x ∈ ms) := by
  unfold members addMembers
  by_cases hl : l = k
  · subst hl
    rw [get_alter_self, Option.getD_some, Finset.mem_union]
    simp
  · rw [get_alter_other hl]
    simp [hl]

theorem mem_dropMember_iff :
    x ∈ (sets.dropMember now k m).members now l ↔
      x ∈ sets.members now l ∧ ¬ (l = k ∧ x = m) := by
  unfold members dropMember
  by_cases hl : l = k
  · subst hl
    have herase : (((sets.get now l).map (·.erase m)).filter (· ≠ ∅)).getD ∅ =
        ((sets.get now l).getD ∅).erase m := by
      cases sets.get now l with
      | none => rfl
      | some old =>
        rw [Option.map_some, Option.getD_some, Option.filter_some]
        by_cases hempty : old.erase m = ∅ <;> simp [hempty]
    rw [get_alter_self, herase, Finset.mem_erase]
    simp only [true_and]
    exact and_comm
  · rw [get_alter_other hl]
    simp [hl]

omit [DecidableEq α] in
theorem members_expire (h : now < deadline) :
    (sets.expire now k deadline).members now l = sets.members now l := by
  rw [members, get_expire h, members]

omit [DecidableEq κ] [DecidableEq α] in
/-- Later the set is the same, while its key is there. -/
theorem mem_members_later (hle : now ≤ later) :
    x ∈ sets.members later k ↔ x ∈ sets.members now k ∧ sets.get later k ≠ none := by
  unfold members
  cases hget : sets.get later k with
  | none => simp
  | some v => simp [get_le hle hget]

end Expiries

end LunaCore.Schemes
