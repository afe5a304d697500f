import Mathlib.Order.Bounds.Basic
import Mathlib.Tactic.Common

/-! Slots on a time line, and the one that is due.

    A schedule answers with its first slot after a base. What is due at `now` depends on nothing but
    which of the slots up to `now` lie after the base:

        ──base──●────●──now──●──
               due
-/

namespace LunaCore.Schemes

/-- Slots and the first one after a base, where there is one. -/
structure Slots (α : Type*) [LinearOrder α] where
  slots : Set α
  next : α → Option α
  next_some : ∀ {base s : α}, next base = some s → IsLeast {r | r ∈ slots ∧ base < r} s
  next_none : ∀ {base : α}, next base = none → ∀ r ∈ slots, r ≤ base

namespace Slots

variable {α : Type*} [LinearOrder α] (S : Slots α)

/-- The first slot after `base`, if it has come. -/
def due (base now : α) : Option α := (S.next base).filter fun s => decide (s ≤ now)

variable {S} {base base' now s : α}

theorem next_eq_some_iff : S.next base = some s ↔ IsLeast {r | r ∈ S.slots ∧ base < r} s := by
  constructor
  · exact S.next_some
  · intro h
    cases hnext : S.next base with
    | none => exact absurd h.1.2 (S.next_none hnext s h.1.1).not_gt
    | some r => rw [(S.next_some hnext).unique h]

theorem next_eq_none_iff : S.next base = none ↔ ∀ r ∈ S.slots, r ≤ base := by
  constructor
  · exact S.next_none
  · intro h
    cases hnext : S.next base with
    | none => rfl
    | some r =>
      have hr := (S.next_some hnext).1
      exact absurd hr.2 (h r hr.1).not_gt

theorem due_eq_some_iff : S.due base now = some s ↔
    IsLeast {r | r ∈ S.slots ∧ base < r} s ∧ s ≤ now := by
  rw [due, Option.filter_eq_some_iff, next_eq_some_iff, decide_eq_true_iff]

theorem due_eq_none_iff : S.due base now = none ↔ ∀ r ∈ S.slots, r ≤ now → r ≤ base := by
  constructor
  · intro h r hr hnow
    by_contra hlt
    cases hnext : S.next base with
    | none => exact hlt (S.next_none hnext r hr)
    | some s =>
      have hs := S.next_some hnext
      have hsr : s ≤ r := hs.2 ⟨hr, lt_of_not_ge hlt⟩
      rw [due_eq_some_iff.mpr ⟨hs, hsr.trans hnow⟩] at h
      cases h
  · intro h
    cases hdue : S.due base now with
    | none => rfl
    | some s =>
      obtain ⟨hs, hnow⟩ := due_eq_some_iff.mp hdue
      exact absurd hs.1.2 (h s hs.1.1 hnow).not_gt

/-- A slot is due just when it is one, has come, is after the base and no slot before it is. -/
theorem due_ne_some_iff (hs : s ∈ S.slots) : S.due base now ≠ some s ↔
    (s ≤ now → s ≤ base ∨ ∃ r ∈ S.slots, r < s ∧ base < r) := by
  rw [Ne, due_eq_some_iff]
  constructor
  · intro h hnow
    by_contra hno
    push Not at hno
    refine h ⟨⟨⟨hs, hno.1⟩, fun r hr => ?_⟩, hnow⟩
    exact le_of_not_gt fun hlt => (hno.2 r hr.1 hlt).not_gt hr.2
  · rintro h ⟨hleast, hnow⟩
    rcases h hnow with hbase | ⟨r, hr, hlt, hbase⟩
    · exact absurd hleast.1.2 hbase.not_gt
    · exact absurd (hleast.2 ⟨hr, hbase⟩) hlt.not_ge

/-- Two bases with the same slots up to now ahead of them have the same slot due. -/
theorem due_eq_iff : S.due base now = S.due base' now ↔
    ∀ r ∈ S.slots, r ≤ now → (r ≤ base ↔ r ≤ base') := by
  constructor
  · intro h r hr hnow
    cases hdue : S.due base now with
    | none =>
      have hnone := due_eq_none_iff.mp (h ▸ hdue)
      exact iff_of_true (due_eq_none_iff.mp hdue r hr hnow) (hnone r hr hnow)
    | some s =>
      have hs := (due_eq_some_iff.mp hdue).1
      have hs' := (due_eq_some_iff.mp (h ▸ hdue)).1
      -- before the slot that is due both bases are past every slot, from it on neither is
      rcases lt_or_ge r s with hlt | hge
      · exact iff_of_true (le_of_not_gt fun hb => hlt.not_ge (hs.2 ⟨hr, hb⟩))
          (le_of_not_gt fun hb => hlt.not_ge (hs'.2 ⟨hr, hb⟩))
      · exact iff_of_false (hs.1.2.trans_le hge).not_ge (hs'.1.2.trans_le hge).not_ge
  · intro h
    have hfrom {b b' : α} (hb : ∀ r ∈ S.slots, r ≤ now → (r ≤ b ↔ r ≤ b')) (s : α)
        (hs : S.due b now = some s) : S.due b' now = some s := by
      obtain ⟨hleast, hnow⟩ := due_eq_some_iff.mp hs
      have hafter : b' < s :=
        lt_of_not_ge fun hle => hleast.1.2.not_ge ((hb s hleast.1.1 hnow).mpr hle)
      refine due_eq_some_iff.mpr ⟨⟨⟨hleast.1.1, hafter⟩, fun r hr => ?_⟩, hnow⟩
      by_contra hlt
      have hrs := lt_of_not_ge hlt
      have hle := (hb r hr.1 (hrs.le.trans hnow)).not.mpr hr.2.not_ge
      exact hlt (hleast.2 ⟨hr.1, lt_of_not_ge hle⟩)
    exact Option.ext fun s => ⟨hfrom h s, hfrom (fun r hr hnow => (h r hr hnow).symm) s⟩

end Slots

end LunaCore.Schemes
