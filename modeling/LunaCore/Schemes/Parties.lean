import Mathlib.Data.List.Basic

/-! Parties known by their place in a list: the next one joins at the end, a step replaces one.

    A property of all parties survives a join when the newcomer has it and a step when the party
    that moved has it after. -/

namespace LunaCore.Schemes

variable {α : Type*} {parties : List α} {a b : α} {i j : ℕ}

/-- Who is there after a join was there before, or is the newcomer. -/
theorem joined_cases (h : (parties ++ [a])[j]? = some b) :
    parties[j]? = some b ∨ j = parties.length ∧ b = a := by
  rcases Nat.lt_trichotomy j parties.length with hlt | rfl | hgt
  · rw [List.getElem?_append_left hlt] at h
    exact .inl h
  · rw [List.getElem?_concat_length] at h
    exact .inr ⟨rfl, (Option.some.inj h).symm⟩
  · rw [List.getElem?_eq_none (by simp; omega)] at h
    cases h

theorem joined_old (a : α) (h : parties[j]? = some b) : (parties ++ [a])[j]? = some b := by
  rw [List.getElem?_append_left (List.getElem?_eq_some_iff.mp h).1, h]

/-- The place of the newcomer was nobody's. -/
theorem ne_length_of_some (h : parties[j]? = some b) : j ≠ parties.length := by
  have hlt := (List.getElem?_eq_some_iff.mp h).1
  omega

/-- Who is there after a step is the one that moved, or has not changed. -/
theorem moved_cases (h : (parties.set i a)[j]? = some b) :
    (i = j ∧ b = a) ∨ (i ≠ j ∧ parties[j]? = some b) := by
  by_cases hij : i = j
  · subst hij
    have hlt : i < parties.length := by
      have := (List.getElem?_eq_some_iff.mp h).1
      rwa [List.length_set] at this
    rw [List.getElem?_set_self hlt] at h
    exact .inl ⟨rfl, (Option.some.inj h).symm⟩
  · rw [List.getElem?_set_ne hij] at h
    exact .inr ⟨hij, h⟩

theorem moved_self (a : α) (h : parties[i]? = some b) : (parties.set i a)[i]? = some a :=
  List.getElem?_set_self (List.getElem?_eq_some_iff.mp h).1

theorem moved_other (a : α) (hij : i ≠ j) : (parties.set i a)[j]? = parties[j]? :=
  List.getElem?_set_ne hij

/-- What all parties have, the parties after a step have when the one that moved does. -/
theorem forall_moved {p : ℕ → α → Prop} (h : ∀ j b, parties[j]? = some b → p j b) (ha : p i a) :
    ∀ j b, (parties.set i a)[j]? = some b → p j b := by
  intro j b hb
  rcases moved_cases hb with ⟨rfl, rfl⟩ | ⟨_, hold⟩
  · exact ha
  · exact h j b hold

theorem forall_joined {p : ℕ → α → Prop} (h : ∀ j b, parties[j]? = some b → p j b)
    (ha : p parties.length a) : ∀ j b, (parties ++ [a])[j]? = some b → p j b := by
  intro j b hb
  rcases joined_cases hb with hold | ⟨rfl, rfl⟩
  · exact h j b hold
  · exact ha

/-- What a party has, it has after the step if the one that moved does not lose it. -/
theorem still_moved {p : α → Prop} (hb : parties[i]? = some b) (ha : p b → p a)
    (h : ∃ c, parties[j]? = some c ∧ p c) : ∃ c, (parties.set i a)[j]? = some c ∧ p c := by
  obtain ⟨c, hc, hp⟩ := h
  by_cases hij : i = j
  · subst hij
    obtain rfl := Option.some.inj (hb.symm.trans hc)
    exact ⟨a, moved_self a hb, ha hp⟩
  · exact ⟨c, (moved_other a hij).trans hc, hp⟩

/-- Somebody who is not the one that moves is there after the step. -/
theorem exists_moved {p : α → Prop} (hb : parties[i]? = some b) (hnot : ¬ p b)
    (h : ∃ (j : ℕ) (c : α), parties[j]? = some c ∧ p c) :
    ∃ (j : ℕ) (c : α), (parties.set i a)[j]? = some c ∧ p c := by
  obtain ⟨j, c, hc, hp⟩ := h
  have hij : i ≠ j := by
    rintro rfl
    obtain rfl := Option.some.inj (hb.symm.trans hc)
    exact hnot hp
  exact ⟨j, c, (moved_other a hij).trans hc, hp⟩

theorem exists_joined {p : α → Prop} (a : α)
    (h : ∃ (j : ℕ) (c : α), parties[j]? = some c ∧ p c) :
    ∃ (j : ℕ) (c : α), (parties ++ [a])[j]? = some c ∧ p c := by
  obtain ⟨j, c, hc, hp⟩ := h
  exact ⟨j, c, joined_old a hc, hp⟩

/-- Who is there after the step, and not by it, was there before. -/
theorem exists_of_moved {p : α → Prop} (hnot : ¬ p a)
    (h : ∃ (j : ℕ) (c : α), (parties.set i a)[j]? = some c ∧ p c) :
    ∃ (j : ℕ) (c : α), parties[j]? = some c ∧ p c := by
  obtain ⟨j, c, hc, hp⟩ := h
  rcases moved_cases hc with ⟨_, rfl⟩ | ⟨_, hold⟩
  · exact absurd hp hnot
  · exact ⟨j, c, hold, hp⟩

/-- What at most one party has, at most one has after a step, if no other has it where the one that
    moved has it now. -/
theorem one_moved {p : α → Prop}
    (h : ∀ (j k : ℕ) (b c : α), parties[j]? = some b → parties[k]? = some c → p b → p c → j = k)
    (ha : p a → ∀ (j : ℕ) (b : α), parties[j]? = some b → p b → i = j) :
    ∀ (j k : ℕ) (b c : α), (parties.set i a)[j]? = some b → (parties.set i a)[k]? = some c →
      p b → p c → j = k := by
  intro j k b c hb hc hpb hpc
  rcases moved_cases hb with ⟨rfl, rfl⟩ | ⟨_, hb'⟩
  · rcases moved_cases hc with ⟨rfl, _⟩ | ⟨_, hc'⟩
    · rfl
    · exact ha hpb k c hc' hpc
  · rcases moved_cases hc with ⟨rfl, rfl⟩ | ⟨_, hc'⟩
    · exact (ha hpc j b hb' hpb).symm
    · exact h j k b c hb' hc' hpb hpc

theorem one_joined {p : α → Prop}
    (h : ∀ (j k : ℕ) (b c : α), parties[j]? = some b → parties[k]? = some c → p b → p c → j = k)
    (ha : p a → ∀ b ∈ parties, ¬ p b) :
    ∀ (j k : ℕ) (b c : α), (parties ++ [a])[j]? = some b → (parties ++ [a])[k]? = some c →
      p b → p c → j = k := by
  intro j k b c hb hc hpb hpc
  rcases joined_cases hb with hb' | ⟨rfl, rfl⟩
  · rcases joined_cases hc with hc' | ⟨_, rfl⟩
    · exact h j k b c hb' hc' hpb hpc
    · exact absurd hpb (ha hpc b (List.mem_of_getElem? hb'))
  · rcases joined_cases hc with hc' | ⟨rfl, _⟩
    · exact absurd hpc (ha hpb c (List.mem_of_getElem? hc'))
    · rfl

/-- How many have a property changes by the one that moves. -/
theorem countP_moved {p : α → Bool} (hb : parties[i]? = some b) :
    (parties.set i a).countP p + (if p b then 1 else 0) =
      parties.countP p + if p a then 1 else 0 := by
  obtain ⟨hlt, rfl⟩ := List.getElem?_eq_some_iff.mp hb
  have hpos : p parties[i] = true → 0 < parties.countP p := fun h =>
    List.countP_pos_iff.mpr ⟨parties[i], List.getElem_mem hlt, h⟩
  rw [List.countP_set hlt]
  split
  case isTrue h =>
    have := hpos h
    omega
  case isFalse => omega

end LunaCore.Schemes
