import Mathlib.Data.List.Forall2
import Mathlib.Tactic.Common

/-! Computations that can fail, one after the other: the first failure is the failure of the whole,
    and what comes through has come through each. -/

namespace LunaCore.Schemes

variable {ε α β : Type*} {attempt : Except ε α} {e : ε} {b : β}

theorem map_eq_ok_iff {f : α → β} : attempt.map f = .ok b ↔ ∃ a, attempt = .ok a ∧ f a = b := by
  cases attempt with
  | error e => simp [Except.map]
  | ok a => simp [Except.map]

theorem map_isOk_iff {f : α → β} : (∃ b, attempt.map f = .ok b) ↔ ∃ a, attempt = .ok a := by
  cases attempt with
  | error e => simp [Except.map]
  | ok a => simp [Except.map]

theorem map_eq_error_iff {f : α → β} : attempt.map f = .error e ↔ attempt = .error e := by
  cases attempt with
  | error e => simp [Except.map]
  | ok a => simp [Except.map]

theorem bind_eq_ok_iff {f : α → Except ε β} :
    attempt.bind f = .ok b ↔ ∃ a, attempt = .ok a ∧ f a = .ok b := by
  cases attempt with
  | error e => simp [Except.bind]
  | ok a => simp [Except.bind]

theorem bind_isOk_iff {f : α → Except ε β} :
    (∃ b, attempt.bind f = .ok b) ↔ ∃ a, attempt = .ok a ∧ ∃ b, f a = .ok b := by
  cases attempt with
  | error e => simp [Except.bind]
  | ok a => simp [Except.bind]

theorem bind_eq_error_iff {f : α → Except ε β} : attempt.bind f = .error e ↔
    attempt = .error e ∨ ∃ a, attempt = .ok a ∧ f a = .error e := by
  cases attempt with
  | error e => simp [Except.bind]
  | ok a => simp [Except.bind]

/-- What comes through of a list comes through item by item. -/
theorem mapM_eq_ok_iff {f : α → Except ε β} : ∀ {l : List α} {bs : List β},
    l.mapM f = .ok bs ↔ List.Forall₂ (fun a b => f a = .ok b) l bs
  | [], bs => by
    rw [List.mapM_nil, List.forall₂_nil_left_iff]
    exact ⟨fun h => (Except.ok.inj h).symm, fun h => h ▸ rfl⟩
  | a :: l, bs => by
    rw [List.mapM_cons, List.forall₂_cons_left_iff]
    change (f a).bind (fun b => (l.mapM f).bind fun bs => .ok (b :: bs)) = .ok bs ↔ _
    simp only [bind_eq_ok_iff, mapM_eq_ok_iff, Except.ok.injEq]
    constructor
    · rintro ⟨b, hb, rest, hrest, rfl⟩
      exact ⟨b, rest, hb, hrest, rfl⟩
    · rintro ⟨b, rest, hb, hrest, rfl⟩
      exact ⟨b, hb, rest, hrest, rfl⟩

theorem mapM_isOk_iff {f : α → Except ε β} : ∀ {l : List α},
    (∃ bs, l.mapM f = .ok bs) ↔ ∀ a ∈ l, ∃ b, f a = .ok b
  | [] => by simp only [mapM_eq_ok_iff, List.forall₂_nil_left_iff, exists_eq, List.not_mem_nil,
      false_implies, implies_true]
  | a :: l => by
    rw [List.forall_mem_cons, ← mapM_isOk_iff]
    simp only [mapM_eq_ok_iff, List.forall₂_cons_left_iff]
    constructor
    · rintro ⟨_, b, rest, hb, hrest, -⟩
      exact ⟨⟨b, hb⟩, rest, hrest⟩
    · rintro ⟨⟨b, hb⟩, rest, hrest⟩
      exact ⟨b :: rest, b, rest, hb, hrest, rfl⟩

/-- Whatever came through came of an item. -/
theorem mem_of_mapM_eq_ok {f : α → Except ε β} : ∀ {l : List α} {bs : List β},
    l.mapM f = .ok bs → b ∈ bs → ∃ a ∈ l, f a = .ok b
  | [], bs, h, hb => by
    rw [mapM_eq_ok_iff, List.forall₂_nil_left_iff] at h
    rw [h] at hb
    cases hb
  | a :: l, bs, h, hb => by
    rw [mapM_eq_ok_iff, List.forall₂_cons_left_iff] at h
    obtain ⟨c, rest, hc, hrest, rfl⟩ := h
    rcases List.mem_cons.mp hb with rfl | hb
    · exact ⟨a, List.mem_cons_self, hc⟩
    · obtain ⟨a', ha', hf⟩ := mem_of_mapM_eq_ok (mapM_eq_ok_iff.mpr hrest) hb
      exact ⟨a', List.mem_cons_of_mem _ ha', hf⟩

theorem mapM_congr {f g : α → Except ε β} : ∀ {l : List α}, (∀ a ∈ l, f a = g a) →
    l.mapM f = l.mapM g
  | [], _ => rfl
  | a :: l, h => by
    rw [List.forall_mem_cons] at h
    rw [List.mapM_cons, List.mapM_cons, h.1, mapM_congr h.2]

theorem ok_of_isSome (h : attempt.toOption.isSome) (a : α) :
    attempt = .ok (attempt.toOption.getD a) := by
  cases attempt with
  | error e => cases h
  | ok a => rfl

end LunaCore.Schemes
