import Mathlib.Data.List.Basic
import Mathlib.Data.List.Forall2
import Mathlib.Tactic.Common

/-! A list of which some items are settled at once and the others are worked on together.

    items      x₀        x₁     x₂     x₃          settle  x₀ ↦ b₀, x₃ ↦ b₃
    left             [   x₁     x₂   ]             worked on
    results          [   r₁     r₂   ]
    splice     b₀        r₁     r₂     b₃

    The results are put back where the items came from. What the work says of each item left, the
    whole says of it in its own place; a part of the whole that only one side has is that side's. -/

namespace LunaCore.Schemes

variable {α β γ : Type*}

/-- The places with their results, those without one filled in order. -/
def splice : List (Option β) → List β → List β
  | [], _ => []
  | some b :: places, fill => b :: splice places fill
  | none :: places, r :: fill => r :: splice places fill
  | none :: _, [] => []

variable (settle : α → Option β)

/-- The items that are worked on. -/
def unsettled (items : List α) : List α := items.filter fun x => (settle x).isNone

variable {settle}

theorem unsettled_cons_some {x : α} {b : β} {items : List α} (h : settle x = some b) :
    unsettled settle (x :: items) = unsettled settle items := by
  simp [unsettled, h]

theorem unsettled_cons_none {x : α} {items : List α} (h : settle x = none) :
    unsettled settle (x :: items) = x :: unsettled settle items := by
  simp [unsettled, h]

/-- SPLICE RULE: each item has its settled result, or what the work came to for it. -/
theorem forall₂_splice {R : α → β → Prop} : ∀ {items : List α} {results : List β},
    List.Forall₂ R (unsettled settle items) results →
      List.Forall₂ (fun x b => settle x = some b ∨ settle x = none ∧ R x b) items
        (splice (items.map settle) results) := by
  intro items
  induction items with
  | nil =>
    intro results _
    exact .nil
  | cons x items ih =>
    intro results h
    rw [List.map_cons]
    cases hx : settle x with
    | some b =>
      rw [unsettled_cons_some hx] at h
      exact .cons (.inl hx) (ih h)
    | none =>
      rw [unsettled_cons_none hx] at h
      obtain ⟨r, results', hr, hrest, rfl⟩ := List.forall₂_cons_left_iff.mp h
      exact .cons (.inr ⟨hx, hr⟩) (ih hrest)

theorem length_splice : ∀ {items : List α} {results : List β},
    results.length = (unsettled settle items).length →
      (splice (items.map settle) results).length = items.length := by
  intro items results hlength
  have hall : List.Forall₂ (fun _ _ => True) (unsettled settle items) results :=
    List.forall₂_iff_get.mpr ⟨hlength.symm, fun _ _ _ => trivial⟩
  exact (forall₂_splice hall).length_eq.symm

/-- An item that is worked on has its place after those that are and come before it. -/
theorem getElem?_unsettled {x : α} (hx : settle x = none) : ∀ {items : List α} {i : ℕ},
    items[i]? = some x →
      (unsettled settle items)[(unsettled settle (items.take i)).length]? = some x := by
  intro items
  induction items with
  | nil =>
    intro i h
    cases h
  | cons y items ih =>
    intro i h
    cases i with
    | zero =>
      obtain rfl := Option.some.inj h
      rw [unsettled_cons_none hx]
      rfl
    | succ i =>
      rw [List.take_succ_cons]
      cases hy : settle y with
      | some b =>
        rw [unsettled_cons_some hy, unsettled_cons_some hy]
        exact ih h
      | none =>
        rw [unsettled_cons_none hy, unsettled_cons_none hy]
        exact ih h

/-- Each item has its settled result in its place, or the one that the work has in the item's. -/
theorem getElem?_splice : ∀ {items : List α} {results : List β} {i : ℕ} {x : α},
    results.length = (unsettled settle items).length → items[i]? = some x →
      (splice (items.map settle) results)[i]? =
        (settle x).or results[(unsettled settle (items.take i)).length]? := by
  intro items
  induction items with
  | nil =>
    intro results i x _ h
    cases h
  | cons y items ih =>
    intro results i x hlength h
    rw [List.map_cons]
    cases hy : settle y with
    | some b =>
      rw [unsettled_cons_some hy] at hlength
      cases i with
      | zero =>
        obtain rfl := Option.some.inj h
        rw [hy]
        rfl
      | succ i =>
        rw [List.take_succ_cons, unsettled_cons_some hy]
        exact ih hlength h
    | none =>
      rw [unsettled_cons_none hy] at hlength
      cases results with
      | nil => cases hlength
      | cons r results =>
        cases i with
        | zero =>
          obtain rfl := Option.some.inj h
          rw [hy]
          rfl
        | succ i =>
          rw [List.take_succ_cons, unsettled_cons_none hy]
          exact ih (by simpa using hlength) h

/-- The counterpart of an item of a list. -/
theorem exists_counterpart {R : α → γ → Prop} : ∀ {xs : List α} {ys : List γ} {i : ℕ} {x : α},
    List.Forall₂ R xs ys → xs[i]? = some x → ∃ y, ys[i]? = some y ∧ R x y := by
  intro xs ys i x h
  induction h generalizing i with
  | nil =>
    intro hi
    cases hi
  | @cons x' y xs ys hxy _ ih =>
    intro hi
    cases i with
    | zero =>
      obtain rfl := Option.some.inj hi
      exact ⟨y, rfl, hxy⟩
    | succ i => exact ih hi

/-- Two lists side by side, and a third beside both. -/
theorem forall₂_zip {δ : Type*} {P : α → γ → Prop} {Q : γ × β → δ → Prop} {f : α → β} :
    ∀ {xs : List α} {ys : List γ} {zs : List δ}, List.Forall₂ P xs ys →
      List.Forall₂ Q (ys.zip (xs.map f)) zs →
        List.Forall₂ (fun x z => ∃ y, P x y ∧ Q (y, f x) z) xs zs := by
  intro xs ys zs h
  induction h generalizing zs with
  | nil =>
    intro hzs
    obtain rfl := List.forall₂_nil_left_iff.mp hzs
    exact .nil
  | @cons x y xs ys hxy _ ih =>
    intro hzs
    rw [List.map_cons, List.zip_cons_cons] at hzs
    obtain ⟨z, zs, hz, hrest, rfl⟩ := List.forall₂_cons_left_iff.mp hzs
    exact .cons ⟨y, hxy, hz⟩ (ih hrest)

/-- What only the settled results have, the splice has from them. -/
theorem filterMap_splice_settled (f : β → Option γ) :
    ∀ {items : List α} {results : List β}, results.length = (unsettled settle items).length →
      (∀ b ∈ results, f b = none) →
      (splice (items.map settle) results).filterMap f =
        items.filterMap fun x => (settle x).bind f := by
  intro items
  induction items with
  | nil =>
    intro results _ _
    rfl
  | cons x items ih =>
    intro results hlength hnone
    rw [List.map_cons]
    cases hx : settle x with
    | some b =>
      rw [unsettled_cons_some hx] at hlength
      rw [splice, List.filterMap_cons, List.filterMap_cons, hx, ih hlength hnone]
      rfl
    | none =>
      rw [unsettled_cons_none hx] at hlength
      cases results with
      | nil => cases hlength
      | cons r results =>
        rw [splice, List.filterMap_cons_none (hnone r (List.mem_cons_self ..)),
          List.filterMap_cons_none (by rw [hx]; rfl)]
        exact ih (by simpa using hlength) fun b hb => hnone b (List.mem_cons_of_mem _ hb)

/-- What only the work's results have, the splice has from them. -/
theorem filterMap_splice_unsettled (f : β → Option γ)
    (hnone : ∀ x b, settle x = some b → f b = none) :
    ∀ {items : List α} {results : List β}, results.length = (unsettled settle items).length →
      (splice (items.map settle) results).filterMap f = results.filterMap f := by
  intro items
  induction items with
  | nil =>
    intro results hlength
    obtain rfl := List.length_eq_zero_iff.mp hlength
    rfl
  | cons x items ih =>
    intro results hlength
    rw [List.map_cons]
    cases hx : settle x with
    | some b =>
      rw [unsettled_cons_some hx] at hlength
      rw [splice, List.filterMap_cons_none (hnone x b hx)]
      exact ih hlength
    | none =>
      rw [unsettled_cons_none hx] at hlength
      cases results with
      | nil => cases hlength
      | cons r results =>
        rw [splice, List.filterMap_cons, List.filterMap_cons, ih (by simpa using hlength)]

end LunaCore.Schemes
