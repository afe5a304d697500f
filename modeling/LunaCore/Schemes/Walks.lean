import Mathlib.Data.List.Basic
import Mathlib.Tactic.Common

/-! A walk along a numbered list that ends where it is stopped.

    list     a₀ a₁ a₂ a₃ a₄ …          stopped at a₃
    walked   a₀ a₁ a₂                  of these, what is asked for, with its number

    Where something else is put in front and some elements are left out, an element is walked to as
    before just when the same is in the way of it and as many come first. -/

namespace LunaCore.Schemes

variable {α : Type*} (stops : α × ℕ → Bool) (q p : α → Bool)

/-- None of these stops the walk at its number. -/
def Passes (l : List α) : Prop := ∀ e ∈ l.zipIdx, stops e = false

instance (l : List α) : Decidable (Passes stops l) := inferInstanceAs (Decidable (∀ e ∈ _, _))

/-- What is asked for of the elements behind `front` that the walk gets past. -/
def walkedFrom (front l : List α) : List (α × ℕ) :=
  if Passes stops front then
    ((l.zipIdx front.length).takeWhile fun e => !stops e).filter fun e => q e.1
  else []

/-- Each element with what comes before it. -/
def splits : List α → List (List α × α)
  | [] => []
  | x :: l => ([], x) :: (splits l).map fun s => (x :: s.1, s.2)

/-- An element that is asked for and walked to, with its number behind `front` and what `p` leaves
    before it; `c` is what it takes to set out. -/
def entryAt (c : Prop) [Decidable c] (front : List α) (s : List α × α) : Option (α × ℕ) :=
  if c ∧ q s.2 = true ∧ Passes stops (front ++ s.1.filter p ++ [s.2]) then
    some (s.2, front.length + s.1.countP p)
  else none

variable {stops q p}

theorem passes_concat {l : List α} {x : α} :
    Passes stops (l ++ [x]) ↔ Passes stops l ∧ stops (x, l.length) = false := by
  simp [Passes, List.zipIdx_append, or_imp, forall_and]

theorem Passes.of_prefix {l front : List α} (h : Passes stops l) (hfront : front <+: l) :
    Passes stops front := by
  obtain ⟨rest, rfl⟩ := hfront
  intro e he
  exact h e (by rw [List.zipIdx_append]; exact List.mem_append_left _ he)

/-- Elements that stop the walk alike can stand for one another. -/
theorem passes_congr {R : α → α → Prop} (hR : ∀ x y n, R x y → stops (x, n) = stops (y, n))
    {l l' : List α} (h : List.Forall₂ R l l') (rest : List α) :
    Passes stops (l ++ rest) ↔ Passes stops (l' ++ rest) := by
  have hmap (n : ℕ) : ((l ++ rest).zipIdx n).map stops = ((l' ++ rest).zipIdx n).map stops := by
    induction h generalizing n with
    | nil => rfl
    | cons hxy _ ih =>
      simp only [List.cons_append, List.zipIdx_cons, List.map_cons, hR _ _ n hxy, ih]
  have hall (k : List α) : Passes stops k ↔ ∀ b ∈ (k.zipIdx).map stops, b = false := by
    simp [Passes]
  rw [hall, hall, hmap 0]

theorem mem_splits {before : List α} {x : α} : ∀ {l : List α},
    (before, x) ∈ splits l ↔ ∃ after, l = before ++ x :: after
  | [] => by simp [splits]
  | y :: l => by
    cases before with
    | nil => simp [splits, eq_comm]
    | cons z before => simp [splits, mem_splits, eq_comm, and_comm]

theorem pairwise_splits : ∀ l : List α,
    (splits l).Pairwise fun s t => s.1 ++ [s.2] <+: t.1
  | [] => List.Pairwise.nil
  | x :: l => by
    refine List.pairwise_cons.mpr ⟨fun t ht => ?_, ?_⟩
    · obtain ⟨s, -, rfl⟩ := List.mem_map.mp ht
      exact ⟨s.1, rfl⟩
    · refine List.pairwise_map.mpr ((pairwise_splits l).imp fun {s t} hst => ?_)
      exact (List.prefix_cons_inj x).mpr hst

/-- STEP: the first element is walked past, or nothing behind it is walked to. -/
theorem walkedFrom_cons (front : List α) (x : α) (l : List α) :
    walkedFrom stops q front (x :: l) =
      (if q x = true ∧ Passes stops (front ++ [x]) then [(x, front.length)] else []) ++
        walkedFrom stops q (front ++ [x]) l := by
  simp only [walkedFrom, passes_concat, List.zipIdx_cons, List.takeWhile_cons, List.length_append,
    List.length_singleton]
  by_cases hfront : Passes stops front
  · cases hstop : stops (x, front.length) with
    | true => simp [hfront]
    | false => cases hq : q x <;> simp [hfront, hq]
  · simp [hfront]

/-- Elements in front that are not asked for are walked past, or end the walk. -/
theorem walkedFrom_append {front : List α} (h : ∀ x ∈ front, q x = false) (l : List α) :
    walkedFrom stops q [] (front ++ l) = walkedFrom stops q front l := by
  have hall : ∀ rest start : List α, (∀ x ∈ rest, q x = false) →
      walkedFrom stops q start (rest ++ l) = walkedFrom stops q (start ++ rest) l := by
    intro rest
    induction rest with
    | nil => simp
    | cons x rest ih =>
      intro start hrest
      have hx : ¬ (q x = true ∧ Passes stops (start ++ [x])) := by simp [hrest x List.mem_cons_self]
      rw [List.cons_append, walkedFrom_cons, if_neg hx, List.nil_append,
        ih _ fun y hy => hrest y (List.mem_cons_of_mem _ hy), List.append_assoc]
      rfl
  exact hall front [] h

/-- RUN: what is walked to, element by element. -/
theorem walkedFrom_filter (hqp : ∀ x, q x = true → p x = true) : ∀ (l front : List α),
    walkedFrom stops q front (l.filter p) =
      (splits l).filterMap (entryAt stops q p True front)
  | [], front => by simp [walkedFrom, splits]
  | x :: l, front => by
    have hrest : (splits l).filterMap (entryAt stops q p True (front ++ [x].filter p)) =
        ((splits l).map fun s => (x :: s.1, s.2)).filterMap (entryAt stops q p True front) := by
      rw [List.filterMap_map]
      refine List.filterMap_congr fun s _ => ?_
      cases hp : p x <;> simp [entryAt, hp, Nat.add_comm, Nat.add_left_comm]
    rw [splits, List.filterMap_cons, ← hrest, ← walkedFrom_filter hqp l]
    cases hp : p x with
    | true =>
      rw [List.filter_cons_of_pos hp, walkedFrom_cons]
      by_cases hx : q x = true ∧ Passes stops (front ++ [x])
      · simp [entryAt, hx, hp]
      · simp [entryAt, hx, hp]
    | false =>
      have hq : ¬ q x = true := fun hq => by simp [hqp x hq] at hp
      simp [entryAt, hq, hp]

/-- Two selections that end for good at some element are equal just when they are at each. -/
theorem filterMap_eq_iff {β γ : Type*} {r : β → Prop} {f g : β → Option γ}
    (hf : ∀ s, ¬ r s → f s = none) (hg : ∀ s, ¬ r s → g s = none) : ∀ {l : List β},
    l.Pairwise (fun s t => r s → ((f t).isSome → (f s).isSome) ∧ ((g t).isSome → (g s).isSome)) →
      (l.filterMap f = l.filterMap g ↔ ∀ s ∈ l, f s = g s)
  | [], _ => by simp
  | s :: l, h => by
    obtain ⟨hs, hl⟩ := List.pairwise_cons.mp h
    have ih := filterMap_eq_iff hf hg hl
    have hnil {k : β → Option γ} (hk : k s = none) (hrs : r s)
        (hclosed : ∀ t ∈ l, (k t).isSome → (k s).isSome) : l.filterMap k = [] := by
      refine List.filterMap_eq_nil_iff.mpr fun t ht => ?_
      have hnot : ¬ (k t).isSome := fun h => by simpa [hk] using hclosed t ht h
      simpa using hnot
    rw [List.forall_mem_cons, ← ih]
    by_cases hrs : r s
    · cases hfs : f s with
      | none =>
        have hfnil := hnil hfs hrs fun t ht => (hs t ht hrs).1
        cases hgs : g s with
        | none => simp [hfs, hgs]
        | some e => simp [hfs, hgs, hfnil]
      | some d =>
        cases hgs : g s with
        | none =>
          have hgnil := hnil hgs hrs fun t ht => (hs t ht hrs).2
          simp [hfs, hgs, hgnil]
        | some e => simp [hfs, hgs]
    · simp [hf s hrs, hg s hrs]

theorem isSome_entryAt_iff {c : Prop} [Decidable c] {front : List α} {s : List α × α} :
    (entryAt stops q p c front s).isSome = true ↔
      c ∧ q s.2 = true ∧ Passes stops (front ++ s.1.filter p ++ [s.2]) := by
  unfold entryAt
  split
  case isTrue h => exact iff_of_true rfl h
  case isFalse h => exact iff_of_false Bool.false_ne_true h

/-- What is walked to before it is walked to as well. -/
theorem isSome_entryAt {c : Prop} [Decidable c] {front : List α} {s t : List α × α}
    (hst : s.1 ++ [s.2] <+: t.1) (hs : q s.2 = true) (hp : p s.2 = true)
    (h : (entryAt stops q p c front t).isSome) : (entryAt stops q p c front s).isSome := by
  obtain ⟨hc, -, ht⟩ := isSome_entryAt_iff.mp h
  have hprefix : front ++ s.1.filter p ++ [s.2] <+: front ++ t.1.filter p ++ [t.2] := by
    have hfilter := hst.filter p
    rw [List.filter_append, List.filter_cons_of_pos hp, List.filter_nil] at hfilter
    rw [List.append_assoc, List.append_assoc]
    exact (List.prefix_append_right_inj front).mpr (hfilter.trans (List.prefix_append _ _))
  exact isSome_entryAt_iff.mpr ⟨hc, hs, ht.of_prefix hprefix⟩

/-- Behind other elements, and with some left out, an element is walked to under the number it had
    just when it is walked to where it was and as many come before it. -/
theorem walkedFrom_eq_iff (hqp : ∀ x, q x = true → p x = true) (c d : Prop) [Decidable c]
    [Decidable d] (front l : List α) :
    (if c then walkedFrom stops q front (l.filter p) else []) =
        (if d then walkedFrom stops q [] l else []) ↔
      ∀ before x after, l = before ++ x :: after → q x = true →
        (c ∧ Passes stops (front ++ before.filter p ++ [x]) ↔
          d ∧ Passes stops (before ++ [x])) ∧
        (d ∧ Passes stops (before ++ [x]) → front.length + before.countP p = before.length) := by
  have hwhole {e : Prop} [Decidable e] (front : List α) {p : α → Bool}
      (hqp : ∀ x, q x = true → p x = true) :
      (if e then walkedFrom stops q front (l.filter p) else []) =
        (splits l).filterMap (entryAt stops q p e front) := by
    split
    case isTrue he =>
      rw [walkedFrom_filter hqp]
      refine List.filterMap_congr fun s _ => ?_
      simp [entryAt, he]
    case isFalse he => simp [entryAt, he]
  have hall := @hwhole d _ [] (fun _ => true) (fun _ _ => rfl)
  rw [List.filter_eq_self.mpr (fun _ _ => rfl)] at hall
  rw [hwhole front hqp, hall, filterMap_eq_iff (r := fun s => q s.2 = true)
    (fun s hs => by simp [entryAt, hs]) (fun s hs => by simp [entryAt, hs])]
  · constructor
    · intro h before x after hl hx
      have hentry := h (before, x) (mem_splits.mpr ⟨after, hl⟩)
      simp only [entryAt, hx, true_and, List.nil_append, List.length_nil, Nat.zero_add,
        List.filter_true, List.countP_true] at hentry
      split at hentry
      case isTrue hc =>
        split at hentry
        case isTrue hd =>
          exact ⟨iff_of_true hc hd, fun _ => (Prod.mk.inj (Option.some.inj hentry)).2⟩
        case isFalse => cases hentry
      case isFalse hc =>
        split at hentry
        case isTrue => cases hentry
        case isFalse hd => exact ⟨iff_of_false hc hd, fun h => absurd h hd⟩
    · rintro h ⟨before, x⟩ hs
      obtain ⟨after, hl⟩ := mem_splits.mp hs
      by_cases hx : q x = true
      · obtain ⟨hiff, hplace⟩ := h before x after hl hx
        simp only [entryAt, hx, true_and, List.nil_append, List.length_nil, Nat.zero_add,
          List.filter_true, List.countP_true]
        by_cases hd : d ∧ Passes stops (before ++ [x])
        · rw [if_pos (hiff.mpr hd), if_pos hd, hplace hd]
        · rw [if_neg (fun hc => hd (hiff.mp hc)), if_neg hd]
      · simp [entryAt, hx]
  · refine (pairwise_splits l).imp fun {s t} hst hs => ⟨?_, ?_⟩
    · exact isSome_entryAt hst hs (hqp s.2 hs)
    · exact isSome_entryAt hst hs rfl

end LunaCore.Schemes
