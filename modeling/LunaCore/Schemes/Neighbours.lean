import Mathlib.Data.List.Basic

/-! What the elements of a list ask of their neighbours, and what becomes of it when some are left
    out.

    list     x   ·   ·   y   z        · is silent: `f` gives nothing for it
             │           │   │
    image    f x         f y f z      x's neighbour there is f y

    An element asks for some things and meets others. In the image each asks of the element right
    after it, or right before; in the list that is the next one, or the last, that is not silent. -/

namespace LunaCore.Schemes

variable {α β ι : Type*}

/-- What an element asks for, the one right after it meets. -/
def MetNext (asks meets : β → ι → Prop) (l : List β) : Prop :=
  ∀ before x after, l = before ++ x :: after → ∀ i, asks x i →
    ∃ next rest, after = next :: rest ∧ meets next i

/-- What an element asks for, the one right before it meets. -/
def MetLast (asks meets : β → ι → Prop) (l : List β) : Prop :=
  ∀ before x after, l = before ++ x :: after → ∀ i, asks x i →
    ∃ init last, before = init ++ [last] ∧ meets last i

/-- The next one that is not silent does. -/
def MetNextOver (silent : α → Prop) (asks meets : α → ι → Prop) (l : List α) : Prop :=
  ∀ before x after, l = before ++ x :: after → ∀ i, asks x i →
    ∃ skipped next rest, after = skipped ++ next :: rest ∧ (∀ y ∈ skipped, silent y) ∧
      meets next i

/-- The last one that is not silent does. -/
def MetLastOver (silent : α → Prop) (asks meets : α → ι → Prop) (l : List α) : Prop :=
  ∀ before x after, l = before ++ x :: after → ∀ i, asks x i →
    ∃ init last skipped, before = init ++ last :: skipped ∧ (∀ y ∈ skipped, silent y) ∧
      meets last i

theorem metLast_reverse {asks meets : β → ι → Prop} {l : List β} :
    MetLast asks meets l ↔ MetNext asks meets l.reverse := by
  constructor
  · intro h before x after hl i hi
    rw [List.reverse_eq_iff] at hl
    obtain ⟨init, last, hbefore, hmeets⟩ := h after.reverse x before.reverse (by simp [hl]) i hi
    rw [List.reverse_eq_iff] at hbefore
    exact ⟨last, init.reverse, by simp [hbefore], hmeets⟩
  · intro h before x after hl i hi
    obtain ⟨next, rest, hbefore, hmeets⟩ :=
      h after.reverse x before.reverse (by simp [hl]) i hi
    rw [List.reverse_eq_iff] at hbefore
    exact ⟨rest.reverse, next, by simp [hbefore], hmeets⟩

theorem metLastOver_reverse {silent : α → Prop} {asks meets : α → ι → Prop} {l : List α} :
    MetLastOver silent asks meets l ↔ MetNextOver silent asks meets l.reverse := by
  constructor
  · intro h before x after hl i hi
    rw [List.reverse_eq_iff] at hl
    obtain ⟨init, last, skipped, hbefore, hskipped, hmeets⟩ :=
      h after.reverse x before.reverse (by simp [hl]) i hi
    rw [List.reverse_eq_iff] at hbefore
    exact ⟨skipped.reverse, last, init.reverse, by simp [hbefore],
      fun y hy => hskipped y (List.mem_reverse.mp hy), hmeets⟩
  · intro h before x after hl i hi
    obtain ⟨skipped, next, rest, hbefore, hskipped, hmeets⟩ :=
      h after.reverse x before.reverse (by simp [hl]) i hi
    rw [List.reverse_eq_iff] at hbefore
    exact ⟨rest.reverse, next, skipped.reverse, by simp [hbefore],
      fun y hy => hskipped y (List.mem_reverse.mp hy), hmeets⟩

/-- An element of the image comes from one of the list, with what is around it. -/
theorem filterMap_split {f : α → Option β} {l : List α} {before after : List β} {m : β}
    (h : l.filterMap f = before ++ m :: after) :
    ∃ init x rest, l = init ++ x :: rest ∧ f x = some m ∧ rest.filterMap f = after := by
  obtain ⟨l₁, l₂, rfl, -, hl₂⟩ := List.filterMap_eq_append_iff.mp h
  obtain ⟨skipped, x, rest, rfl, -, hx, hrest⟩ := List.filterMap_eq_cons_iff.mp hl₂
  exact ⟨l₁ ++ skipped, x, rest, by simp, hx, hrest⟩

section
variable {silent : α → Prop} {asks meets : α → ι → Prop} {asks' meets' : β → ι → Prop}
  {f : α → Option β}

/-- The image's elements are met by their neighbours just where those of the list are, over the
    silent ones. -/
theorem metNext_filterMap (hsilent : ∀ x, f x = none ↔ silent x)
    (hasks : ∀ x m, f x = some m → ∀ i, asks' m i ↔ asks x i)
    (hmeets : ∀ x m, f x = some m → ∀ i, meets' m i ↔ meets x i)
    (hquiet : ∀ x i, silent x → ¬ asks x i ∧ ¬ meets x i) (l : List α) :
    MetNext asks' meets' (l.filterMap f) ↔ MetNextOver silent asks meets l := by
  -- what asks for something or meets it has an image
  have himage {x : α} {i : ι} (hx : asks x i ∨ meets x i) : ∃ m, f x = some m := by
    refine Option.ne_none_iff_exists'.mp fun hnone => ?_
    obtain ⟨hasks, hmeets⟩ := hquiet x i ((hsilent x).mp hnone)
    exact hx.elim hasks hmeets
  constructor
  · rintro h before x after rfl i hi
    obtain ⟨m, hm⟩ := himage (.inl hi)
    obtain ⟨next, rest, hafter, hnext⟩ := h (before.filterMap f) m (after.filterMap f)
      (by rw [List.filterMap_append, List.filterMap_cons_some hm]) i ((hasks x m hm i).mpr hi)
    obtain ⟨skipped, y, rest', rfl, hskipped, hy, -⟩ := List.filterMap_eq_cons_iff.mp hafter
    exact ⟨skipped, y, rest', rfl, fun z hz => (hsilent z).mp (hskipped z hz),
      (hmeets y next hy i).mp hnext⟩
  · intro h before m after hl i hi
    obtain ⟨init, x, rest, rfl, hx, rfl⟩ := filterMap_split hl
    obtain ⟨skipped, y, rest', rfl, hskipped, hy⟩ := h init x rest rfl i ((hasks x m hx i).mp hi)
    obtain ⟨n, hn⟩ := himage (.inr hy)
    refine ⟨n, rest'.filterMap f, ?_, (hmeets y n hn i).mpr hy⟩
    rw [List.filterMap_append, List.filterMap_cons_some hn,
      List.filterMap_eq_nil_iff.mpr fun z hz => (hsilent z).mpr (hskipped z hz), List.nil_append]

theorem metLast_filterMap (hsilent : ∀ x, f x = none ↔ silent x)
    (hasks : ∀ x m, f x = some m → ∀ i, asks' m i ↔ asks x i)
    (hmeets : ∀ x m, f x = some m → ∀ i, meets' m i ↔ meets x i)
    (hquiet : ∀ x i, silent x → ¬ asks x i ∧ ¬ meets x i) (l : List α) :
    MetLast asks' meets' (l.filterMap f) ↔ MetLastOver silent asks meets l := by
  rw [metLast_reverse, metLastOver_reverse, ← List.filterMap_reverse]
  exact metNext_filterMap hsilent hasks hmeets hquiet l.reverse

end

end LunaCore.Schemes
