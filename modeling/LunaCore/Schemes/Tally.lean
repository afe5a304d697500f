import Mathlib.Logic.Function.Basic
import Mathlib.Data.List.Basic
import Mathlib.Data.List.Infix

/-! Numbering things of several kinds, each kind on its own.

        things    a₁  b₁  a₂  a₃  b₂        counters from 0
        things            a₂  a₃  b₂        counters from what came before

    A count need not start at the first thing: handed the counters of what it leaves out, it gives
    the rest the numbers they have in the whole. -/

namespace LunaCore.Schemes

variable {α β γ κ σ : Type*} [DecidableEq κ]

/-- One more thing of its kind. -/
def passOne (kind : α → κ) (counters : κ → ℕ) (a : α) : κ → ℕ :=
  Function.update counters (kind a) (counters (kind a) + 1)

/-- The counters once `things` were passed. -/
def passed (kind : α → κ) (counters : κ → ℕ) (things : List α) : κ → ℕ :=
  things.foldl (passOne kind) counters

/-- Each thing with its number among those of its kind. -/
def tally (kind : α → κ) : (κ → ℕ) → List α → List (α × ℕ)
  | _, [] => []
  | counters, a :: rest => (a, counters (kind a) + 1) :: tally kind (passOne kind counters a) rest

variable {kind : α → κ} {counters : κ → ℕ}

@[simp] theorem passed_cons (a : α) (rest : List α) :
    passed kind counters (a :: rest) = passed kind (passOne kind counters a) rest := rfl

theorem passed_append (xs ys : List α) :
    passed kind counters (xs ++ ys) = passed kind (passed kind counters xs) ys :=
  List.foldl_append

/-- A counter is ahead by the things of its kind. -/
theorem passed_apply (things : List α) (k : κ) :
    passed kind counters things k = counters k + things.countP (kind · = k) := by
  induction things generalizing counters with
  | nil => rfl
  | cons a rest ih =>
    rw [passed_cons, ih, List.countP_cons, passOne, Function.update_apply]
    by_cases hk : kind a = k
    · subst hk
      simp
      omega
    · simp [hk, Ne.symm hk]

/-- What comes first takes its numbers, and the rest goes on from there. -/
theorem tally_append (xs ys : List α) :
    tally kind counters (xs ++ ys) =
      tally kind counters xs ++ tally kind (passed kind counters xs) ys := by
  induction xs generalizing counters with
  | nil => rfl
  | cons a xs ih => simp only [List.cons_append, tally, ih, passed_cons]

/-- The rest, numbered on from what came before, has the numbers it has in the whole. -/
theorem tally_suffix (xs ys : List α) :
    tally kind (passed kind counters xs) ys <:+ tally kind counters (xs ++ ys) :=
  ⟨_, (tally_append xs ys).symm⟩

/-- Later things take no number back. -/
theorem tally_stays (xs ys : List α) : tally kind counters xs <+: tally kind counters (xs ++ ys) :=
  ⟨_, (tally_append xs ys).symm⟩

/-- The number of a thing counts those of its kind up to it. -/
theorem tally_eq_mapIdx (things : List α) :
    tally kind counters things = things.mapIdx fun i a =>
      (a, counters (kind a) + (things.take (i + 1)).countP (kind · = kind a)) := by
  induction things generalizing counters with
  | nil => rfl
  | cons a rest ih =>
    rw [tally, ih, List.mapIdx_cons]
    congr 1
    · simp
    · refine congrArg (List.mapIdx · rest) (funext fun i => funext fun b => ?_)
      rw [List.take_succ_cons, List.countP_cons, passOne, Function.update_apply]
      by_cases hk : kind a = kind b
      · simp [hk]
        omega
      · simp [hk, Ne.symm hk]

/-- What each stop puts out, under the counters it finds. -/
def visit (emit : (κ → ℕ) → σ → List β × (κ → ℕ)) : (κ → ℕ) → List σ → List β
  | _, [] => []
  | counters, s :: stops => (emit counters s).1 ++ visit emit (emit counters s).2 stops

omit [DecidableEq κ] in
/-- What the first stops put out does not depend on the later ones, nor these on more than the
    counters they find. -/
theorem visit_append (emit : (κ → ℕ) → σ → List β × (κ → ℕ)) (counters : κ → ℕ) (stops : List σ) :
    ∃ left, ∀ later,
      visit emit counters (stops ++ later) = visit emit counters stops ++ visit emit left later := by
  induction stops generalizing counters with
  | nil => exact ⟨counters, fun later => rfl⟩
  | cons s stops ih =>
    obtain ⟨left, hleft⟩ := ih (emit counters s).2
    exact ⟨left, fun later => by rw [List.cons_append, visit, visit, hleft, List.append_assoc]⟩

omit [DecidableEq κ] in
/-- What was put out, some stop put out. -/
theorem exists_of_mem_visit {emit : (κ → ℕ) → σ → List β × (κ → ℕ)} {stops : List σ} {b : β}
    (h : b ∈ visit emit counters stops) : ∃ s ∈ stops, ∃ found, b ∈ (emit found s).1 := by
  induction stops generalizing counters with
  | nil => cases h
  | cons s stops ih =>
    rcases List.mem_append.mp h with hs | hrest
    · exact ⟨s, List.mem_cons_self, counters, hs⟩
    · obtain ⟨t, ht, found⟩ := ih hrest
      exact ⟨t, List.mem_cons_of_mem _ ht, found⟩

omit [DecidableEq κ] in
/-- Where what a stop puts out holds the stop's own marks whatever the counters, the whole holds
    those of the stops in order. -/
theorem flatMap_visit {emit : (κ → ℕ) → σ → List β × (κ → ℕ)} {marks : β → List γ}
    {own : σ → List γ} (h : ∀ counters s, (emit counters s).1.flatMap marks = own s)
    (counters : κ → ℕ) (stops : List σ) :
    (visit emit counters stops).flatMap marks = stops.flatMap own := by
  induction stops generalizing counters with
  | nil => rfl
  | cons s stops ih => rw [visit, List.flatMap_append, h, ih, List.flatMap_cons]

/-- Each stop numbers the things it holds in order: the marks in what it puts out are theirs, and it
    leaves the counters that much ahead. -/
structure Numbers (kind : α → κ) (mark : α × ℕ → γ) (things : σ → List α)
    (emit : (κ → ℕ) → σ → List β × (κ → ℕ)) (marks : β → List γ) : Prop where
  marks : ∀ counters s,
    (emit counters s).1.flatMap marks = (tally kind counters (things s)).map mark
  counters : ∀ counters s, (emit counters s).2 = passed kind counters (things s)

/-- Then so does the visit of all of them. -/
theorem Numbers.visit {mark : α × ℕ → γ} {things : σ → List α}
    {emit : (κ → ℕ) → σ → List β × (κ → ℕ)} {marks : β → List γ}
    (h : Numbers kind mark things emit marks) (stops : List σ) :
    (visit emit counters stops).flatMap marks =
      (tally kind counters (stops.flatMap things)).map mark := by
  induction stops generalizing counters with
  | nil => rfl
  | cons s stops ih =>
    rw [Schemes.visit, List.flatMap_append, h.marks, ih, h.counters, List.flatMap_cons,
      tally_append, List.map_append]

end LunaCore.Schemes
