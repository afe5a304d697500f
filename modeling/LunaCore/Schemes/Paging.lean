import Mathlib.Data.List.Sort
import Mathlib.Tactic.Ring

/-! Reading a listing page by page.

        whole      a b c d e f g         page k is what stands from k·limit on, at most limit
        pages      a b c │ d e f │ g     the first page shorter than limit is the last

    Each page is a query of its own, which puts the rows in order again; where the order leaves
    nothing open, the pages are pages of one listing. -/

namespace LunaCore.Schemes

variable {α : Type*}

/-- The page of a listing that begins behind `offset` rows. -/
def page (whole : List α) (limit offset : ℕ) : List α := (whole.drop offset).take limit

/-- The first pages, one after the other, are the beginning of the listing. -/
theorem pages_eq_take (whole : List α) (limit n : ℕ) :
    (List.range n).flatMap (fun k => page whole limit (k * limit)) = whole.take (n * limit) := by
  induction n with
  | zero => simp
  | succ n ih =>
    rw [List.range_succ, List.flatMap_append, ih, List.flatMap_singleton, page, Nat.succ_mul,
      List.take_add]

/-- A page shorter than the limit ends the listing. -/
theorem length_le_of_short {whole : List α} {limit offset : ℕ}
    (h : (page whole limit offset).length < limit) : whole.length ≤ offset + limit := by
  rw [page, List.length_take, List.length_drop] at h
  omega

/-- The pages up to the first short one are the whole listing. -/
theorem pages_eq_whole {whole : List α} {limit n : ℕ}
    (h : (page whole limit (n * limit)).length < limit) :
    (List.range (n + 1)).flatMap (fun k => page whole limit (k * limit)) = whole := by
  rw [pages_eq_take, Nat.succ_mul]
  exact List.take_of_length_le (length_le_of_short h)

/-- In an order that tells all rows apart, a selection has one listing. -/
theorem listing_unique {r : α → α → Prop} {xs ys : List α} (hperm : xs.Perm ys)
    (hxs : xs.Pairwise r) (hys : ys.Pairwise r)
    (hr : ∀ a ∈ xs, ∀ b ∈ xs, r a b → r b a → a = b) : xs = ys :=
  hperm.eq_of_pairwise (fun a b ha hb hab hba => hr a ha b (hperm.symm.subset hb) hab hba) hxs hys

end LunaCore.Schemes
