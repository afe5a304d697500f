import Mathlib.Algebra.BigOperators.Group.List.Basic
import Mathlib.Data.List.Dedup

/-! Rows grouped by a key, as GROUP BY groups them.

        rows        a₁ b₁ a₂ c₁ b₂
        groups      a ↦ a₁ a₂     b ↦ b₁ b₂     c ↦ c₁

    Each row is in exactly one group, so whatever is summed group by group sums up to the whole;
    and where a key is finer than another, the groups of the finer one make up those of the
    coarser. -/

namespace LunaCore.Schemes

variable {α κ M : Type*} [DecidableEq κ] [AddCommMonoid M]

/-- The rows with this key. -/
def group (key : α → κ) (rows : List α) (k : κ) : List α := rows.filter fun row => key row = k

/-- The keys that occur, each once. -/
def groupKeys (key : α → κ) (rows : List α) : List κ := (rows.map key).dedup

variable {key : α → κ} {rows : List α}

theorem mem_group {row : α} {k : κ} : row ∈ group key rows k ↔ row ∈ rows ∧ key row = k := by
  simp [group]

theorem mem_groupKeys {k : κ} : k ∈ groupKeys key rows ↔ ∃ row ∈ rows, key row = k := by
  simp [groupKeys]

theorem groupKeys_nodup : (groupKeys key rows).Nodup := List.nodup_dedup _

/-- No group is empty. -/
theorem group_ne_nil {k : κ} (h : k ∈ groupKeys key rows) : group key rows k ≠ [] := by
  obtain ⟨row, hrow, hk⟩ := mem_groupKeys.mp h
  exact List.ne_nil_of_mem (mem_group.mpr ⟨hrow, hk⟩)

theorem group_cons (row : α) (k : κ) :
    group key (row :: rows) k = if key row = k then row :: group key rows k
      else group key rows k := by
  rw [group, List.filter_cons]
  simp [group]

/-- One addend more at one key. -/
theorem sum_map_update (g : κ → M) (k : κ) (x : M) : ∀ {keys : List κ}, keys.Nodup → k ∈ keys →
    (keys.map fun j => if k = j then x + g j else g j).sum = x + (keys.map g).sum
  | j :: keys, hnodup, hmem => by
    obtain ⟨hj, hnodup⟩ := List.nodup_cons.mp hnodup
    rw [List.map_cons, List.sum_cons, List.map_cons, List.sum_cons]
    rcases List.mem_cons.mp hmem with rfl | hmem
    · have hrest : (keys.map fun j => if k = j then x + g j else g j) = keys.map g :=
        List.map_congr_left fun j hjmem => if_neg fun (h : k = j) => hj (h ▸ hjmem)
      rw [if_pos rfl, hrest, add_assoc]
    · rw [if_neg fun (h : k = j) => hj (h ▸ hmem), sum_map_update g k x hnodup hmem]
      exact add_left_comm _ _ _

/-- Sums over the groups make the sum over the rows. -/
theorem sum_groups (f : α → M) {keys : List κ} (hnodup : keys.Nodup)
    (hall : ∀ row ∈ rows, key row ∈ keys) :
    (keys.map fun k => ((group key rows k).map f).sum).sum = (rows.map f).sum := by
  induction rows with
  | nil => simp [group]
  | cons row rows ih =>
    obtain ⟨hrow, hrows⟩ := List.forall_mem_cons.mp hall
    have hsplit : ∀ k ∈ keys, ((group key (row :: rows) k).map f).sum =
        if key row = k then f row + ((group key rows k).map f).sum
        else ((group key rows k).map f).sum := by
      intro k _
      rw [group_cons]
      split
      · rfl
      · rfl
    rw [List.map_congr_left hsplit, sum_map_update _ _ _ hnodup hrow, ih hrows, List.map_cons,
      List.sum_cons]

/-- ROLL-UP: the groups whose keys meet a test hold the rows whose keys meet it. -/
theorem sum_groups_filter (f : α → M) (p : κ → Bool) :
    (((groupKeys key rows).filter p).map fun k => ((group key rows k).map f).sum).sum =
      ((rows.filter fun row => p (key row)).map f).sum := by
  have hsame : ∀ k ∈ (groupKeys key rows).filter p, ((group key rows k).map f).sum =
      ((group key (rows.filter fun row => p (key row)) k).map f).sum := by
    intro k hk
    have hp := (List.mem_filter.mp hk).2
    rw [group, group, List.filter_filter]
    refine congrArg (fun l => (List.map f l).sum) (List.filter_congr fun row _ => ?_)
    by_cases hkey : key row = k
    · simp [hkey, hp]
    · simp [hkey]
  rw [List.map_congr_left hsame]
  refine sum_groups f (groupKeys_nodup.filter _) fun row hrow => ?_
  obtain ⟨hrow, hp⟩ := List.mem_filter.mp hrow
  exact List.mem_filter.mpr ⟨mem_groupKeys.mpr ⟨row, hrow, rfl⟩, hp⟩

end LunaCore.Schemes
