import Mathlib.Data.List.Basic
import Mathlib.Tactic.Common

/-! State channels written in supersteps.

    The nodes of a superstep all read the channels as they were when it began; what they write is
    applied at its end. A plain channel takes one write a superstep, a folded one any number,
    through its reducer. Where a superstep is accepted it does what merging its updates one after
    another does, which is how a mirror of the channels can keep up with a stream of updates. -/

namespace LunaCore.Schemes

variable {K V : Type*}

/-- How a channel takes its writes. -/
inductive Channel (V : Type*) where
  | plain
  | folded (reduce : Option V → V → V)

/-- One write. -/
def Channel.write : Channel V → Option V → V → V
  | .plain, _, v => v
  | .folded reduce, old, v => reduce old v

/-- A channel takes these writes in one superstep. -/
def Channel.Accepts : Channel V → List V → Prop
  | .plain, values => values.length ≤ 1
  | .folded _, _ => True

instance : ∀ (c : Channel V) (values : List V), Decidable (c.Accepts values)
  | .plain, values => inferInstanceAs (Decidable (values.length ≤ 1))
  | .folded _, _ => inferInstanceAs (Decidable True)

/-- What the updates write to a channel; an update gives at most one value for it. -/
def writesTo (updates : List (K → Option V)) (k : K) : List V := updates.filterMap fun u => u k

variable (schema : K → Channel V)

/-- Every one of the channels takes what the updates write to it. -/
def Accepted (keys : List K) (updates : List (K → Option V)) : Prop :=
  ∀ k ∈ keys, (schema k).Accepts (writesTo updates k)

instance (keys : List K) (updates : List (K → Option V)) :
    Decidable (Accepted schema keys updates) :=
  inferInstanceAs (Decidable (∀ k ∈ keys, _))

/-- The channels after a superstep. -/
def superstep (channels : K → Option V) (updates : List (K → Option V)) (k : K) : Option V :=
  (writesTo updates k).foldl (fun old v => some ((schema k).write old v)) (channels k)

/-- The channels after one update on its own. -/
def mergeUpdate (channels : K → Option V) (update : K → Option V) (k : K) : Option V :=
  match update k with
  | none => channels k
  | some v => some ((schema k).write (channels k) v)

variable {schema}

/-- A superstep merges its updates one after another. -/
theorem superstep_eq_foldl (updates : List (K → Option V)) (channels : K → Option V) :
    superstep schema channels updates = updates.foldl (mergeUpdate schema) channels := by
  induction updates generalizing channels with
  | nil => rfl
  | cons u us ih =>
    rw [List.foldl_cons, ← ih]
    funext k
    cases hu : u k with
    | none => simp [superstep, writesTo, mergeUpdate, hu]
    | some v => simp [superstep, writesTo, mergeUpdate, hu]

/-- A channel nothing is written to stays. -/
theorem superstep_of_unwritten {updates : List (K → Option V)} {k : K}
    (h : ∀ u ∈ updates, u k = none) (channels : K → Option V) :
    superstep schema channels updates k = channels k := by
  have hnone : writesTo updates k = [] := List.filterMap_eq_nil_iff.mpr h
  rw [superstep, hnone, List.foldl_nil]

/-- One update is always accepted. -/
theorem accepted_singleton (keys : List K) (u : K → Option V) : Accepted schema keys [u] := by
  intro k _
  have hlen : (writesTo [u] k).length ≤ 1 := List.length_filterMap_le _ _
  cases schema k with
  | plain => exact hlen
  | folded reduce => trivial

/-- Updates that all write one plain channel are accepted one at a time only. -/
theorem Accepted.length_le {keys : List K} {updates : List (K → Option V)} {k : K}
    (h : Accepted schema keys updates) (hk : k ∈ keys) (hplain : schema k = .plain)
    (hall : ∀ u ∈ updates, (u k).isSome) : updates.length ≤ 1 := by
  have hacc : (Channel.plain : Channel V).Accepts (writesTo updates k) := hplain ▸ h k hk
  have hlen : (writesTo updates k).length = updates.length :=
    List.filterMap_length_eq_length.mpr hall
  rw [← hlen]
  exact hacc

end LunaCore.Schemes
