import Mathlib.Data.List.Basic
import Mathlib.Data.List.Induction
import Mathlib.Data.Rat.Defs
import Mathlib.Tactic.Common

/-! JSON values and Python dicts of them: what a JSONB column, a run state or a tool's arguments
    hold.

    A dict is an association list in insertion order, read and written the way Python does it:
    the first occurrence of a key is the key, assigning to a present key keeps its place. Equality
    of values is decidable, so every definition over them can be evaluated. -/

namespace LunaCore.Values

/-- A JSON value; a number is any rational (floats of the source are finite). -/
inductive Json where
  | null
  | bool (b : Bool)
  | num (q : ℚ)
  | str (s : String)
  | arr (items : List Json)
  | obj (fields : List (String × Json))

/-- A Python `dict[str, Any]`. -/
abbrev Dict := List (String × Json)

mutual

/-- Structural equality, as a function that computes. -/
def Json.same : Json → Json → Bool
  | .null, .null => true
  | .bool a, .bool b => a == b
  | .num a, .num b => a == b
  | .str a, .str b => a == b
  | .arr xs, .arr ys => sameItems xs ys
  | .obj xs, .obj ys => sameFields xs ys
  | _, _ => false

def sameItems : List Json → List Json → Bool
  | [], [] => true
  | x :: xs, y :: ys => x.same y && sameItems xs ys
  | _, _ => false

def sameFields : List (String × Json) → List (String × Json) → Bool
  | [], [] => true
  | (k, x) :: xs, (l, y) :: ys => k == l && x.same y && sameFields xs ys
  | _, _ => false

end

mutual

theorem Json.same_iff : ∀ a b : Json, a.same b = true ↔ a = b
  | .null, b => by cases b <;> simp [Json.same]
  | .bool a, b => by cases b <;> simp [Json.same]
  | .num a, b => by cases b <;> simp [Json.same]
  | .str a, b => by cases b <;> simp [Json.same]
  | .arr xs, b => by
      cases b with
      | arr ys => simpa [Json.same] using sameItems_iff xs ys
      | _ => simp [Json.same]
  | .obj xs, b => by
      cases b with
      | obj ys => simpa [Json.same] using sameFields_iff xs ys
      | _ => simp [Json.same]

theorem sameItems_iff : ∀ xs ys : List Json, sameItems xs ys = true ↔ xs = ys
  | [], ys => by cases ys <;> simp [sameItems]
  | x :: xs, ys => by
      cases ys with
      | nil => simp [sameItems]
      | cons y ys => simp [sameItems, Json.same_iff x y, sameItems_iff xs ys]

theorem sameFields_iff : ∀ xs ys : List (String × Json), sameFields xs ys = true ↔ xs = ys
  | [], ys => by cases ys <;> simp [sameFields]
  | (k, x) :: xs, ys => by
      cases ys with
      | nil => simp [sameFields]
      | cons y ys =>
        obtain ⟨l, y⟩ := y
        simp [sameFields, Json.same_iff x y, sameFields_iff xs ys]

end

instance : DecidableEq Json := fun a b => decidable_of_iff _ (Json.same_iff a b)

namespace Dict

/-- `d.get(key)`. -/
def get : Dict → String → Option Json
  | [], _ => none
  | (k, v) :: d, key => if k == key then some v else get d key

/-- `d[key] = value`: a present key keeps its place, a new one goes to the end. -/
def set : Dict → String → Json → Dict
  | [], key, value => [(key, value)]
  | (k, v) :: d, key, value => if k == key then (k, value) :: d else (k, v) :: set d key value

/-- `d.update(other)`: assign the other dict's items in its order. -/
def update (d other : Dict) : Dict :=
  other.foldl (fun acc kv => set acc kv.1 kv.2) d

/-- Assigning to a key changes what that key reads and nothing else. -/
theorem get_set (d : Dict) (key : String) (value : Json) (k : String) :
    get (set d key value) k = if k = key then some value else get d k := by
  induction d with
  | nil =>
    by_cases h : key = k
    · simp [set, get, h]
    · simp [set, get, h, Ne.symm h]
  | cons kv d ih =>
    obtain ⟨k', v⟩ := kv
    by_cases hk : k' = key
    · subst hk
      by_cases h : k' = k
      · simp [set, get, h]
      · simp [set, get, h, Ne.symm h]
    · by_cases h : k' = k
      · subst h
        simp [set, get, hk]
      · simp [set, get, hk, h, ih]

/-- What was just assigned under a key is what the key reads. -/
theorem get_set_self (d : Dict) (key : String) (value : Json) :
    get (set d key value) key = some value := by
  rw [get_set, if_pos rfl]

/-- A key reads its last occurrence in the other dict, and what it read where that has none. -/
theorem get_update (d : Dict) : ∀ (other : Dict) (k : String),
    get (update d other) k = (get other.reverse k).or (get d k) := by
  intro other
  induction other using List.reverseRecOn with
  | nil => intro k; rfl
  | append_singleton other kv ih =>
    intro k
    have hlast : update d (other ++ [kv]) = set (update d other) kv.1 kv.2 := by
      simp [update]
    rw [hlast, get_set, ih k, List.reverse_append]
    by_cases h : k = kv.1
    · simp [get, h]
    · simp [get, h, Ne.symm h]

/-- A dict as Python has it: each key once. -/
def Distinct (d : Dict) : Prop := (d.map Prod.fst).Nodup

instance (d : Dict) : Decidable d.Distinct := inferInstanceAs (Decidable (List.Nodup _))

theorem keys_set (d : Dict) (key : String) (value : Json) :
    (set d key value).map Prod.fst =
      if key ∈ d.map Prod.fst then d.map Prod.fst else d.map Prod.fst ++ [key] := by
  induction d with
  | nil => rfl
  | cons kv d ih =>
    obtain ⟨k, v⟩ := kv
    by_cases hk : k = key
    · simp [set, hk]
    · by_cases hmem : key ∈ d.map Prod.fst
      · rw [if_pos hmem] at ih
        simp only [set, beq_iff_eq, hk, if_false, List.map_cons, List.mem_cons, ih]
        rw [if_pos (.inr hmem)]
      · rw [if_neg hmem] at ih
        simp only [set, beq_iff_eq, hk, if_false, List.map_cons, List.mem_cons, ih]
        rw [if_neg (by simpa [Ne.symm hk] using hmem)]
        rfl

theorem Distinct.set {d : Dict} (h : d.Distinct) (key : String) (value : Json) :
    (d.set key value).Distinct := by
  rw [Distinct, keys_set]
  split
  case isTrue => exact h
  case isFalse hmem =>
    refine List.nodup_append.mpr ⟨h, by simp, fun k hk key' hkey => ?_⟩
    obtain rfl := List.mem_singleton.mp hkey
    exact fun heq => hmem (heq ▸ hk)

theorem Distinct.update {d : Dict} (h : d.Distinct) : ∀ other : Dict, (d.update other).Distinct := by
  intro other
  induction other using List.reverseRecOn with
  | nil => exact h
  | append_singleton other kv ih =>
    have hlast : d.update (other ++ [kv]) = (d.update other).set kv.1 kv.2 := by
      simp [Dict.update]
    rw [hlast]
    exact ih.set kv.1 kv.2

theorem get_eq_none {d : Dict} {k : String} : get d k = none ↔ k ∉ d.map Prod.fst := by
  induction d with
  | nil => simp [get]
  | cons kv d ih =>
    by_cases h : kv.1 = k
    · simp [get, h]
    · simp [get, h, Ne.symm h, ih]

theorem mem_of_get {d : Dict} {k : String} {v : Json} (h : get d k = some v) : (k, v) ∈ d := by
  induction d with
  | nil => cases h
  | cons kv d ih =>
    by_cases hk : kv.1 = k
    · simp only [get, hk, beq_self_eq_true, if_true, Option.some.injEq] at h
      rw [← hk, ← h]
      exact List.mem_cons_self
    · simp only [get, beq_iff_eq, hk, if_false] at h
      exact List.mem_cons_of_mem _ (ih h)

theorem Distinct.get_of_mem {d : Dict} (h : d.Distinct) {k : String} {v : Json}
    (hmem : (k, v) ∈ d) : get d k = some v := by
  induction d with
  | nil => cases hmem
  | cons kv d ih =>
    obtain ⟨hnew, hd⟩ := List.nodup_cons.mp h
    rcases List.mem_cons.mp hmem with rfl | hrest
    · simp [get]
    · have hne : kv.1 ≠ k := fun heq => hnew (heq ▸ List.mem_map_of_mem hrest)
      simpa [get, hne] using ih hd hrest

theorem get_append (d e : Dict) (k : String) : get (d ++ e) k = (get d k).or (get e k) := by
  induction d with
  | nil => rfl
  | cons kv d ih =>
    by_cases h : kv.1 = k
    · simp [get, h]
    · simpa [get, h] using ih

/-- Of a dict with each key once, the last occurrence is the only one. -/
theorem get_reverse {d : Dict} (h : d.Distinct) (k : String) : get d.reverse k = get d k := by
  induction d with
  | nil => rfl
  | cons kv d ih =>
    obtain ⟨hnew, hd⟩ := List.nodup_cons.mp h
    rw [List.reverse_cons, get_append, ih hd]
    by_cases hk : kv.1 = k
    · subst hk
      rw [get_eq_none.mpr hnew]
      simp [get]
    · simp [get, hk]

/-- `d.update(other)` for a dict with each key once. -/
theorem get_update_of_distinct (d : Dict) {other : Dict} (h : other.Distinct) (k : String) :
    get (update d other) k = (get other k).or (get d k) := by
  rw [get_update, get_reverse h]

/-- Only one entry of a dict has a key. -/
theorem filter_key {d : Dict} (h : d.Distinct) {k : String} {v : Json} (hget : get d k = some v) :
    (d.filter fun kv => kv.1 = k) = [(k, v)] := by
  induction d with
  | nil => cases hget
  | cons kv d ih =>
    obtain ⟨hnew, hd⟩ := List.nodup_cons.mp h
    by_cases hk : kv.1 = k
    · subst hk
      obtain rfl : kv.2 = v := by simpa [get] using hget
      rw [List.filter_cons_of_pos (by simp), List.filter_eq_nil_iff.mpr]
      intro other hother
      simpa using fun heq => hnew (List.mem_map.mpr ⟨other, hother, heq⟩)
    · rw [List.filter_cons_of_neg (by simpa using hk)]
      exact ih hd (by simpa [get, hk] using hget)

/-- Leaving keys out. -/
theorem get_filter (p : String → Bool) (d : Dict) (k : String) :
    get (d.filter fun kv => p kv.1) k = if p k then get d k else none := by
  induction d with
  | nil => simp [get]
  | cons kv d ih =>
    by_cases hk : kv.1 = k
    · subst hk
      by_cases hp : p kv.1 = true
      · simp [hp, get]
      · simpa [hp, get] using ih
    · by_cases hp : p kv.1 = true
      · simpa [hp, get, hk] using ih
      · simpa [hp, get, hk] using ih

theorem Distinct.filter {d : Dict} (h : d.Distinct) (p : String × Json → Bool) :
    Distinct (d.filter p) :=
  h.sublist (List.filter_sublist.map _)

/-- Leaving values out. -/
theorem get_filter_value {d : Dict} (h : d.Distinct) (p : Json → Bool) (k : String) :
    get (d.filter fun kv => p kv.2) k = (get d k).filter p := by
  induction d with
  | nil => rfl
  | cons kv d ih =>
    obtain ⟨hnew, hd⟩ := List.nodup_cons.mp h
    by_cases hk : kv.1 = k
    · subst hk
      by_cases hp : p kv.2 = true
      · simp [hp, get, Option.filter]
      · have hnone : get d kv.1 = none := get_eq_none.mpr hnew
        simp [hp, get, ih hd, hnone, Option.filter]
    · by_cases hp : p kv.2 = true
      · simpa [hp, get, hk] using ih hd
      · simpa [hp, get, hk] using ih hd

theorem get_map (f : Json → Json) (d : Dict) (k : String) :
    get (d.map fun kv => (kv.1, f kv.2)) k = (get d k).map f := by
  induction d with
  | nil => rfl
  | cons kv d ih =>
    by_cases hk : kv.1 = k
    · simp [get, hk]
    · simpa [get, hk] using ih

theorem Distinct.map {d : Dict} (h : d.Distinct) (f : Json → Json) :
    Distinct (d.map fun kv => (kv.1, f kv.2)) := by
  rw [Distinct, List.map_map]
  exact h

end Dict

/-- `str.isspace` of one character. -/
def isSpace (c : Char) : Bool :=
  let n := c.toNat
  decide (9 ≤ n ∧ n ≤ 13 ∨ 28 ≤ n ∧ n ≤ 32 ∨ n = 133 ∨ n = 160 ∨ n = 5760 ∨ 8192 ≤ n ∧ n ≤ 8202 ∨
    n = 8232 ∨ n = 8233 ∨ n = 8239 ∨ n = 8287 ∨ n = 12288)

/-- `not text.strip()`. -/
def blank (text : String) : Bool := text.toList.all isSpace

end LunaCore.Values
