import LunaCore.Schemes.Keyed

/-! Things filed in a table one after the other, and what a key has in the end.

    setdefault    the first thing of a key stays
    assignment    the last one does
    a revision    changes what is there, key by key, by what another table has under the key
    gathering     every one adds to what the key has -/

namespace LunaCore.Schemes

variable {α κ ν μ : Type*} [DecidableEq κ]

/-- `t.setdefault(k, v)`. -/
def setDefault (t : Table κ ν) (k : κ) (v : ν) : Table κ ν :=
  match t.lookup k with
  | some _ => t
  | none => t.insert k v

/-- Only the keys that are in the table are revised. -/
def revise (change : ν → μ → ν) (t : Table κ ν) (changes : Table κ μ) : Table κ ν :=
  changes.entries.foldl (fun t entry => match t.lookup entry.1 with
    | some v => t.insert entry.1 (change v entry.2)
    | none => t) t

theorem lookup_setDefault (t : Table κ ν) (k : κ) (v : ν) (k' : κ) :
    (setDefault t k v).lookup k' = (t.lookup k').or (if k = k' then some v else none) := by
  rw [setDefault]
  by_cases hkey : k = k'
  · subst hkey
    cases hk : t.lookup k with
    | some w => simp [hk]
    | none => simp
  · cases t.lookup k with
    | some w => simp [hkey]
    | none => simp [hkey, Ne.symm hkey]

/-- FIRST: of the things of a key, the first is the one in the table. -/
theorem lookup_foldl_setDefault (key : α → κ) (val : α → ν) (k : κ) : ∀ (l : List α) (t : Table κ ν),
    (l.foldl (fun t a => setDefault t (key a) (val a)) t).lookup k =
      (t.lookup k).or ((l.filter fun a => key a = k).head?.map val)
  | [], t => by simp
  | a :: l, t => by
    rw [List.foldl_cons, lookup_foldl_setDefault key val k l, lookup_setDefault, Option.or_assoc]
    congr 1
    by_cases hkey : key a = k
    · simp [hkey]
    · simp [hkey]

/-- LAST: of the things of a key, the last is the one in the table. -/
theorem lookup_foldl_insert (key : α → κ) (val : α → ν) (k : κ) : ∀ (l : List α) (t : Table κ ν),
    (l.foldl (fun t a => t.insert (key a) (val a)) t).lookup k =
      ((l.filter fun a => key a = k).getLast?.map val).or (t.lookup k)
  | [], t => by simp
  | a :: l, t => by
    rw [List.foldl_cons, lookup_foldl_insert key val k l, lookup_insert_ite]
    by_cases hkey : key a = k
    · rw [List.filter_cons_of_pos (by simpa using hkey), List.getLast?_cons]
      cases (l.filter fun a => key a = k).getLast? with
      | none => simp [hkey]
      | some b => simp
    · rw [List.filter_cons_of_neg (by simpa using hkey), if_neg (Ne.symm hkey)]

theorem lookup_foldl_revise (change : ν → μ → ν) (k : κ) :
    ∀ (l : List (Sigma fun _ : κ => μ)), l.NodupKeys → ∀ t : Table κ ν,
    (l.foldl (fun t entry => match t.lookup entry.1 with
      | some v => t.insert entry.1 (change v entry.2)
      | none => t) t).lookup k =
      (t.lookup k).map fun v => (l.dlookup k).elim v (change v)
  | [], _, t => by simp
  | ⟨k', x⟩ :: l, hkeys, t => by
    obtain ⟨hnew, hrest⟩ := List.nodupKeys_cons.mp hkeys
    rw [List.foldl_cons, lookup_foldl_revise change k l hrest]
    by_cases hkey : k = k'
    · -- its own revision, and no other behind it
      subst hkey
      rw [List.dlookup_eq_none.mpr hnew, List.dlookup_cons_eq]
      cases hk : t.lookup k with
      | some v => simp
      | none => simp [hk]
    · rw [List.dlookup_cons_ne _ _ hkey]
      cases t.lookup k' with
      | some v => simp [hkey]
      | none => rfl

/-- REVISED: what a key had, changed by what the changes have under it. -/
theorem lookup_revise (change : ν → μ → ν) (t : Table κ ν) (changes : Table κ μ) (k : κ) :
    (revise change t changes).lookup k =
      (t.lookup k).map fun v => (changes.lookup k).elim v (change v) :=
  lookup_foldl_revise change k changes.entries changes.nodupKeys t

/-- GATHERED: the things of a key, one added after the other. -/
theorem lookup_foldl_gather (key : α → κ) (start : ν) (add : ν → α → ν) (k : κ) :
    ∀ (l : List α) (t : Table κ ν),
      (l.foldl (fun t a => t.insert (key a) (add ((t.lookup (key a)).getD start) a)) t).lookup k =
        if (l.filter fun a => key a = k) = [] then t.lookup k
        else some ((l.filter fun a => key a = k).foldl add ((t.lookup k).getD start))
  | [], t => by simp
  | a :: l, t => by
    rw [List.foldl_cons, lookup_foldl_gather key start add k l, lookup_insert_ite]
    by_cases hkey : key a = k
    · subst hkey
      rw [List.filter_cons_of_pos (by simp), if_pos rfl, if_neg (List.cons_ne_nil _ _),
        List.foldl_cons, Option.getD_some]
      split
      case isTrue hnil => rw [hnil, List.foldl_nil]
      case isFalse => rfl
    · rw [List.filter_cons_of_neg (by simpa using hkey), if_neg (Ne.symm hkey)]

end LunaCore.Schemes
