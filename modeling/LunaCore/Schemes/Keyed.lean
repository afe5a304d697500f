import Mathlib.Data.List.AList
import Mathlib.Data.Set.Function

/-! Things kept in a table under keys that need not tell them apart.

    A thing has a key and an entry. Entries tell things apart, keys may not. Putting a thing in
    replaces what is under its key; dropping it erases what is there, whosever entry it is. So a
    table keeps up with a set of things as long as no two of the set share a key, and no longer. -/

namespace LunaCore.Schemes

abbrev Table (κ ν : Type*) := AList fun _ : κ => ν

/-- Every key at once: after an entry, after dropping one key and after dropping several. -/
theorem lookup_insert_ite {κ ν : Type*} [DecidableEq κ] (t : Table κ ν) (k : κ) (v : ν) (k' : κ) :
    (t.insert k v).lookup k' = if k' = k then some v else t.lookup k' := by
  split
  case isTrue h => rw [h, AList.lookup_insert]
  case isFalse h => rw [AList.lookup_insert_ne h]

theorem lookup_erase_ite {κ ν : Type*} [DecidableEq κ] (t : Table κ ν) (k k' : κ) :
    (t.erase k).lookup k' = if k' = k then none else t.lookup k' := by
  split
  case isTrue h => rw [h, AList.lookup_erase]
  case isFalse h => rw [AList.lookup_erase_ne h]

theorem eq_empty_of_lookup {κ ν : Type*} [DecidableEq κ] {t : Table κ ν}
    (h : ∀ k, t.lookup k = none) : t = ∅ := by
  have hkeys : t.keys = [] :=
    List.eq_nil_iff_forall_not_mem.mpr fun k hk =>
      AList.lookup_eq_none.mp (h k) (AList.mem_keys.mpr hk)
  exact AList.ext (List.map_eq_nil_iff.mp hkeys)

theorem lookup_eraseAll {κ ν : Type*} [DecidableEq κ] (ks : List κ) (t : Table κ ν) (k : κ) :
    (ks.foldl (fun t k => t.erase k) t).lookup k = if k ∈ ks then none else t.lookup k := by
  induction ks generalizing t with
  | nil => simp
  | cons k' ks ih =>
    rw [List.foldl_cons, ih, lookup_erase_ite]
    by_cases hk : k = k' <;> by_cases hks : k ∈ ks <;> simp [hk, hks]

/-- What `f` makes of a thing, if anything, put under its name. -/
def fillTable {α ν : Type*} {κ : Type*} [DecidableEq κ] (name : α → κ) (f : α → Option ν)
    (t : Table κ ν) (a : α) : Table κ ν :=
  match f a with
  | some v => t.insert (name a) v
  | none => t

/-- A table filled with things of different names, none of them in it before, has just what it had
    and what was made of these. -/
theorem lookup_foldl_fillTable {α ν : Type*} {κ : Type*} [DecidableEq κ] {name : α → κ}
    {f : α → Option ν} {things : List α} (hnames : (things.map name).Nodup) {t : Table κ ν}
    (ht : ∀ a ∈ things, t.lookup (name a) = none) {k : κ} {v : ν} :
    (things.foldl (fillTable name f) t).lookup k = some v ↔
      (∃ a ∈ things, name a = k ∧ f a = some v) ∨ t.lookup k = some v := by
  induction things generalizing t with
  | nil => simp
  | cons a things ih =>
    obtain ⟨hfirst, hrest⟩ := List.nodup_cons.mp hnames
    have hnone := ht a List.mem_cons_self
    have hone : (fillTable name f t a).lookup k = some v ↔
        (name a = k ∧ f a = some v) ∨ t.lookup k = some v := by
      unfold fillTable
      cases hf : f a with
      | none => simp
      | some w =>
        rw [lookup_insert_ite]
        by_cases hk : k = name a
        · subst hk
          simp [hnone]
        · simp [hk, Ne.symm hk]
    have hthings : ∀ b ∈ things, (fillTable name f t a).lookup (name b) = none := by
      intro b hb
      have hne : name b ≠ name a := fun heq => hfirst (heq ▸ List.mem_map_of_mem hb)
      unfold fillTable
      split
      · rw [lookup_insert_ite, if_neg hne]
        exact ht b (List.mem_cons_of_mem _ hb)
      · exact ht b (List.mem_cons_of_mem _ hb)
    rw [List.foldl_cons, ih hrest hthings, hone]
    constructor
    · rintro (⟨b, hb, hmade⟩ | hmade | hold)
      · exact .inl ⟨b, List.mem_cons_of_mem _ hb, hmade⟩
      · exact .inl ⟨a, List.mem_cons_self, hmade⟩
      · exact .inr hold
    · rintro (⟨b, hb, hmade⟩ | hold)
      · rcases List.mem_cons.mp hb with rfl | hb
        · exact .inr (.inl hmade)
        · exact .inl ⟨b, hb, hmade⟩
      · exact .inr (.inr hold)

/-- A thing goes under its key, as an entry of its own. -/
structure Keyed (α κ ν : Type*) where
  key : α → κ
  entry : α → ν
  entry_injective : Function.Injective entry

namespace Keyed

variable {α κ ν : Type*} [DecidableEq κ] (K : Keyed α κ ν)

/-- The table has the thing's own entry under its key. -/
def Holds (t : Table κ ν) (a : α) : Prop := t.lookup (K.key a) = some (K.entry a)

def put (t : Table κ ν) (a : α) : Table κ ν := t.insert (K.key a) (K.entry a)

/-- Nothing else in the set has the key of this one. -/
def Alone (S : Set α) (a : α) : Prop := ∀ b ∈ S, K.key b = K.key a → b = a

/-- Whatever the table has is some thing's entry under its key, or `F`oreign. -/
def Accounted (F : ν → Prop) (t : Table κ ν) : Prop :=
  ∀ k v, t.lookup k = some v → F v ∨ ∃ a, K.key a = k ∧ K.entry a = v

/-- The table holds the things of the set and no other. -/
def Represents (t : Table κ ν) (S : Set α) : Prop := ∀ a, K.Holds t a ↔ a ∈ S

variable {K} {t : Table κ ν} {S : Set α} {a b : α}

/-- Under one key there is one thing. -/
theorem Holds.unique (ha : K.Holds t a) (hb : K.Holds t b) (hkey : K.key b = K.key a) : b = a := by
  unfold Holds at ha hb
  rw [hkey, ha] at hb
  exact (K.entry_injective (Option.some.inj hb)).symm

theorem Represents.alone (h : K.Represents t S) (ha : a ∈ S) : K.Alone S a := by
  intro b hb hkey
  exact ((h a).mpr ha).unique ((h b).mpr hb) hkey

/-! ### One key -/

theorem holds_put_iff : K.Holds (K.put t a) b ↔ b = a ∨ (K.key b ≠ K.key a ∧ K.Holds t b) := by
  rw [Holds, put]
  by_cases hkey : K.key b = K.key a
  · rw [hkey, AList.lookup_insert]
    constructor
    · intro h
      exact .inl (K.entry_injective (Option.some.inj h)).symm
    · rintro (rfl | ⟨hne, -⟩)
      · rfl
      · exact absurd rfl hne
  · rw [AList.lookup_insert_ne hkey]
    constructor
    · exact fun h => .inr ⟨hkey, h⟩
    · rintro (rfl | ⟨-, h⟩)
      · exact absurd rfl hkey
      · exact h

theorem holds_erase_iff {k : κ} : K.Holds (t.erase k) b ↔ K.key b ≠ k ∧ K.Holds t b := by
  unfold Holds
  by_cases hkey : K.key b = k
  · rw [hkey, AList.lookup_erase]
    simp
  · rw [AList.lookup_erase_ne hkey]
    simp [hkey]

/-- An entry that is nobody's takes the key from whoever has it. -/
theorem holds_overwrite_iff {k : κ} {v : ν} (hv : ∀ a, K.entry a ≠ v) :
    K.Holds (t.insert k v) b ↔ K.key b ≠ k ∧ K.Holds t b := by
  unfold Holds
  by_cases hkey : K.key b = k
  · rw [hkey, AList.lookup_insert]
    constructor
    · intro h
      exact absurd (Option.some.inj h).symm (hv b)
    · exact fun h => absurd rfl h.1
  · rw [AList.lookup_insert_ne hkey]
    simp [hkey]

theorem Accounted.insert {F : ν → Prop} {k : κ} {v : ν} (h : K.Accounted F t)
    (hv : F v ∨ ∃ a, K.key a = k ∧ K.entry a = v) : K.Accounted F (t.insert k v) := by
  intro k' v' hlookup
  by_cases hkey : k' = k
  · subst hkey
    rw [AList.lookup_insert] at hlookup
    obtain rfl := Option.some.inj hlookup
    exact hv
  · rw [AList.lookup_insert_ne hkey] at hlookup
    exact h k' v' hlookup

theorem Accounted.erase {F : ν → Prop} (h : K.Accounted F t) (k : κ) :
    K.Accounted F (t.erase k) := by
  intro k' v hlookup
  by_cases hkey : k' = k
  · subst hkey
    rw [AList.lookup_erase] at hlookup
    cases hlookup
  · rw [AList.lookup_erase_ne hkey] at hlookup
    exact h k' v hlookup

/-! ### A set of things -/

/-- Putting a thing in leaves the others as they are when none of them has its key. -/
theorem put_keeps_iff (h : K.Represents t S) :
    (∀ b, b ≠ a → (K.Holds (K.put t a) b ↔ K.Holds t b)) ↔ K.Alone S a := by
  simp only [holds_put_iff]
  constructor
  · intro hkeep b hb hkey
    by_contra hne
    rcases (hkeep b hne).mpr ((h b).mpr hb) with hsame | ⟨hother, -⟩
    · exact hne hsame
    · exact hother hkey
  · intro halone b hne
    constructor
    · rintro (hsame | ⟨-, hholds⟩)
      · exact absurd hsame hne
      · exact hholds
    · intro hholds
      exact .inr ⟨fun hkey => hne (halone b ((h b).mp hholds) hkey), hholds⟩

/-- So does dropping it. -/
theorem erase_keeps_iff (h : K.Represents t S) :
    (∀ b, b ≠ a → (K.Holds (t.erase (K.key a)) b ↔ K.Holds t b)) ↔ K.Alone S a := by
  simp only [holds_erase_iff]
  constructor
  · intro hkeep b hb hkey
    by_contra hne
    exact ((hkeep b hne).mpr ((h b).mpr hb)).1 hkey
  · intro halone b hne
    constructor
    · exact fun hholds => hholds.2
    · intro hholds
      exact ⟨fun hkey => hne (halone b ((h b).mp hholds) hkey), hholds⟩

/-- An entry that is nobody's leaves everything as it is when nothing has its key. -/
theorem overwrite_keeps_iff {k : κ} {v : ν} (h : K.Represents t S) (hv : ∀ a, K.entry a ≠ v) :
    (∀ b, K.Holds (t.insert k v) b ↔ K.Holds t b) ↔ ∀ b ∈ S, K.key b ≠ k := by
  simp only [holds_overwrite_iff hv]
  constructor
  · intro hkeep b hb
    exact ((hkeep b).mpr ((h b).mpr hb)).1
  · intro hfree b
    constructor
    · exact fun hholds => hholds.2
    · exact fun hholds => ⟨hfree b ((h b).mp hholds), hholds⟩

theorem Represents.put (h : K.Represents t S) (halone : K.Alone S a) :
    K.Represents (K.put t a) (insert a S) := by
  intro b
  rw [holds_put_iff, Set.mem_insert_iff, h b]
  constructor
  · exact Or.imp_right And.right
  · rintro (hsame | hb)
    · exact .inl hsame
    · by_cases hkey : K.key b = K.key a
      · exact .inl (halone b hb hkey)
      · exact .inr ⟨hkey, hb⟩

theorem Represents.erase (h : K.Represents t S) (halone : K.Alone S a) :
    K.Represents (t.erase (K.key a)) (S \ {a}) := by
  intro b
  rw [holds_erase_iff, h b]
  constructor
  · rintro ⟨hkey, hb⟩
    refine ⟨hb, ?_⟩
    rintro rfl
    exact hkey rfl
  · rintro ⟨hb, hne⟩
    exact ⟨fun hkey => hne (halone b hb hkey), hb⟩

theorem Represents.overwrite {k : κ} {v : ν} (h : K.Represents t S) (hv : ∀ a, K.entry a ≠ v)
    (hfree : ∀ b ∈ S, K.key b ≠ k) : K.Represents (t.insert k v) S := by
  intro b
  rw [(overwrite_keeps_iff h hv).mpr hfree b]
  exact h b

/-! ### Many things -/

theorem holds_eraseAll_iff (ks : List κ) (t : Table κ ν) :
    K.Holds (ks.foldl (fun t k => t.erase k) t) b ↔ K.key b ∉ ks ∧ K.Holds t b := by
  induction ks generalizing t with
  | nil => simp
  | cons k ks ih =>
    rw [List.foldl_cons, ih, holds_erase_iff, List.mem_cons, not_or]
    constructor
    · rintro ⟨hrest, hkey, hholds⟩
      exact ⟨⟨hkey, hrest⟩, hholds⟩
    · rintro ⟨⟨hkey, hrest⟩, hholds⟩
      exact ⟨hrest, hkey, hholds⟩

/-- Putting in things of different keys leaves them and what they did not touch. -/
theorem holds_putAll_iff (as : List α) (t : Table κ ν) (hinj : Set.InjOn K.key {a | a ∈ as}) :
    K.Holds (as.foldl K.put t) b ↔ b ∈ as ∨ (K.key b ∉ as.map K.key ∧ K.Holds t b) := by
  induction as generalizing t with
  | nil => simp
  | cons a as ih =>
    have hrest : Set.InjOn K.key {a | a ∈ as} :=
      hinj.mono fun x hx => List.mem_cons_of_mem a hx
    rw [List.foldl_cons, ih _ hrest, holds_put_iff, List.mem_cons, List.map_cons, List.mem_cons,
      not_or]
    constructor
    · rintro (hb | ⟨hnot, rfl | ⟨hne, hholds⟩⟩)
      · exact .inl (.inr hb)
      · exact .inl (.inl rfl)
      · exact .inr ⟨⟨hne, hnot⟩, hholds⟩
    · rintro ((rfl | hb) | ⟨⟨hne, hnot⟩, hholds⟩)
      · by_cases hkey : K.key b ∈ as.map K.key
        · -- the key comes again, with the same thing
          obtain ⟨c, hc, hsame⟩ := List.mem_map.mp hkey
          obtain rfl := hinj (List.mem_cons_of_mem b hc) List.mem_cons_self hsame
          exact .inl hc
        · exact .inr ⟨hkey, .inl rfl⟩
      · exact .inl hb
      · exact .inr ⟨hnot, .inr ⟨hne, hholds⟩⟩

/-- All of them are held in the end just when their keys differ. -/
theorem putAll_holds_iff (as : List α) (t : Table κ ν) :
    (∀ a ∈ as, K.Holds (as.foldl K.put t) a) ↔ Set.InjOn K.key {a | a ∈ as} := by
  constructor
  · intro h a ha b hb hkey
    exact (h b hb).unique (h a ha) hkey
  · intro hinj a ha
    exact (holds_putAll_iff as t hinj).mpr (.inl ha)

theorem Accounted.putAll {F : ν → Prop} (h : K.Accounted F t) (as : List α) :
    K.Accounted F (as.foldl K.put t) := by
  induction as generalizing t with
  | nil => exact h
  | cons a as ih => exact ih (h.insert (.inr ⟨a, rfl, rfl⟩))

theorem Accounted.eraseAll {F : ν → Prop} (h : K.Accounted F t) (ks : List κ) :
    K.Accounted F (ks.foldl (fun t k => t.erase k) t) := by
  induction ks generalizing t with
  | nil => exact h
  | cons k ks ih => exact ih (h.erase k)

end Keyed

end LunaCore.Schemes
