import LunaCore.Schemes.Pieces

/-! Names written one behind the other, each with a separator before it.

        names   data · evil            /data/evil
        front   data                   /data             a prefix of the names
        sibling da                     /da               a prefix of the text, not of the names
        front   data   and one more    /data/            with the separator, the names decide

    A prefix of the text is a prefix of the names, or its last name is only the front of the name
    that stands there. -/

namespace LunaCore.Schemes

variable {α : Type*} (sep : α)

/-- The names, each behind a separator. -/
def joined (names : List (List α)) : List α := names.flatMap (sep :: ·)

variable {sep}

@[simp] theorem joined_nil : joined sep [] = [] := rfl

@[simp] theorem joined_cons (name : List α) (names : List (List α)) :
    joined sep (name :: names) = sep :: (name ++ joined sep names) := rfl

theorem joined_append (names others : List (List α)) :
    joined sep (names ++ others) = joined sep names ++ joined sep others :=
  List.flatMap_append

/-- What follows a name is empty or begins with the separator. -/
theorem joined_head (names : List (List α)) :
    joined sep names = [] ∨ ∃ rest, joined sep names = sep :: rest := by
  cases names with
  | nil => exact .inl rfl
  | cons name names => exact .inr ⟨_, joined_cons name names⟩

/-- Up to the separator it is the same name. -/
theorem name_cut {name other rest behind : List α} (hname : sep ∉ name) (hother : sep ∉ other)
    (hbehind : behind = [] ∨ ∃ more, behind = sep :: more) :
    name ++ sep :: rest <+: other ++ behind ↔ name = other ∧ sep :: rest <+: behind := by
  induction name generalizing other with
  | nil =>
    cases other with
    | nil => simp
    | cons c other =>
      have hne : sep ≠ c := fun heq => hother (heq ▸ List.mem_cons_self)
      simp [List.cons_prefix_cons, hne]
  | cons c name ih =>
    have hne : c ≠ sep := fun heq => hname (heq ▸ List.mem_cons_self)
    have hname' : sep ∉ name := fun hmem => hname (List.mem_cons_of_mem _ hmem)
    cases other with
    | nil =>
      rcases hbehind with rfl | ⟨more, rfl⟩
      · simp
      · simp [List.cons_prefix_cons, hne]
    | cons d other =>
      have hother' : sep ∉ other := fun hmem => hother (List.mem_cons_of_mem _ hmem)
      rw [List.cons_append, List.cons_append, List.cons_prefix_cons, ih hname' hother',
        List.cons.injEq, and_assoc]

/-- Texts that go on behind a name are told apart by the name and what comes behind. -/
theorem cut_inj {name other rest behind : List α} (hname : sep ∉ name) (hother : sep ∉ other)
    (h : name ++ sep :: rest = other ++ sep :: behind) : name = other ∧ rest = behind := by
  obtain ⟨rfl, -⟩ := (name_cut hname hother (.inr ⟨behind, rfl⟩)).mp ⟨[], by rw [List.append_nil, h]⟩
  exact ⟨rfl, (List.cons.inj (List.append_cancel_left h)).2⟩

/-- A last name may be only the front of the other name. -/
theorem name_front {name other behind : List α} (hname : sep ∉ name)
    (hbehind : behind = [] ∨ ∃ more, behind = sep :: more) :
    name <+: other ++ behind ↔ ∃ more, other = name ++ more := by
  constructor
  · intro h
    rcases List.prefix_or_prefix_of_prefix h (List.prefix_append other behind) with
      ⟨more, hmore⟩ | ⟨past, rfl⟩
    · exact ⟨more, hmore.symm⟩
    · -- the name goes on past the other, so it would have to go on with the separator
      rw [List.prefix_append_right_inj] at h
      cases past with
      | nil => exact ⟨[], by rw [List.append_nil, List.append_nil]⟩
      | cons c past =>
        rcases hbehind with rfl | ⟨more, rfl⟩
        · exact absurd (List.prefix_nil.mp h) (List.cons_ne_nil c past)
        · rw [List.cons_prefix_cons] at h
          exact absurd (h.1 ▸ List.mem_append_right other List.mem_cons_self) hname
  · rintro ⟨more, rfl⟩
    rw [List.append_assoc]
    exact List.prefix_append _ _

/-- The last name of the one goes on, at its place in the other. -/
def Extended (names others : List (List α)) : Prop :=
  ∃ base name more rest, more ≠ [] ∧ names = base ++ [name] ∧
    others = base ++ (name ++ more) :: rest

theorem not_prefix_of_extended {names others : List (List α)} (h : Extended names others) :
    ¬ names <+: others := by
  obtain ⟨base, name, more, rest, hmore, rfl, rfl⟩ := h
  rw [List.prefix_append_right_inj, List.cons_prefix_cons]
  rintro ⟨heq, -⟩
  exact hmore (List.self_eq_append_right.mp heq)

theorem extended_cons {name : List α} {names others : List (List α)} (h : names ≠ []) :
    Extended (name :: names) others ↔ ∃ rest, others = name :: rest ∧ Extended names rest := by
  constructor
  · rintro ⟨base, last, more, behind, hmore, hnames, rfl⟩
    cases base with
    | nil =>
      rw [List.nil_append, List.cons.injEq] at hnames
      exact absurd hnames.2 h
    | cons first base =>
      rw [List.cons_append, List.cons.injEq] at hnames
      obtain ⟨rfl, rfl⟩ := hnames
      exact ⟨_, rfl, base, last, more, behind, hmore, rfl, rfl⟩
  · rintro ⟨rest, rfl, base, last, more, behind, hmore, rfl, rfl⟩
    exact ⟨name :: base, last, more, behind, hmore, rfl, rfl⟩

theorem extended_singleton {name : List α} {others : List (List α)} :
    Extended [name] others ↔ ∃ more rest, more ≠ [] ∧ others = (name ++ more) :: rest := by
  constructor
  · rintro ⟨base, last, more, behind, hmore, hnames, rfl⟩
    cases base with
    | nil =>
      rw [List.nil_append, List.singleton_inj] at hnames
      exact ⟨more, behind, hmore, hnames ▸ rfl⟩
    | cons first base => simp at hnames
  · rintro ⟨more, rest, hmore, rfl⟩
    exact ⟨[], name, more, rest, hmore, rfl, rfl⟩

/-- A PREFIX OF THE TEXT is a prefix of the names, or its last name goes on in the other. -/
theorem joined_prefix_iff {names others : List (List α)} (hnames : ∀ name ∈ names, sep ∉ name)
    (hothers : ∀ name ∈ others, sep ∉ name) :
    joined sep names <+: joined sep others ↔ names <+: others ∨ Extended names others := by
  induction names generalizing others with
  | nil => simp
  | cons name names ih =>
    have hname := hnames name List.mem_cons_self
    cases others with
    | nil =>
      have hnot : ¬ Extended (name :: names) [] := by
        rintro ⟨base, _, _, _, _, _, hothers⟩
        simp at hothers
      simp [hnot]
    | cons other others =>
      have hother := hothers other List.mem_cons_self
      rw [joined_cons, joined_cons, List.cons_prefix_cons, List.cons_prefix_cons,
        and_iff_right rfl]
      cases names with
      | nil =>
        rw [joined_nil, List.append_nil, name_front hname (joined_head others),
          extended_singleton]
        constructor
        · rintro ⟨more, rfl⟩
          cases more with
          | nil => exact .inl ⟨(List.append_nil name).symm, List.nil_prefix⟩
          | cons c more => exact .inr ⟨c :: more, others, List.cons_ne_nil _ _, rfl⟩
        · rintro (⟨rfl, -⟩ | ⟨more, rest, -, hcons⟩)
          · exact ⟨[], (List.append_nil name).symm⟩
          · exact ⟨more, (List.cons.inj hcons).1⟩
      | cons second names =>
        rw [joined_cons, name_cut hname hother (joined_head others), ← joined_cons,
          ih (fun n hn => hnames n (List.mem_cons_of_mem _ hn))
            (fun n hn => hothers n (List.mem_cons_of_mem _ hn)),
          extended_cons (List.cons_ne_nil second names), and_or_left]
        refine or_congr_right ⟨?_, ?_⟩
        · rintro ⟨rfl, hrest⟩
          exact ⟨others, rfl, hrest⟩
        · rintro ⟨rest, hcons, hrest⟩
          obtain ⟨rfl, rfl⟩ := List.cons.inj hcons
          exact ⟨rfl, hrest⟩

/-- WITH THE SEPARATOR the names decide: what goes on behind it is a further name. -/
theorem joined_cut_prefix_iff {names others : List (List α)} (hnames : ∀ name ∈ names, sep ∉ name)
    (hothers : ∀ name ∈ others, sep ∉ name) :
    joined sep names ++ [sep] <+: joined sep others ↔
      ∃ name rest, others = names ++ name :: rest := by
  have hcut : joined sep names ++ [sep] = joined sep (names ++ [[]]) := by
    rw [joined_append]
    rfl
  have hcuts : ∀ name ∈ names ++ [[]], sep ∉ name := by
    intro name hname
    rw [List.mem_append, List.mem_singleton] at hname
    rcases hname with hname | rfl
    · exact hnames name hname
    · exact List.not_mem_nil
  rw [hcut, joined_prefix_iff hcuts hothers]
  constructor
  · rintro (⟨rest, rfl⟩ | ⟨base, last, more, rest, -, hlast, rfl⟩)
    · exact ⟨[], rest, by rw [List.append_assoc, List.singleton_append]⟩
    · obtain ⟨rfl, -⟩ := List.append_inj' hlast rfl
      exact ⟨last ++ more, rest, rfl⟩
  · rintro ⟨name, rest, rfl⟩
    cases name with
    | nil => exact .inl ⟨rest, by rw [List.append_assoc, List.singleton_append]⟩
    | cons c name => exact .inr ⟨names, [], c :: name, rest, List.cons_ne_nil _ _, rfl, rfl⟩

/-! ### The names of a text -/

theorem joined_eq_cons_intercalate {names : List (List α)} (h : names ≠ []) :
    joined sep names = sep :: [sep].intercalate names := by
  induction names with
  | nil => exact absurd rfl h
  | cons name names ih =>
    cases names with
    | nil => rw [joined_cons, joined_nil, List.intercalate_singleton, List.append_nil]
    | cons second names =>
      rw [joined_cons, ih (List.cons_ne_nil _ _), List.intercalate_cons_cons, List.append_assoc]
      rfl

section
variable [DecidableEq α]

/-- Split at the separator and joined again. -/
theorem joined_splitOn (text : List α) : joined sep (text.splitOn sep) = sep :: text := by
  rw [joined_eq_cons_intercalate (List.splitOn_ne_nil sep text), List.intercalate_splitOn]

/-- The names of a text begin with those of another just when the text is the other, or goes on
    from it with the separator. -/
theorem splitOn_prefix_iff (text other : List α) :
    text.splitOn sep <+: other.splitOn sep ↔ other = text ∨ text ++ [sep] <+: other := by
  have hcut : text ++ [sep] <+: other ↔
      ∃ name rest, other.splitOn sep = text.splitOn sep ++ name :: rest := by
    rw [← joined_cut_prefix_iff (fun _ => notMem_splitOn) (fun _ => notMem_splitOn),
      joined_splitOn, joined_splitOn, List.cons_append, List.cons_prefix_cons, and_iff_right rfl]
  rw [hcut]
  constructor
  · rintro ⟨rest, hrest⟩
    cases rest with
    | nil =>
      rw [List.append_nil] at hrest
      have hjoined := congrArg (joined sep) hrest
      rw [joined_splitOn, joined_splitOn, List.cons.injEq] at hjoined
      exact .inl hjoined.2.symm
    | cons name rest => exact .inr ⟨name, rest, hrest.symm⟩
  · rintro (rfl | ⟨name, rest, hrest⟩)
    · exact List.prefix_rfl
    · exact ⟨name :: rest, hrest.symm⟩

end

end LunaCore.Schemes
