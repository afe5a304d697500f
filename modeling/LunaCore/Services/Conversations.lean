import LunaCore.Providers.StreamedTurn
import LunaCore.Schemes.Paging
import LunaCore.Services.Purposes
import Mathlib.Tactic.IntervalCases

/-! What a user finds when looking for a conversation by its title, page by page.

        typed       ` 50% `            stripped, and LIKE's own letters escaped
        pattern     `%50\%%`           the words anywhere in the title
        pages       offset 0, limit, 2·limit, … until one is shorter than the limit

    How letters are folded to one case is the database's to say. Among conversations touched at the
    same moment it may order each page as it likes. -/

namespace LunaCore.Services.Conversations
open LunaCore.Values LunaCore.Schemes LunaCore.Providers

structure Conversation where
  id : ℕ
  userId : Option ℕ
  title : Option String
  updatedAt : ℕ
  deriving DecidableEq

/-- The letters that mean something in a LIKE pattern. -/
def special (c : Char) : Bool := c = '\\' || c = '%' || c = '_'

/-- The letters of a database, folded to one case: those of a pattern that mean something stay, and
    no other letter becomes one. -/
structure CaseFolding where
  fold : Char → Char
  keeps : ∀ c, special c = true → fold c = c
  apart : ∀ c, special (fold c) = true → special c = true

/-- `text.replace(c, new)`. -/
def replaceLetter (c : Char) (new : List Char) (text : List Char) : List Char :=
  text.flatMap fun d => if d = c then new else [d]

/-- `title_pattern`. -/
def titlePattern (q : String) : List Char :=
  let escaped := replaceLetter '_' ['\\', '_'] (replaceLetter '%' ['\\', '%']
    (replaceLetter '\\' ['\\', '\\'] (strip q).toList))
  '%' :: (escaped ++ ['%'])

variable (folding : CaseFolding)

/-- `title ILIKE pattern ESCAPE '\'`. -/
def ilike (title : Option String) (pattern : List Char) : Option Bool :=
  title.map fun title =>
    takes (likePlaces false (pattern.map folding.fold)) (title.toList.map folding.fold)

/-- The rows `list_conversations` selects. -/
def selects (userId : ℕ) (q : Option String) (c : Conversation) : Bool :=
  c.userId = some userId && match q with
    | some q => if strip q = "" then true else ilike folding c.title (titlePattern q) = some true
    | none => true

/-- Most recently touched first. -/
def NewestFirst (ordered : List Conversation) : Prop :=
  ordered.Pairwise fun a b => b.updatedAt ≤ a.updatedAt

/-- What `list_conversations` may answer: the rows it selects, newest first, or the page of them
    that is asked for. Without a limit the offset is not looked at. -/
def ListConversations (rows : List Conversation) (userId : ℕ) (limit : Option ℕ) (offset : ℕ)
    (q : Option String) (answer : List Conversation) : Prop :=
  ∃ ordered, ordered.Perm (rows.filter (selects folding userId q)) ∧ NewestFirst ordered ∧
    answer = match limit with
      | none => ordered
      | some limit => page ordered limit offset

/-- The words typed stand in the title, whatever the case. -/
def Contains (q : Option String) (title : Option String) : Prop :=
  ∀ typed ∈ q, strip typed ≠ "" → ∃ text ∈ title,
    (strip typed).toList.map folding.fold <:+: text.toList.map folding.fold

/-! ### The pattern -/

/-- The letter as it stands in a pattern that takes just this letter. -/
def escape (c : Char) : List Char := if special c then ['\\', c] else [c]

/-- The backslash is escaped first, so what the other escapes put in is left alone. -/
theorem titlePattern_eq (q : String) :
    titlePattern q = '%' :: ((strip q).toList.flatMap escape ++ ['%']) := by
  have hletter : ∀ c : Char, replaceLetter '_' ['\\', '_'] (replaceLetter '%' ['\\', '%']
      (if c = '\\' then ['\\', '\\'] else [c])) = escape c := by
    intro c
    by_cases hb : c = '\\'
    · subst hb
      decide
    · by_cases hp : c = '%'
      · subst hp
        decide
      · by_cases hu : c = '_' <;> simp [replaceLetter, escape, special, hb, hp, hu]
  rw [titlePattern]
  simp only [replaceLetter, List.flatMap_assoc] at hletter ⊢
  exact congrArg (fun f => '%' :: ((strip q).toList.flatMap f ++ ['%'])) (funext hletter)

variable {folding}

theorem special_fold (c : Char) : special (folding.fold c) = special c := by
  cases h : special c with
  | true => rw [folding.keeps c h, h]
  | false =>
    cases hfold : special (folding.fold c) with
    | true => rw [folding.apart c hfold] at h; cases h
    | false => rfl

/-- A folded pattern is the pattern of the folded words. -/
theorem map_fold_escape (text : List Char) :
    (text.flatMap escape).map folding.fold = (text.map folding.fold).flatMap escape := by
  rw [List.map_flatMap, List.flatMap_map]
  refine congrArg text.flatMap (funext fun c => ?_)
  rw [escape, escape, special_fold]
  cases h : special c with
  | true => simp [folding.keeps '\\' rfl]
  | false => simp

/-- Each escaped letter is a place for that letter. -/
theorem likePlaces_escape (text rest : List Char) :
    likePlaces false (text.flatMap escape ++ rest) =
      text.map .letter ++ likePlaces false rest := by
  induction text with
  | nil => rfl
  | cons c text ih =>
    rw [List.flatMap_cons, List.append_assoc, List.map_cons, List.cons_append, ← ih, escape]
    cases h : special c with
    | true => rfl
    | false =>
      obtain ⟨⟨hb, hp⟩, hu⟩ : (c ≠ '\\' ∧ c ≠ '%') ∧ c ≠ '_' := by simpa [special] using h
      rw [if_neg Bool.false_ne_true, List.singleton_append, likePlaces, if_neg hb, if_neg hu,
        if_neg hp]

/-- Any text, the letters, any text: the letters stand somewhere in it. -/
theorem takes_infix (letters text : List Char) :
    takes (.many :: (letters.map .letter ++ [.many])) text = true ↔ letters <:+: text := by
  rw [takes, List.any_eq_true]
  constructor
  · rintro ⟨rest, hrest, htakes⟩
    exact ((takes_letters_many letters rest).mp htakes).isInfix.trans
      ((List.mem_tails _ _).mp hrest).isInfix
  · intro h
    obtain ⟨rest, hprefix, hsuffix⟩ := List.infix_iff_prefix_suffix.mp h
    exact ⟨rest, (List.mem_tails _ _).mpr hsuffix, (takes_letters_many letters rest).mpr hprefix⟩

/-- SPEC: the pattern finds the titles in which the words stand. -/
theorem ilike_titlePattern (title : Option String) (q : String) :
    ilike folding title (titlePattern q) = some true ↔ ∃ text ∈ title,
      (strip q).toList.map folding.fold <:+: text.toList.map folding.fold := by
  cases title with
  | none => simp [ilike]
  | some text =>
    have hmany : folding.fold '%' = '%' := folding.keeps '%' rfl
    have hplaces : likePlaces false ((titlePattern q).map folding.fold) =
        .many :: (((strip q).toList.map folding.fold).map .letter ++ [.many]) := by
      rw [titlePattern_eq, List.map_cons, List.map_append, map_fold_escape, hmany, List.map_cons,
        List.map_nil, hmany]
      exact congrArg (Place.many :: ·) (likePlaces_escape _ _)
    rw [ilike, Option.map_some, hplaces, Option.some.injEq, takes_infix]
    simp

/-- The rows selected are the user's whose title has the words. -/
theorem selects_iff (userId : ℕ) (q : Option String) (c : Conversation) :
    selects folding userId q c = true ↔ c.userId = some userId ∧ Contains folding q c.title := by
  cases q with
  | none => simp [selects, Contains]
  | some q =>
    unfold selects
    rw [Bool.and_eq_true, decide_eq_true_iff]
    refine and_congr_right fun _ => ?_
    dsimp only
    by_cases hblank : strip q = ""
    · simp [Contains, hblank]
    · rw [if_neg hblank, decide_eq_true_iff, ilike_titlePattern]
      simp [Contains, hblank]

/-! ### Reading page by page -/

/-- SPEC: pages asked for one after the other, up to the first short one, are the user's
    conversations in whose titles the words stand, newest first and each once, though every page was
    ordered anew. -/
theorem listConversations_pages {rows : List Conversation} {userId limit n : ℕ} {q : Option String}
    {pages : ℕ → List Conversation}
    (hmoments : (rows.map Conversation.updatedAt).Nodup)
    (hpages : ∀ k ≤ n, ListConversations folding rows userId (some limit) (k * limit) q (pages k))
    (hlast : (pages n).length < limit) :
    NewestFirst ((List.range (n + 1)).flatMap pages) ∧
      ((List.range (n + 1)).flatMap pages).Perm (rows.filter (selects folding userId q)) ∧
      ∀ c, c ∈ (List.range (n + 1)).flatMap pages ↔
        c ∈ rows ∧ c.userId = some userId ∧ Contains folding q c.title := by
  obtain ⟨whole, hperm, hnewest, hpage⟩ := hpages n le_rfl
  have hapart : ∀ a ∈ whole, ∀ b ∈ whole, b.updatedAt ≤ a.updatedAt → a.updatedAt ≤ b.updatedAt →
      a = b := fun a ha b hb hba hab =>
    List.inj_on_of_nodup_map hmoments (List.mem_of_mem_filter (hperm.subset ha))
      (List.mem_of_mem_filter (hperm.subset hb)) (le_antisymm hab hba)
  -- every page is a page of this one listing
  have hsame : ∀ k ≤ n, pages k = page whole limit (k * limit) := by
    intro k hk
    obtain ⟨ordered, hperm', hnewest', hpage'⟩ := hpages k hk
    rw [hpage', listing_unique (hperm.trans hperm'.symm) hnewest hnewest' hapart]
  have hwhole : (List.range (n + 1)).flatMap pages = whole := by
    rw [List.flatMap_congr fun k hk => hsame k (Nat.le_of_lt_succ (List.mem_range.mp hk))]
    exact pages_eq_whole (hsame n le_rfl ▸ hlast)
  rw [hwhole]
  refine ⟨hnewest, hperm, fun c => ?_⟩
  rw [hperm.mem_iff, List.mem_filter, selects_iff]

/-- Capitals of ASCII, folded to small letters. -/
def lowered (c : Char) : Char :=
  if 65 ≤ c.toNat ∧ c.toNat ≤ 90 then Char.ofNat (c.toNat + 32) else c

def asciiFolding : CaseFolding where
  fold := lowered
  keeps c h := by
    have hspecial : c = '\\' ∨ c = '%' ∨ c = '_' := by simpa [special, or_assoc] using h
    rcases hspecial with rfl | rfl | rfl <;> decide
  apart c h := by
    rw [lowered] at h
    split at h
    case isTrue hcapital =>
      obtain ⟨hlow, hhigh⟩ := hcapital
      generalize c.toNat = n at h hlow hhigh
      interval_cases n <;> exact absurd h (by decide)
    case isFalse => exact h

def waterings : List Conversation :=
  [⟨1, some 5, some "Watering 50% less", 3⟩, ⟨2, some 6, some "Watering 50%", 9⟩,
    ⟨3, some 5, some "a 50%_WATERING", 7⟩, ⟨4, some 5, some "watering 500 cups", 8⟩,
    ⟨5, some 5, none, 4⟩, ⟨6, some 5, some "50%", 1⟩, ⟨7, some 5, some "Only 50% watered", 5⟩,
    ⟨8, some 5, some "50% off seeds", 2⟩]

/-- Those of user 5 with `50%` in the title. -/
def halves : List Conversation :=
  [⟨3, some 5, some "a 50%_WATERING", 7⟩, ⟨7, some 5, some "Only 50% watered", 5⟩,
    ⟨1, some 5, some "Watering 50% less", 3⟩, ⟨8, some 5, some "50% off seeds", 2⟩,
    ⟨6, some 5, some "50%", 1⟩]

/-- Two full pages and a short one. -/
theorem listConversations_pages_watering :
    let pages : ℕ → List Conversation := fun k => page halves 2 (k * 2)
    (pages 0).length = 2 ∧ (pages 1).length = 2 ∧ (pages 2).length = 1 ∧
      NewestFirst ((List.range 3).flatMap pages) ∧
      ((List.range 3).flatMap pages).Perm (waterings.filter (selects asciiFolding 5 (some " 50% "))) ∧
      ∀ c, c ∈ (List.range 3).flatMap pages ↔
        c ∈ waterings ∧ c.userId = some 5 ∧ Contains asciiFolding (some " 50% ") c.title := by
  intro pages
  have hlisted : ∀ k ≤ 2,
      ListConversations asciiFolding waterings 5 (some 2) (k * 2) (some " 50% ") (pages k) :=
    fun k _ => ⟨halves, by decide +kernel, by simp [NewestFirst, halves], rfl⟩
  exact ⟨rfl, rfl, rfl, listConversations_pages (by decide) hlisted (by decide)⟩

end LunaCore.Services.Conversations
