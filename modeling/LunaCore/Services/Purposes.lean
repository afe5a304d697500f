import LunaCore.Schemes.Joined
import LunaCore.Schemes.Machine
import LunaCore.Schemes.Pieces
import LunaCore.Schemes.Wildcards
import LunaCore.Services.Usage

/-! Does a purpose's filter find the calls made for that purpose?

        block        purpose given    path in force
        chat         chat             chat
          review     a_b              chat.a_b
            chat     chat             chat.a_b             already on the path
              call                    a row with the path, if it fits its column

    Paths are dotted texts. The filter is the text itself, or a LIKE pattern of it and `.%`, in which
    the name's own `_`, `%` and `\` are wildcards too. -/

namespace LunaCore.Services
open LunaCore.Schemes

/-! ### Attribution -/

structure UsageAttribution where
  userId : Option ℕ
  purpose : Option String
  agentName : Option String
  scopeId : Option ℕ
  deriving DecidableEq

/-- `a or b` of texts: an empty one is as good as none. -/
def orText (a b : Option String) : Option String :=
  match a with
  | some text => if text = "" then b else some text
  | none => b

/-- `path.split(".")`. -/
def segments (path : String) : List (List Char) := path.toList.splitOn '.'

/-- `_nest`. -/
def nest (outer inner : Option String) : Option String :=
  match orText inner none with
  | none => outer
  | some inner => match orText outer none with
    | none => some inner
    | some outer =>
      if (segments outer).contains inner.toList then some outer
      else some (outer ++ "." ++ inner)

/-- The fields `usage_context` is given. -/
structure Block where
  userId : Option ℕ
  purpose : Option String
  agentName : Option String
  scopeId : Option ℕ

/-- `usage_context`: the attribution inside a block. -/
def Block.inside (block : Block) (outer : UsageAttribution) : UsageAttribution where
  userId := block.userId.or outer.userId
  purpose := nest outer.purpose block.purpose
  agentName := orText block.agentName outer.agentName
  scopeId := block.scopeId.or outer.scopeId

/-! ### The ledger -/

/-- A row of the ledger, with who and what it is for. -/
structure LedgerRow where
  scopeId : ℕ
  userId : Option ℕ
  purpose : Option String
  agentName : Option String
  createdAt : ℕ
  usage : LLMUsage
  deriving DecidableEq

/-- What a `VARCHAR` column of that width takes. -/
def fits (width : ℕ) (text : Option String) : Bool :=
  match text with
  | some text => text.toList.length ≤ width
  | none => true

/-- The row can be inserted. -/
def LedgerRow.fits (row : LedgerRow) : Bool :=
  Services.fits 64 row.purpose && Services.fits 255 row.agentName &&
    Services.fits 255 (some row.usage.model)

/-- `a = b`, with NULL. -/
def sqlEq (a : Option String) (b : String) : Option Bool := a.map fun a => decide (a = b)

def sqlOr : Option Bool → Option Bool → Option Bool
  | some true, _ => some true
  | _, some true => some true
  | some false, some false => some false
  | _, _ => none

def sqlNot (a : Option Bool) : Option Bool := a.map (!·)

/-- The places of a LIKE pattern; behind the escape character, the backslash, stands a letter. -/
def likePlaces : Bool → List Char → List (Place Char)
  | false, [] => []
  | true, [] => [.letter '\\']
  | true, c :: rest => .letter c :: likePlaces false rest
  | false, c :: rest =>
    if c = '\\' then likePlaces true rest
    else (if c = '_' then .one else if c = '%' then .many else .letter c) :: likePlaces false rest

/-- `text LIKE pattern`. -/
def sqlLike (text : Option String) (pattern : String) : Option Bool :=
  text.map fun text => takes (likePlaces false pattern.toList) text.toList

/-- `purpose_filter`. -/
def purposeFilter (name : String) (purpose : Option String) : Option Bool :=
  sqlOr (sqlEq purpose name) (sqlLike purpose (name ++ ".%"))

/-- `_outside`. -/
def outside (name : String) (purpose : Option String) : Option Bool :=
  let purpose := some (purpose.getD "")
  sqlNot (sqlOr (sqlEq purpose name) (sqlLike purpose (name ++ ".%")))

/-- `if purpose: stmt.where(…)`: a row is in where its condition is true. -/
def restricted (filter : String → Option String → Option Bool) (name : Option String)
    (row : LedgerRow) : Bool :=
  match orText name none with
  | some name => filter name row.purpose = some true
  | none => true

/-- `spend_usd`, in the units of a row's cost. -/
def spendUsd (prices : List LLMPrice) (ledger : List LedgerRow) (userId since : ℕ)
    (purpose exclude : Option String) : Option ℤ :=
  (dearest prices).map fun d =>
    ((ledger.filter fun row => row.userId = some userId ∧ since ≤ row.createdAt ∧
        restricted purposeFilter purpose row ∧ restricted outside exclude row).map
      fun row => costExpr d (priceOf prices row.usage.model) row.usage).sum

/-! ### Runs -/

/-- A request with its blocks, the innermost first, and the ledger. A block is remembered with the
    attribution inside it. -/
structure Meter where
  base : UsageAttribution
  blocks : List (Block × UsageAttribution)
  ledger : List LedgerRow

def Meter.created : Meter := ⟨⟨none, none, none, none⟩, [], []⟩

/-- `current_attribution`. -/
def Meter.current (s : Meter) : UsageAttribution :=
  match s.blocks with
  | [] => s.base
  | (_, inside) :: _ => inside

/-- The purpose of the outermost block that gives one. -/
def Meter.outermost (s : Meter) : Option String :=
  s.blocks.reverse.findSome? fun entry => orText entry.1.purpose none

inductive MeterAction where
  | enter (block : Block)
  | leave
  | bindRequestUser (userId : ℕ)
  -- a call's usage, recorded on its own account or on that of an explicit user
  | call (scopeId : ℕ) (userId : Option ℕ) (createdAt : ℕ) (usage : LLMUsage)

/-- `_attributed`. -/
def Meter.attributed (s : Meter) (scopeId : ℕ) (userId : Option ℕ) (createdAt : ℕ)
    (usage : LLMUsage) : LedgerRow where
  scopeId := scopeId
  userId := userId.or s.current.userId
  purpose := s.current.purpose
  agentName := s.current.agentName
  createdAt := createdAt
  usage := usage

def meterStep (s : Meter) : MeterAction → Option Meter
  | .enter block => some { s with blocks := (block, block.inside s.current) :: s.blocks }
  | .leave => match s.blocks with
    | [] => none
    | _ :: blocks => some { s with blocks := blocks }
  | .bindRequestUser userId => some (match s.current.userId, s.blocks with
    | some _, _ => s
    | none, [] => { s with base := { s.base with userId := some userId } }
    | none, (block, inside) :: blocks =>
      { s with blocks := (block, { inside with userId := some userId }) :: blocks })
  | .call scopeId userId createdAt usage =>
    let row := s.attributed scopeId userId createdAt usage
    -- a row that does not fit is refused, with the transaction it is in
    if row.fits then some { s with ledger := s.ledger ++ [row] } else some s

/-- The name of a purpose: an empty one names none, to `_nest` and `spend_usd` alike. -/
abbrev PurposeName := { name : String // name ≠ "" }

variable (name : PurposeName)

/-- The filter selects the rows whose path starts with the name's segments. -/
def Exact (ledger : List LedgerRow) : Prop :=
  ∀ row ∈ ledger, purposeFilter name row.purpose = some true ↔
    ∃ path ∈ row.purpose, segments name <+: segments path

/-- What is spent on the purpose and what is spent on everything else make the total. -/
def Partitioned (ledger : List LedgerRow) : Prop :=
  ∀ prices userId since, spendUsd prices ledger userId since none none =
    Option.map₂ (· + ·) (spendUsd prices ledger userId since (some name) none)
      (spendUsd prices ledger userId since none (some name))

/-- The filter is exact and the spend is parted by it; and a call whose outermost purpose is the
    name is recorded, and counted under it. -/
def Attributed (s : Meter) (a : MeterAction) (s' : Meter) : Prop :=
  Exact name s'.ledger ∧ Partitioned name s'.ledger ∧ match a with
    | .call scopeId userId createdAt usage => s.outermost = some name →
      s'.ledger = s.ledger ++ [s.attributed scopeId userId createdAt usage] ∧
        purposeFilter name (s.attributed scopeId userId createdAt usage).purpose = some true
    | _ => True

/-- The letters of a name, and a text they can stand for in a pattern: `_` for any letter, `%` for
    any text, and a backslash for the letter behind it, so that the last one is lost on the dot. -/
inductive Reads : List Char → List Char → Prop
  | done : Reads [] []
  | letter {letters front : List Char} {c : Char} (plain : c ≠ '_' ∧ c ≠ '%' ∧ c ≠ '\\')
      (rest : Reads letters front) : Reads (c :: letters) (c :: front)
  | one {letters front : List Char} (c : Char) (rest : Reads letters front) :
      Reads ('_' :: letters) (c :: front)
  | many {letters front : List Char} (skipped : List Char) (rest : Reads letters front) :
      Reads ('%' :: letters) (skipped ++ front)
  | escaped {letters front : List Char} (c : Char) (rest : Reads letters front) :
      Reads ('\\' :: c :: letters) (c :: front)
  | lost : Reads ['\\'] []

/-- The path is not the name, and begins, up to a dot, with what the name's letters can stand for but
    not with these letters; or the other way round. -/
def Mistaken (path : String) : Prop :=
  path ≠ name ∧ ¬ ((∃ front, Reads name.1.toList front ∧ front ++ ['.'] <+: path.toList) ↔
    name.1.toList ++ ['.'] <+: path.toList)

/-- No letter of the name is a wildcard or escapes one. -/
def Plain : Prop := ∀ c ∈ name.1.toList, c ≠ '_' ∧ c ≠ '%' ∧ c ≠ '\\'

/-- A call whose outermost purpose is the name fits the columns of its row, and the path of a call
    that fits is not one of those the pattern is mistaken about. -/
def Distinguished (s : Meter) (a : MeterAction) : Prop :=
  match a with
  | .call scopeId userId createdAt usage =>
    let row := s.attributed scopeId userId createdAt usage
    (s.outermost = some name → row.fits = true) ∧
      (row.fits = true → ∀ path ∈ row.purpose, ¬ Mistaken name path)
  | _ => True

variable {name}

/-! ### The pattern -/

theorem toList_cut (text : String) : (text ++ ".%").toList = text.toList ++ ['.', '%'] := by
  rw [String.toList_append]
  rfl

theorem likePlaces_plain {letters rest : List Char}
    (h : ∀ c ∈ letters, c ≠ '_' ∧ c ≠ '%' ∧ c ≠ '\\') :
    likePlaces false (letters ++ rest) = letters.map .letter ++ likePlaces false rest := by
  induction letters with
  | nil => rfl
  | cons c letters ih =>
    obtain ⟨hone, hmany, hescape⟩ := h c List.mem_cons_self
    rw [List.cons_append, likePlaces, if_neg hescape, if_neg hone, if_neg hmany,
      ih fun d hd => h d (List.mem_cons_of_mem _ hd)]
    rfl

/-- The text begins, up to a dot, with what the letters can stand for. -/
def Begins (letters text : List Char) : Prop :=
  ∃ front, Reads letters front ∧ front ++ ['.'] <+: text

theorem begins_nil {text : List Char} : Begins [] text ↔ ['.'] <+: text := by
  constructor
  · rintro ⟨front, hreads, hfront⟩
    cases hreads
    exact hfront
  · intro h
    exact ⟨[], .done, h⟩

theorem begins_lost {text : List Char} : Begins ['\\'] text ↔ ['.'] <+: text := by
  constructor
  · rintro ⟨front, hreads, hfront⟩
    cases hreads with
    | letter plain => exact absurd rfl plain.2.2
    | lost => exact hfront
  · intro h
    exact ⟨[], .lost, h⟩

/-- What stands in front of a text, a letter of it read. -/
theorem begins_cons {letters text : List Char} {c : Char} :
    (∃ rest, text = c :: rest ∧ Begins letters rest) ↔
      ∃ front, Reads letters front ∧ c :: front ++ ['.'] <+: text := by
  constructor
  · rintro ⟨rest, rfl, front, hreads, hfront⟩
    exact ⟨front, hreads, List.cons_prefix_cons.mpr ⟨rfl, hfront⟩⟩
  · rintro ⟨front, hreads, rest, rfl⟩
    exact ⟨front ++ ['.'] ++ rest, rfl, front, hreads, List.prefix_append _ rest⟩

theorem begins_letter {letters text : List Char} {c : Char} (plain : c ≠ '_' ∧ c ≠ '%' ∧ c ≠ '\\') :
    Begins (c :: letters) text ↔ ∃ rest, text = c :: rest ∧ Begins letters rest := by
  rw [begins_cons]
  constructor
  · rintro ⟨front, hreads, hfront⟩
    cases hreads with
    | letter _ rest => exact ⟨_, rest, hfront⟩
    | one => exact absurd rfl plain.1
    | many => exact absurd rfl plain.2.1
    | escaped => exact absurd rfl plain.2.2
    | lost => exact absurd rfl plain.2.2
  · rintro ⟨front, hreads, hfront⟩
    exact ⟨c :: front, .letter plain hreads, hfront⟩

theorem begins_one {letters text : List Char} :
    Begins ('_' :: letters) text ↔ ∃ c rest, text = c :: rest ∧ Begins letters rest := by
  simp only [begins_cons]
  constructor
  · rintro ⟨front, hreads, hfront⟩
    cases hreads with
    | letter plain => exact absurd rfl plain.1
    | one c rest => exact ⟨c, _, rest, hfront⟩
  · rintro ⟨c, front, hreads, hfront⟩
    exact ⟨c :: front, .one c hreads, hfront⟩

theorem begins_many {letters text : List Char} :
    Begins ('%' :: letters) text ↔
      ∃ skipped rest, text = skipped ++ rest ∧ Begins letters rest := by
  constructor
  · rintro ⟨front, hreads, more, rfl⟩
    cases hreads with
    | letter plain => exact absurd rfl plain.2.1
    | many skipped rest =>
      refine ⟨skipped, _, by rw [List.append_assoc, List.append_assoc], _, rest, ?_⟩
      rw [← List.append_assoc]
      exact List.prefix_append _ more
  · rintro ⟨skipped, rest, rfl, front, hreads, hfront⟩
    refine ⟨skipped ++ front, .many skipped hreads, ?_⟩
    rw [List.append_assoc, List.prefix_append_right_inj]
    exact hfront

theorem begins_escaped {letters text : List Char} {c : Char} :
    Begins ('\\' :: c :: letters) text ↔ ∃ rest, text = c :: rest ∧ Begins letters rest := by
  rw [begins_cons]
  constructor
  · rintro ⟨front, hreads, hfront⟩
    cases hreads with
    | letter plain => exact absurd rfl plain.2.2
    | escaped _ rest => exact ⟨_, rest, hfront⟩
  · rintro ⟨front, hreads, hfront⟩
    exact ⟨c :: front, .escaped c hreads, hfront⟩

/-- The pattern of a name takes a text by its front; by induction on the letters, for a letter that
    stands for itself and for one behind a backslash. -/
theorem takes_iff_begins (letters : List Char) : ∀ escaped text,
    takes (likePlaces escaped (letters ++ ['.', '%'])) text = true ↔
      Begins (if escaped then '\\' :: letters else letters) text := by
  induction letters with
  | nil =>
    intro escaped text
    have hplaces : likePlaces escaped ([] ++ ['.', '%']) = ['.'].map Place.letter ++ [.many] := by
      cases escaped <;> rfl
    rw [hplaces, takes_letters_many]
    cases escaped with
    | false => exact begins_nil.symm
    | true => exact begins_lost.symm
  | cons c letters ih =>
    intro escaped text
    have hrest : ∀ rest, takes (likePlaces false (letters ++ ['.', '%'])) rest = true ↔
        Begins letters rest := ih false
    cases escaped with
    | true =>
      rw [List.cons_append, likePlaces, takes_letter_iff, if_pos rfl, begins_escaped]
      simp only [hrest]
    | false =>
      rw [if_neg Bool.false_ne_true]
      by_cases hescape : c = '\\'
      · subst hescape
        exact ih true text
      rw [List.cons_append, likePlaces, if_neg hescape]
      by_cases hone : c = '_'
      · subst hone
        rw [if_pos rfl, takes_one_iff, begins_one]
        simp only [hrest]
      by_cases hmany : c = '%'
      · subst hmany
        rw [if_neg hone, if_pos rfl, takes_many_iff, begins_many]
        simp only [hrest]
      · rw [if_neg hone, if_neg hmany, takes_letter_iff, begins_letter ⟨hone, hmany, hescape⟩]
        simp only [hrest]

/-- The LIKE pattern and the text it is made of disagree about the path. -/
theorem mistaken_iff {path : String} : Mistaken name path ↔ path ≠ name ∧
    ¬ (takes (likePlaces false (name ++ ".%").toList) path.toList = true ↔
      name.1.toList ++ ['.'] <+: path.toList) := by
  rw [toList_cut, takes_iff_begins]
  rfl

/-- A plain name's pattern is the name, a dot, and any text. -/
theorem not_mistaken_of_plain (h : Plain name) (path : String) : ¬ Mistaken name path := by
  rw [mistaken_iff]
  rintro ⟨-, hno⟩
  apply hno
  have hplaces : likePlaces false (name.1 ++ ".%").toList =
      (name.1.toList ++ ['.']).map .letter ++ [.many] := by
    rw [toList_cut, likePlaces_plain h, List.map_append, List.append_assoc]
    rfl
  rw [hplaces, takes_letters_many]

/-- The shortest text of a pattern is no longer than its letters. -/
theorem length_shortest_le (letters : List Char) (escaped : Bool) :
    (shortest 'x' (likePlaces escaped (letters ++ ['.', '%']))).length ≤ letters.length + 1 := by
  induction letters generalizing escaped with
  | nil => cases escaped <;> decide
  | cons c letters ih =>
    cases escaped with
    | true =>
      rw [List.cons_append, likePlaces, shortest, List.length_cons, List.length_cons]
      exact Nat.succ_le_succ (ih false)
    | false =>
      rw [List.cons_append, likePlaces, List.length_cons]
      by_cases hescape : c = '\\'
      · rw [if_pos hescape]
        exact (ih true).trans (Nat.le_succ _)
      · rw [if_neg hescape]
        have hrest := ih false
        split
        · exact Nat.succ_le_succ hrest
        · split
          · exact hrest.trans (Nat.le_succ _)
          · exact Nat.succ_le_succ hrest

/-- It begins with the letters and the dot only where no letter is a wildcard or escapes one: else
    it is too short, or has another letter in a wildcard's place. -/
theorem plain_of_shortest {letters : List Char}
    (h : letters ++ ['.'] <+: shortest 'x' (likePlaces false (letters ++ ['.', '%']))) :
    ∀ c ∈ letters, c ≠ '_' ∧ c ≠ '%' ∧ c ≠ '\\' := by
  induction letters with
  | nil => simp
  | cons c letters ih =>
    have hlength := h.length_le
    rw [List.length_append, List.length_cons, List.length_singleton] at hlength
    have hplaces : likePlaces false (c :: letters ++ ['.', '%']) =
        if c = '\\' then likePlaces true (letters ++ ['.', '%'])
        else (if c = '_' then .one else if c = '%' then .many else .letter c) ::
          likePlaces false (letters ++ ['.', '%']) := rfl
    rw [hplaces] at h hlength
    by_cases hescape : c = '\\'
    · rw [if_pos hescape] at hlength
      have hshort := length_shortest_le letters true
      omega
    · rw [if_neg hescape] at h hlength
      by_cases hone : c = '_'
      · rw [if_pos hone, shortest, List.cons_append, List.cons_prefix_cons] at h
        exact absurd (hone.symm.trans h.1) (by decide)
      · rw [if_neg hone] at h hlength
        by_cases hmany : c = '%'
        · rw [if_pos hmany, shortest] at hlength
          have hshort := length_shortest_le letters false
          omega
        · rw [if_neg hmany, shortest, List.cons_append, List.cons_prefix_cons] at h
          intro d hd
          rcases List.mem_cons.mp hd with rfl | hd
          · exact ⟨hone, hmany, hescape⟩
          · exact ih h.2 d hd

/-- The pattern ends with the dot and any text, whatever the name escapes. -/
theorem likePlaces_last (letters : List Char) (escaped : Bool) :
    ∃ pattern, likePlaces escaped (letters ++ ['.', '%']) = pattern ++ [.letter '.', .many] := by
  induction letters generalizing escaped with
  | nil => exact ⟨[], by cases escaped <;> rfl⟩
  | cons c letters ih =>
    cases escaped with
    | true =>
      obtain ⟨pattern, hpattern⟩ := ih false
      exact ⟨.letter c :: pattern, by rw [List.cons_append, likePlaces, hpattern]; rfl⟩
    | false =>
      rw [List.cons_append, likePlaces]
      split
      · exact ih true
      · obtain ⟨pattern, hpattern⟩ := ih false
        exact ⟨_ :: pattern, by rw [hpattern]; rfl⟩

/-- EXACT CONDITION on the name: the pattern is mistaken about no path just when it is plain. -/
theorem not_mistaken_iff_plain : (∀ path, ¬ Mistaken name path) ↔ Plain name := by
  refine ⟨fun h => ?_, not_mistaken_of_plain⟩
  simp only [mistaken_iff] at h
  by_contra hplain
  have hno : ¬ name.1.toList ++ ['.'] <+:
      shortest 'x' (likePlaces false (name.1 ++ ".%").toList) := by
    rw [toList_cut]
    exact mt plain_of_shortest hplain
  have htakes := takes_shortest 'x' (likePlaces false (name.1 ++ ".%").toList)
  generalize shortest 'x' (likePlaces false (name.1 ++ ".%").toList) = text at hno htakes
  -- the shortest text is mistaken, or goes on to be if it happens to be the name
  by_cases hname : text = name.1.toList
  · refine h (String.ofList (text ++ ['x'])) ⟨fun heq => ?_, fun hiff => ?_⟩
    · have hlength := congrArg (fun path => path.toList.length) heq
      simp [hname] at hlength
    · obtain ⟨pattern, hpattern⟩ := likePlaces_last name.1.toList false
      rw [String.toList_ofList, toList_cut, hpattern, ← List.singleton_append,
        ← List.append_assoc] at hiff
      rw [toList_cut, hpattern, ← List.singleton_append, ← List.append_assoc] at htakes
      have hfront := hiff.mp (takes_append htakes ['x'])
      rw [hname, List.prefix_append_right_inj] at hfront
      exact absurd hfront (by decide)
  · refine h (String.ofList text) ⟨fun heq => hname ?_, fun hiff => ?_⟩
    · rw [← heq, String.toList_ofList]
    · rw [String.toList_ofList] at hiff
      exact hno (hiff.mp htakes)

/-! ### One row -/

@[simp] theorem sqlOr_some (a b : Bool) : sqlOr (some a) (some b) = some (a || b) := by
  cases a <;> cases b <;> rfl

theorem purposeFilter_some (path : String) :
    purposeFilter name (some path) = some true ↔ path = name.1 ∨
      takes (likePlaces false (name.1 ++ ".%").toList) path.toList = true := by
  rw [purposeFilter, sqlEq, sqlLike, Option.map_some, Option.map_some, sqlOr_some,
    Option.some_inj, Bool.or_eq_true, decide_eq_true_iff]

/-- EXACT CONDITION on a row: the filter is right about a path unless the pattern is mistaken. -/
theorem filter_exact_iff (path : String) :
    (purposeFilter name (some path) = some true ↔ segments name <+: segments path) ↔
      ¬ Mistaken name path := by
  rw [purposeFilter_some, segments, segments, splitOn_prefix_iff, String.toList_inj, mistaken_iff]
  by_cases hname : path = name.1
  · simp [hname]
  · simp [hname]

/-- A row is on one side of the name or on the other. -/
theorem outside_iff (purpose : Option String) :
    outside name purpose = some true ↔ ¬ purposeFilter name purpose = some true := by
  cases purpose with
  | some path =>
    rw [purposeFilter_some, outside, Option.getD_some, sqlEq, sqlLike, Option.map_some,
      Option.map_some, sqlOr_some, sqlNot, Option.map_some, Option.some_inj, Bool.not_eq_true',
      ← Bool.not_eq_true, Bool.or_eq_true, decide_eq_true_iff]
  | none =>
    -- no purpose is read as an empty one, which is neither the name nor long enough for the dot
    have hname : ¬ "" = name.1 := fun heq => name.2 heq.symm
    have hlike : takes (likePlaces false (name.1 ++ ".%").toList) [] = false := by
      rw [Bool.eq_false_iff]
      intro htakes
      obtain ⟨pattern, hpattern⟩ := likePlaces_last name.1.toList false
      rw [toList_cut, hpattern] at htakes
      have hdot := many_of_takes_nil htakes (.letter '.') (by simp)
      cases hdot
    refine iff_of_true ?_ (by simp [purposeFilter, sqlEq, sqlLike, sqlOr])
    rw [outside, Option.getD_none, sqlEq, sqlLike, Option.map_some, Option.map_some,
      String.toList_empty, hlike, decide_eq_false hname, sqlOr_some]
    rfl

/-! ### The spend -/

/-- A sum over rows is that over the rows on each side of a test. -/
theorem sum_parted {α : Type*} (f : α → ℤ) (q r : α → Bool) (rows : List α) :
    ((rows.filter q).map f).sum = ((rows.filter fun x => q x && r x).map f).sum +
      ((rows.filter fun x => q x && !r x).map f).sum := by
  induction rows with
  | nil => rfl
  | cons row rows ih =>
    rw [List.filter_cons, List.filter_cons, List.filter_cons]
    cases q row <;> cases r row <;> simp [ih] <;> ring

@[simp] theorem restricted_none (filter : String → Option String → Option Bool)
    (row : LedgerRow) : restricted filter none row = true := rfl

theorem restricted_name (filter : String → Option String → Option Bool) (row : LedgerRow) :
    restricted filter (some name.1) row = decide (filter name.1 row.purpose = some true) := by
  rw [restricted, orText, if_neg name.2]

/-- The spend is parted by any name. -/
theorem partitioned (ledger : List LedgerRow) : Partitioned name ledger := by
  intro prices userId since
  cases hdearest : dearest prices with
  | none => simp [spendUsd, hdearest]
  | some d =>
    have hparted := sum_parted
      (fun row : LedgerRow => costExpr d (priceOf prices row.usage.model) row.usage)
      (fun row => decide (row.userId = some userId ∧ since ≤ row.createdAt))
      (fun row => decide (purposeFilter name row.purpose = some true)) ledger
    have hout : ∀ row : LedgerRow, decide (outside name.1 row.purpose = some true) =
        !decide (purposeFilter name row.purpose = some true) := by
      intro row
      rw [← decide_not, decide_eq_decide]
      exact outside_iff row.purpose
    simp only [spendUsd, hdearest, Option.map_some, Option.map₂_some_some, Option.some_inj,
      restricted_none, restricted_name, hout]
    simpa only [Bool.decide_and, Bool.decide_eq_true, decide_true, Bool.and_true, Bool.true_and,
      Bool.and_assoc] using hparted

/-! ### The path in force -/

/-- Each block's path was made from the one around it. -/
def Nested (base : UsageAttribution) : List (Block × UsageAttribution) → Prop
  | [] => base.purpose = none
  | (block, inside) :: blocks =>
    inside.purpose = nest (Meter.current ⟨base, blocks, []⟩).purpose block.purpose ∧
      Nested base blocks

/-- A path goes on from a purpose. -/
def Under (purpose path : String) : Prop :=
  path = purpose ∨ purpose.toList ++ ['.'] <+: path.toList

theorem Under.cut {purpose outer : String} (h : Under purpose outer) (inner : String) :
    Under purpose (outer ++ "." ++ inner) := by
  refine .inr ?_
  rw [String.toList_append, String.toList_append]
  rcases h with rfl | h
  · exact List.prefix_append _ _
  · exact (h.trans (List.prefix_append _ _)).trans (List.prefix_append _ _)

theorem ne_empty_of_orText {a : Option String} {text : String} (h : orText a none = some text) :
    text ≠ "" := by
  cases a with
  | none => cases h
  | some given =>
    rw [orText] at h
    split at h
    · cases h
    · next hne => exact Option.some.inj h ▸ hne

theorem nest_none (inner : Option String) : nest none inner = orText inner none := by
  rw [nest]
  cases orText inner none with
  | none => rfl
  | some inner => rfl

/-- A path stays under what it is under, and is not empty. -/
theorem nest_under {purpose outer : String} (hne : outer ≠ "") (h : Under purpose outer)
    (inner : Option String) : ∃ path, nest (some outer) inner = some path ∧ path ≠ "" ∧
      Under purpose path := by
  have houter : orText (some outer) none = some outer := if_neg hne
  rw [nest, houter]
  cases orText inner none with
  | none => exact ⟨outer, rfl, hne, h⟩
  | some inner =>
    dsimp only
    split
    · exact ⟨outer, rfl, hne, h⟩
    · refine ⟨outer ++ "." ++ inner, rfl, fun heq => ?_, h.cut inner⟩
      have hlength := congrArg (fun path => path.toList.length) heq
      simp at hlength

/-- The path in force is under the outermost purpose; without one there is none. -/
theorem current_under {s : Meter} (h : Nested s.base s.blocks) :
    match s.outermost with
    | none => s.current.purpose = none
    | some purpose => ∃ path, s.current.purpose = some path ∧ path ≠ "" ∧ Under purpose path := by
  obtain ⟨base, blocks, ledger⟩ := s
  induction blocks with
  | nil => exact h
  | cons entry blocks ih =>
    obtain ⟨block, inside⟩ := entry
    obtain ⟨hinside, hrest⟩ := h
    have houtermost : (Meter.mk base ((block, inside) :: blocks) ledger).outermost =
        (Meter.mk base blocks ledger).outermost.or (orText block.purpose none) := by
      simp [Meter.outermost, List.findSome?_append]
    have hcurrent : (Meter.mk base ((block, inside) :: blocks) ledger).current.purpose =
        nest (Meter.mk base blocks ledger).current.purpose block.purpose := hinside
    rw [houtermost, hcurrent]
    have hbefore := ih hrest
    cases hout : (Meter.mk base blocks ledger).outermost with
    | none =>
      rw [hout] at hbefore
      rw [hbefore, nest_none, Option.none_or]
      cases hpurpose : orText block.purpose none with
      | none => rfl
      | some purpose => exact ⟨purpose, rfl, ne_empty_of_orText hpurpose, .inl rfl⟩
    | some purpose =>
      rw [hout] at hbefore
      obtain ⟨path, hpath, hne, hunder⟩ := hbefore
      rw [hpath]
      exact nest_under hne hunder block.purpose

/-! ### One step, and a run -/

variable (name) in
/-- The paths were made block by block, and the pattern is mistaken about no row. -/
def Told (s : Meter) : Prop :=
  Nested s.base s.blocks ∧ ∀ row ∈ s.ledger, ∀ path ∈ row.purpose, ¬ Mistaken name path

theorem told_created : Told name .created := ⟨rfl, by simp [Meter.created]⟩

theorem exact_iff (ledger : List LedgerRow) :
    Exact name ledger ↔ ∀ row ∈ ledger, ∀ path ∈ row.purpose, ¬ Mistaken name path := by
  refine forall_congr' fun row => imp_congr_right fun _ => ?_
  cases row.purpose with
  | none => simp [purposeFilter, sqlEq, sqlLike, sqlOr]
  | some path =>
    simp only [Option.mem_some_iff, exists_eq_left', forall_eq']
    exact filter_exact_iff path

/-- STEP: blocks nest as they should whatever is done. -/
theorem nested_step {s s' : Meter} {a : MeterAction} (h : Nested s.base s.blocks)
    (hstep : meterStep s a = some s') : Nested s'.base s'.blocks := by
  obtain ⟨base, blocks, ledger⟩ := s
  cases a with
  | enter block =>
    obtain rfl := Option.some.inj hstep
    exact ⟨rfl, h⟩
  | leave =>
    cases blocks with
    | nil => cases hstep
    | cons entry blocks =>
      obtain rfl := Option.some.inj hstep
      exact h.2
  | bindRequestUser userId =>
    obtain rfl := Option.some.inj hstep
    cases huser : (Meter.mk base blocks ledger).current.userId with
    | some known => exact h
    | none =>
      cases blocks with
      | nil => exact h
      | cons entry blocks => exact ⟨h.1, h.2⟩
  | call scopeId userId createdAt usage =>
    rw [meterStep] at hstep
    dsimp only at hstep
    split at hstep
    · obtain rfl := Option.some.inj hstep
      exact h
    · obtain rfl := Option.some.inj hstep
      exact h

/-- STEP: a call's row joins the ledger, if it fits; nothing else touches the ledger. -/
theorem ledger_step {s s' : Meter} {a : MeterAction} (h : meterStep s a = some s') :
    (∃ scopeId userId createdAt usage, a = .call scopeId userId createdAt usage ∧
      (s.attributed scopeId userId createdAt usage).fits = true ∧
      s'.ledger = s.ledger ++ [s.attributed scopeId userId createdAt usage]) ∨
    s'.ledger = s.ledger ∧ ∀ scopeId userId createdAt usage,
      a = .call scopeId userId createdAt usage →
        (s.attributed scopeId userId createdAt usage).fits = false := by
  cases a with
  | enter block =>
    obtain rfl := Option.some.inj h
    exact .inr ⟨rfl, by simp⟩
  | leave =>
    rw [meterStep] at h
    split at h
    · cases h
    · obtain rfl := Option.some.inj h
      exact .inr ⟨rfl, by simp⟩
  | bindRequestUser userId =>
    obtain rfl := Option.some.inj h
    refine .inr ⟨?_, by simp⟩
    split <;> rfl
  | call scopeId userId createdAt usage =>
    rw [meterStep] at h
    split at h
    · next hfits =>
      obtain rfl := Option.some.inj h
      exact .inl ⟨_, _, _, _, rfl, hfits, rfl⟩
    · next hfits =>
      obtain rfl := Option.some.inj h
      refine .inr ⟨rfl, ?_⟩
      rintro _ _ _ _ ⟨⟩
      exact Bool.eq_false_iff.mpr hfits

theorem told_step (s : Meter) (a : MeterAction) (s' : Meter) (hs : Told name s)
    (hok : Distinguished name s a) (h : meterStep s a = some s') : Told name s' := by
  refine ⟨nested_step hs.1 h, ?_⟩
  rcases ledger_step h with ⟨_, _, _, _, rfl, hfits, hledger⟩ | ⟨hledger, -⟩
  · intro row hrow
    rw [hledger, List.mem_append, List.mem_singleton] at hrow
    rcases hrow with hrow | rfl
    · exact hs.2 row hrow
    · exact hok.2 hfits
  · rw [hledger]
    exact hs.2

/-- A path under the name is counted under it, unless the pattern is mistaken about it. -/
theorem filter_of_under {path : String} (hunder : Under name.1 path)
    (hno : ¬ Mistaken name path) : purposeFilter name (some path) = some true := by
  rw [purposeFilter_some]
  by_cases hname : path = name.1
  · exact .inl hname
  · refine .inr ?_
    rw [mistaken_iff, not_and, not_not] at hno
    exact (hno hname).mpr (hunder.resolve_left hname)

theorem attributed_iff (s : Meter) (a : MeterAction) (s' : Meter) (hs : Told name s)
    (h : meterStep s a = some s') : Attributed name s a s' ↔ Distinguished name s a := by
  rcases ledger_step h with ⟨scopeId, userId, createdAt, usage, rfl, hfits, hledger⟩ |
    ⟨hledger, hunfit⟩
  · constructor
    · rintro ⟨hexact, -, -⟩
      refine ⟨fun _ => hfits, fun _ => ?_⟩
      exact (exact_iff _).mp hexact _ (by simp [hledger])
    · rintro hok
      have htold := told_step s _ s' hs hok h
      refine ⟨(exact_iff _).mpr htold.2, partitioned _, fun hout => ⟨hledger, ?_⟩⟩
      have hcurrent := current_under hs.1
      rw [hout] at hcurrent
      obtain ⟨path, hpath, -, hunder⟩ := hcurrent
      change purposeFilter name s.current.purpose = some true
      rw [hpath]
      exact filter_of_under hunder (hok.2 hfits path hpath)
  · have hexact : Exact name s'.ledger := by
      rw [hledger]
      exact (exact_iff _).mpr hs.2
    cases a with
    | call scopeId userId createdAt usage =>
      have hno := hunfit _ _ _ _ rfl
      constructor
      · rintro ⟨-, -, hcounted⟩
        refine ⟨fun hout => ?_, fun hfits => by simp [hno] at hfits⟩
        have hgrown := (hcounted hout).1
        simp [hledger] at hgrown
      · rintro ⟨hcounted, -⟩
        refine ⟨hexact, partitioned _, fun hout => ?_⟩
        have hfits := hcounted hout
        simp [hno] at hfits
    | _ => exact iff_of_true ⟨hexact, partitioned _, trivial⟩ trivial

/-- EXACT CONDITION: over any nesting of blocks, the filter is exact, the spend is parted and the
    calls inside are counted, just when those calls fit their columns and no path is one the LIKE
    pattern is mistaken about; and about no path at all it is just where the name is plain. -/
theorem attributed_run_iff (name : PurposeName) :
    ((∀ path, ¬ Mistaken name path) ↔ Plain name) ∧ ∀ as : List MeterAction,
      EveryStep meterStep (Attributed name) .created as ↔
        Guarded meterStep (Distinguished name) .created as :=
  ⟨not_mistaken_iff_plain, fun _ => everyStep_iff_guarded told_step attributed_iff told_created⟩

/-- A model call of the user with id 1. -/
def oneCall : MeterAction :=
  .call 1 (some 1) 0 ⟨"m", 1, 1, none, none, none, 2⟩

/-- One activity within another. -/
def nestedBlocks : List MeterAction :=
  [.enter ⟨none, some "axb", none, none⟩, .enter ⟨none, some "c", none, none⟩]

/-- What is spent on `axb.c` counts as spent on `a_b`. -/
theorem underscore_mistaken :
    ¬ EveryStep meterStep (Attributed ⟨"a_b", by decide⟩) .created (nestedBlocks ++ [oneCall]) := by
  intro h
  have hstep := EveryStep.at h (rfl : runFrom meterStep .created nestedBlocks = some _) rfl
  have hrow := hstep.1
    ⟨1, some 1, some "axb.c", none, 0, ⟨"m", 1, 1, none, none, none, 2⟩⟩ (by decide)
  obtain ⟨path, hpath, hsegments⟩ := hrow.mp (by decide)
  obtain rfl := Option.some.inj hpath
  exact absurd hsegments (by decide)

end LunaCore.Services
