import LunaCore.Values.Json
import Mathlib.Data.List.TakeWhile

/-! The paths of `${…}` markers.

    `tokenize_path` cuts a path at its dots and each chunk at its `[*]`; a `[` that opens no `[*]`
    is never passed, so its inner loop takes a number of rounds here, and it has a result just when
    every `[` opens a `[*]`. `resolve_path` walks the
    segments over the state. What `getattr` gives on a value that is neither a dict nor a list is a
    parameter: a path can leave JSON there. -/

namespace LunaCore.Flow
open LunaCore.Values

/-! ### Tokens -/

/-- One round of the inner loop on a chunk: the segment it appends, if any, and the rest. -/
def chunkStep (cursor : List Char) : Option String × List Char :=
  if "[*]".toList.isPrefixOf cursor then (some "[*]", cursor.drop 3)
  else if '[' ∉ cursor then (some (String.ofList cursor), [])
  else
    let name := cursor.takeWhile (· != '[')
    (if name = [] then none else some (String.ofList name), cursor.dropWhile (· != '['))

/-- The inner loop, for so many rounds. -/
def tokenizeChunk : ℕ → List Char → Option (List String)
  | 0, _ => none
  | _ + 1, [] => some []
  | rounds + 1, cursor =>
    (tokenizeChunk rounds (chunkStep cursor).2).map ((chunkStep cursor).1.toList ++ ·)

def tokenizeChunks (rounds : ℕ) : List (List Char) → Option (List String)
  | [] => some []
  | chunk :: chunks =>
    (tokenizeChunk rounds chunk).bind fun segments =>
      (tokenizeChunks rounds chunks).map (segments ++ ·)

/-- `tokenize_path`; `none` where a chunk needs more rounds. -/
def tokenizePath (rounds : ℕ) (path : String) : Option (List String) :=
  tokenizeChunks rounds (path.toList.splitOn '.')

/-- From some number of rounds on, a loop that is given its rounds has a result. -/
def Returns {β : Type*} (run : ℕ → Option β) : Prop :=
  ∃ enough, ∀ rounds, enough ≤ rounds → (run rounds).isSome = true

/-- What a `[` needs after it to open a `[*]`. -/
def closesStar : List Char → Bool
  | '*' :: ']' :: _ => true
  | _ => false

/-- Every `[` opens a `[*]`. -/
def starred : List Char → Bool
  | [] => true
  | c :: cs => (c != '[' || closesStar cs) && starred cs

/-- `[A-Za-z_][A-Za-z0-9_]*`: a name `_CONTEXT_REF_RE` finds after `context.`. -/
def isIdentifier (name : String) : Bool :=
  let letter (c : Char) : Bool := c.isAlpha || c == '_'
  match name.toList with
  | [] => false
  | c :: cs => letter c && cs.all fun d => letter d || d.isDigit

/-- A chunk without a bracket is taken in one round. -/
theorem chunkStep_plain {chunk : List Char} (hbracket : '[' ∉ chunk) :
    chunkStep chunk = (some (String.ofList chunk), []) := by
  have hopen : ¬ "[*]".toList.isPrefixOf chunk = true := fun hpre =>
    hbracket ((List.isPrefixOf_iff_prefix.mp hpre).subset (by decide))
  rw [chunkStep, if_neg hopen, if_pos hbracket]

/-- A chunk without a bracket is one segment. -/
theorem tokenizeChunk_plain {chunk : List Char} (hne : chunk ≠ []) (hbracket : '[' ∉ chunk) :
    tokenizeChunk 2 chunk = some [String.ofList chunk] := by
  match chunk, hne with
  | c :: cs, _ =>
    rw [tokenizeChunk, chunkStep_plain hbracket]
    · rfl
    · simp

/-- `context.<name>` is two segments. -/
theorem tokenizePath_context {name : String} (h : isIdentifier name = true) :
    tokenizePath 2 ("context." ++ name) = some ["context", name] := by
  have hchars : name.toList ≠ [] ∧ ∀ c ∈ name.toList, c ≠ '.' ∧ c ≠ '[' := by
    rw [isIdentifier] at h
    cases hname : name.toList with
    | nil => simp [hname] at h
    | cons c cs =>
      rw [hname] at h
      refine ⟨by simp, fun d hd => ?_⟩
      have hd' : (d.isAlpha || d == '_' || d.isDigit) = true := by
        simp only [Bool.and_eq_true, List.all_eq_true] at h
        rcases List.mem_cons.mp hd with rfl | hmem
        · simp [h.1]
        · simpa using h.2 d hmem
      exact ⟨by rintro rfl; simp at hd', by rintro rfl; simp at hd'⟩
  have hpath : ("context." ++ name).toList = ['.'].intercalate ["context".toList, name.toList] := by
    simp [List.intercalate]
  have hsplit : ("context." ++ name).toList.splitOn '.' = ["context".toList, name.toList] := by
    rw [hpath]
    refine List.splitOn_intercalate '.' ?_ (by simp)
    intro chunk hchunk
    rcases List.mem_cons.mp hchunk with rfl | hchunk
    · decide
    · obtain rfl := List.mem_singleton.mp hchunk
      exact fun hdot => (hchars.2 '.' hdot).1 rfl
  have hname := tokenizeChunk_plain hchars.1 fun hbracket => (hchars.2 '[' hbracket).2 rfl
  rw [tokenizePath, hsplit, tokenizeChunks, tokenizeChunks, hname,
    tokenizeChunk_plain (by decide) (by decide)]
  simp [tokenizeChunks]

/-! ### Rounds

    A round takes something off the chunk, but for a `[` at its front that opens no `[*]`. -/

theorem starred_of_notMem : ∀ {cursor : List Char}, '[' ∉ cursor → starred cursor = true
  | [], _ => rfl
  | c :: cs, h => by
    rw [List.mem_cons, not_or] at h
    simp [starred, Ne.symm h.1, starred_of_notMem h.2]

/-- What is before the first bracket does not matter. -/
theorem starred_append {name : List Char} (h : '[' ∉ name) (rest : List Char) :
    starred (name ++ rest) = starred rest := by
  induction name with
  | nil => rfl
  | cons c cs ih =>
    rw [List.mem_cons, not_or] at h
    simp [starred, Ne.symm h.1, ih h.2]

theorem closesStar_eq_false {rest : List Char}
    (h : ¬ "[*]".toList.isPrefixOf ('[' :: rest) = true) : closesStar rest = false := by
  unfold closesStar
  split
  · exact absurd rfl h
  · rfl

/-- A round takes a `[*]`, all of a chunk without brackets, or what is before the first bracket. -/
theorem chunkStep_cases (cursor : List Char) :
    (∃ rest, cursor = '[' :: '*' :: ']' :: rest ∧ (chunkStep cursor).2 = rest) ∨
    ('[' ∉ cursor ∧ (chunkStep cursor).2 = []) ∨
    ∃ name rest, cursor = name ++ '[' :: rest ∧ '[' ∉ name ∧
      (name = [] → closesStar rest = false) ∧ (chunkStep cursor).2 = '[' :: rest := by
  by_cases hopen : "[*]".toList.isPrefixOf cursor = true
  · obtain ⟨rest, rfl⟩ := List.isPrefixOf_iff_prefix.mp hopen
    exact .inl ⟨rest, rfl, by rw [chunkStep, if_pos hopen]; rfl⟩
  by_cases hbracket : '[' ∈ cursor
  · refine .inr (.inr ?_)
    have hdrop : cursor.dropWhile (· != '[') ≠ [] := by
      intro hnil
      have := List.dropWhile_eq_nil_iff.mp hnil '[' hbracket
      simp at this
    obtain ⟨c, rest, hrest⟩ := List.exists_cons_of_ne_nil hdrop
    have hc : c = '[' := by
      have := List.head_dropWhile_not (· != '[') hdrop
      simpa [hrest] using this
    subst hc
    have hcursor : cursor = cursor.takeWhile (· != '[') ++ '[' :: rest := by
      rw [← hrest, List.takeWhile_append_dropWhile]
    refine ⟨cursor.takeWhile (· != '['), rest, hcursor, fun hmem => ?_, fun hname => ?_, ?_⟩
    · simpa using List.mem_takeWhile_imp hmem
    · rw [hname, List.nil_append] at hcursor
      rw [hcursor] at hopen
      exact closesStar_eq_false hopen
    · rw [chunkStep, if_neg hopen, if_neg (not_not.mpr hbracket)]
      exact hrest
  · exact .inr (.inl ⟨hbracket, by rw [chunkStep, if_neg hopen, if_pos hbracket]⟩)

/-- On a chunk whose brackets all open a `[*]`, every round takes something off. -/
theorem starred_round {cursor : List Char} (hne : cursor ≠ []) (h : starred cursor = true) :
    starred (chunkStep cursor).2 = true ∧ (chunkStep cursor).2.length < cursor.length := by
  rcases chunkStep_cases cursor with ⟨rest, hcursor, hrest⟩ | ⟨_, hrest⟩ |
    ⟨name, rest, hcursor, hname, hopen, hrest⟩
  · rw [hrest]
    subst hcursor
    simp only [starred, Bool.and_eq_true] at h
    exact ⟨h.2.2.2, by simp only [List.length_cons]; omega⟩
  · rw [hrest]
    exact ⟨rfl, List.length_pos_iff.mpr hne⟩
  · rw [hrest]
    subst hcursor
    rw [starred_append hname] at h
    refine ⟨h, ?_⟩
    have hpos : name ≠ [] := by
      intro hnil
      simp [starred, hopen hnil] at h
    have := List.length_pos_iff.mpr hpos
    rw [List.length_append]
    omega

/-- What a round leaves tells of the whole chunk. -/
theorem starred_of_round {cursor : List Char} (h : starred (chunkStep cursor).2 = true) :
    starred cursor = true := by
  rcases chunkStep_cases cursor with ⟨rest, hcursor, hrest⟩ | ⟨hbracket, _⟩ |
    ⟨name, rest, hcursor, hname, _, hrest⟩
  · rw [hrest] at h
    subst hcursor
    simp [starred, closesStar, h]
  · exact starred_of_notMem hbracket
  · rw [hrest] at h
    rw [hcursor, starred_append hname, h]

theorem tokenizeChunk_succ {cursor : List Char} (hne : cursor ≠ []) (rounds : ℕ) :
    tokenizeChunk (rounds + 1) cursor =
      (tokenizeChunk rounds (chunkStep cursor).2).map ((chunkStep cursor).1.toList ++ ·) := by
  match cursor, hne with
  | c :: cs, _ => rw [tokenizeChunk]; simp

/-- More rounds than the chunk has characters are enough. -/
theorem tokenizeChunk_isSome (rounds : ℕ) : ∀ {cursor : List Char}, starred cursor = true →
    cursor.length < rounds → (tokenizeChunk rounds cursor).isSome = true := by
  induction rounds with
  | zero => exact fun _ hlt => absurd hlt (Nat.not_lt_zero _)
  | succ rounds ih =>
    intro cursor h hlt
    by_cases hne : cursor = []
    · subst hne
      rfl
    · obtain ⟨hnext, hshorter⟩ := starred_round hne h
      rw [tokenizeChunk_succ hne, Option.isSome_map]
      exact ih hnext (by omega)

/-- A chunk that is done in some number of rounds has no other brackets. -/
theorem starred_of_tokenizeChunk (rounds : ℕ) : ∀ {cursor : List Char},
    (tokenizeChunk rounds cursor).isSome = true → starred cursor = true := by
  induction rounds with
  | zero => exact fun h => by cases h
  | succ rounds ih =>
    intro cursor h
    by_cases hne : cursor = []
    · subst hne
      rfl
    · rw [tokenizeChunk_succ hne, Option.isSome_map] at h
      exact starred_of_round (ih h)

/-- A chunk that begins with a bracket begins with a `[*]`. -/
theorem tokenizeChunk_bracket {rounds : ℕ} {rest : List Char} {segments : List String}
    (h : tokenizeChunk rounds ('[' :: rest) = some segments) :
    ∃ others, segments = "[*]" :: others := by
  have hstarred := starred_of_tokenizeChunk rounds (by rw [h]; rfl)
  have hcloses : closesStar rest = true := by
    rw [starred] at hstarred
    simpa using (Bool.and_eq_true_iff.mp hstarred).1
  unfold closesStar at hcloses
  split at hcloses
  case h_2 => cases hcloses
  case h_1 after =>
    cases rounds with
    | zero => cases h
    | succ rounds =>
      rw [tokenizeChunk_succ (by simp)] at h
      obtain ⟨others, _, rfl⟩ := Option.map_eq_some_iff.mp h
      exact ⟨others, rfl⟩

/-- The first segments of a chunk: a `[*]`, all of it, or what is before its first `[*]`. -/
theorem tokenizeChunk_cases {rounds : ℕ} {cursor : List Char} {segments : List String}
    (h : tokenizeChunk rounds cursor = some segments) (hne : cursor ≠ []) :
    (∃ others, segments = "[*]" :: others) ∨ segments = [String.ofList cursor] ∨
      ∃ name others, segments = name :: "[*]" :: others := by
  cases rounds with
  | zero => cases h
  | succ rounds =>
    have hstep := h
    rw [tokenizeChunk_succ hne] at hstep
    obtain ⟨others, hothers, hsegments⟩ := Option.map_eq_some_iff.mp hstep
    by_cases hbracket : '[' ∈ cursor
    · obtain ⟨name, rest, rfl, hname⟩ := List.eq_append_cons_of_mem hbracket
      cases name with
      | nil => exact .inl (tokenizeChunk_bracket h)
      | cons c cs =>
        have hkeep : ∀ d ∈ c :: cs, (d != '[') = true := fun d hd =>
          bne_iff_ne.mpr fun heq => hname (heq ▸ hd)
        have hround : chunkStep (c :: cs ++ '[' :: rest) =
            (some (String.ofList (c :: cs)), '[' :: rest) := by
          have hopen : ¬ "[*]".toList.isPrefixOf (c :: cs ++ '[' :: rest) = true := by
            rw [List.isPrefixOf_iff_prefix]
            intro hpre
            obtain ⟨more, hmore⟩ := hpre
            obtain rfl : '[' = c := (List.cons.inj hmore).1
            simp at hname
          rw [chunkStep, if_neg hopen, if_neg (not_not.mpr hbracket),
            List.takeWhile_append_of_pos hkeep, List.dropWhile_append_of_pos hkeep]
          simp
        rw [hround] at hothers hsegments
        obtain ⟨more, rfl⟩ := tokenizeChunk_bracket hothers
        exact .inr (.inr ⟨_, more, hsegments.symm⟩)
    · rw [chunkStep_plain hbracket] at hothers hsegments
      have hnil : others = [] := by
        cases rounds with
        | zero => cases hothers
        | succ rounds => exact (Option.some.inj hothers).symm
      exact .inr (.inl (by rw [← hsegments, hnil]; rfl))

theorem tokenizeChunks_isSome_iff (rounds : ℕ) (chunks : List (List Char)) :
    (tokenizeChunks rounds chunks).isSome = true ↔
      ∀ chunk ∈ chunks, (tokenizeChunk rounds chunk).isSome = true := by
  induction chunks with
  | nil => simp [tokenizeChunks]
  | cons chunk chunks ih =>
    rw [tokenizeChunks, List.forall_mem_cons, ← ih]
    cases tokenizeChunk rounds chunk <;> simp

theorem closesStar_append_dot (rest : List Char) : ∀ chunk : List Char,
    closesStar (chunk ++ '.' :: rest) = closesStar chunk
  | [] => by simp [closesStar]
  | [_] => by simp [closesStar]
  | c :: d :: cs => by
    rw [List.cons_append, List.cons_append]
    unfold closesStar
    split <;> split <;> simp_all

/-- No `[*]` reaches over a dot. -/
theorem starred_append_dot (chunk rest : List Char) :
    starred (chunk ++ '.' :: rest) = (starred chunk && starred rest) := by
  induction chunk with
  | nil => simp [starred]
  | cons c cs ih =>
    rw [List.cons_append, starred, starred, closesStar_append_dot, ih, Bool.and_assoc]

theorem starred_intercalate (chunks : List (List Char)) :
    starred (['.'].intercalate chunks) = true ↔ ∀ chunk ∈ chunks, starred chunk = true := by
  match chunks with
  | [] => simp [starred]
  | [chunk] => simp
  | chunk :: next :: chunks =>
    rw [List.intercalate_cons_cons, List.append_assoc, List.singleton_append, starred_append_dot,
      Bool.and_eq_true, List.forall_mem_cons, starred_intercalate (next :: chunks)]

theorem length_le_intercalate {chunks : List (List Char)} {chunk : List Char}
    (h : chunk ∈ chunks) : chunk.length ≤ (['.'].intercalate chunks).length := by
  match chunks, h with
  | [only], h =>
    obtain rfl := List.mem_singleton.mp h
    simp
  | first :: next :: chunks, h =>
    rw [List.intercalate_cons_cons]
    simp only [List.length_append]
    rcases List.mem_cons.mp h with rfl | hmem
    · omega
    · have := length_le_intercalate hmem
      omega

theorem starred_chunks (path : List Char) :
    starred path = true ↔ ∀ chunk ∈ path.splitOn '.', starred chunk = true := by
  rw [← starred_intercalate, List.intercalate_splitOn]

/-- More rounds than the path has characters are enough for each of its chunks. -/
theorem tokenizePath_isSome {rounds : ℕ} {path : String} (h : starred path.toList = true)
    (hlt : path.length < rounds) : (tokenizePath rounds path).isSome = true := by
  rw [starred_chunks] at h
  rw [tokenizePath, tokenizeChunks_isSome_iff]
  intro chunk hchunk
  refine tokenizeChunk_isSome rounds (h chunk hchunk) (Nat.lt_of_le_of_lt ?_ hlt)
  have hlength := length_le_intercalate hchunk
  rwa [List.intercalate_splitOn] at hlength

theorem starred_of_tokenizePath {rounds : ℕ} {path : String}
    (h : (tokenizePath rounds path).isSome = true) : starred path.toList = true := by
  rw [tokenizePath, tokenizeChunks_isSome_iff] at h
  rw [starred_chunks]
  exact fun chunk hchunk => starred_of_tokenizeChunk rounds (h chunk hchunk)

/-! ### Values -/

/-- What a path leads to: a JSON value, a list that an inner `[*]` projected, or another object. -/
inductive Value (Obj : Type) where
  | json (value : Json)
  | list (items : List (Value Obj))
  | object (o : Obj)

variable {Obj : Type} (attr : Value Obj → String → Value Obj)

/-- `_walk`. -/
def walk : List String → Value Obj → Value Obj
  | [], cursor => cursor
  | _ :: _, .json .null => .json .null
  | seg :: rest, .json (.arr items) =>
    if seg = "[*]" then
      if rest = [] then .json (.arr items)
      else .list (items.map fun item => walk rest (.json item))
    else .json .null
  | seg :: rest, .list items =>
    if seg = "[*]" then if rest = [] then .list items else .list (items.map (walk rest))
    else .json .null
  | seg :: rest, .json (.obj fields) =>
    if seg = "[*]" then .json .null
    else walk rest (.json ((Dict.get fields seg).getD .null))
  | seg :: rest, cursor =>
    if seg = "[*]" then .json .null else walk rest (attr cursor seg)

/-- `resolve_path`. -/
def resolvePath (rounds : ℕ) (state : Dict) (path : String) : Option (Value Obj) :=
  if path = "" then some (.json (.obj state))
  else (tokenizePath rounds path).map fun segments => walk attr segments (.json (.obj state))

/-- The text of a marker. -/
def marker (path : String) : String := "$\x7b" ++ path ++ "\x7d"

/-- `_resolve_value`: a string that is one marker as a whole is what its path leads to. -/
def resolveValue (rounds : ℕ) (state : Dict) : Json → Option (Value Obj)
  | .str text =>
    if "$\x7b".toList.isPrefixOf text.toList ∧ "\x7d".toList.isSuffixOf text.toList then
      resolvePath attr rounds state (String.ofList (text.toList.drop 2).dropLast)
    else some (.json (.str text))
  | value => some (.json value)

@[simp] theorem walk_null : ∀ segments : List String,
    walk attr segments (.json .null) = .json .null
  | [] => rfl
  | _ :: _ => rfl

/-- A segment that is no `[*]` reads its key of a dict. -/
theorem walk_obj {seg : String} (hseg : seg ≠ "[*]") (rest : List String) (fields : Dict) :
    walk attr (seg :: rest) (.json (.obj fields)) =
      walk attr rest (.json ((Dict.get fields seg).getD .null)) := by
  rw [walk, if_neg hseg]

theorem resolveValue_marker (rounds : ℕ) (state : Dict) (path : String) :
    resolveValue attr rounds state (.str (marker path)) = resolvePath attr rounds state path := by
  have htext : (marker path).toList = '$' :: '\x7b' :: (path.toList ++ ['\x7d']) := by
    simp [marker]
  have hpath : String.ofList ((marker path).toList.drop 2).dropLast = path := by
    rw [htext]
    simp
  have hpre : "$\x7b".toList.isPrefixOf (marker path).toList = true := by
    rw [htext]
    rfl
  have hsuffix : "\x7d".toList.isSuffixOf (marker path).toList = true := by
    rw [List.isSuffixOf_iff_suffix, htext]
    exact ⟨'$' :: '\x7b' :: path.toList, by simp⟩
  rw [resolveValue, if_pos ⟨hpre, hsuffix⟩, hpath]

/-- The tokens decide whether a path is resolved. -/
theorem starred_of_resolvePath {rounds : ℕ} {state : Dict} {path : String}
    (h : (resolvePath attr rounds state path).isSome = true) : starred path.toList = true := by
  unfold resolvePath at h
  split at h
  case isTrue hempty =>
    subst hempty
    rfl
  case isFalse =>
    rw [Option.isSome_map] at h
    exact starred_of_tokenizePath h

theorem resolvePath_isSome {rounds : ℕ} (state : Dict) {path : String}
    (h : starred path.toList = true) (hlt : path.length < rounds) :
    (resolvePath attr rounds state path).isSome = true := by
  unfold resolvePath
  split
  · rfl
  · rw [Option.isSome_map]
    exact tokenizePath_isSome h hlt

end LunaCore.Flow
