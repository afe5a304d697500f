import LunaCore.Flow.Templates
import LunaCore.Schemes.Rewriting

/-! What a template is rendered to.

    `_format_template` rewrites the text it searches:

        Hi ${inputs.name}, ${inputs.task}        find "${", find "}"
        Hi <name>, ${inputs.task}                and go on behind the name
                 └ cursor

    A name may itself hold `${…}`: the cursor is behind it. So the text is the one pass over the
    pieces of the template, where each marker gives the text of its value. -/

namespace LunaCore.Flow
open LunaCore.Schemes LunaCore.Values

/-- From some number of rounds on, a loop that is given its rounds has this result. -/
def Gives {β : Type*} (run : ℕ → Option β) (result : β) : Prop :=
  ∃ enough, ∀ rounds, enough ≤ rounds → run rounds = some result

theorem Gives.unique {β : Type*} {run : ℕ → Option β} {one other : β} (h : Gives run one)
    (hother : Gives run other) : one = other := by
  obtain ⟨enough, h⟩ := h
  obtain ⟨enough', hother⟩ := hother
  have hone := h (max enough enough') (le_max_left _ _)
  rw [hother _ (le_max_right _ _)] at hone
  exact (Option.some.inj hone).symm

theorem Gives.map {β γ : Type*} {run : ℕ → Option β} {result : β} (h : Gives run result)
    (f : β → γ) : Gives (fun rounds => (run rounds).map f) (f result) := by
  obtain ⟨enough, h⟩ := h
  exact ⟨enough, fun rounds hrounds => by simp [h rounds hrounds]⟩

/-! ### More rounds -/

theorem tokenizeChunk_mono {rounds : ℕ} : ∀ {more : ℕ} {cursor : List Char} {segments : List String},
    tokenizeChunk rounds cursor = some segments → rounds ≤ more →
      tokenizeChunk more cursor = some segments := by
  induction rounds with
  | zero => exact fun h => by cases h
  | succ rounds ih =>
    intro more cursor segments h hle
    obtain ⟨more, rfl⟩ : ∃ less, more = less + 1 := ⟨more - 1, by omega⟩
    by_cases hne : cursor = []
    · subst hne
      exact h
    · rw [tokenizeChunk_succ hne] at h ⊢
      obtain ⟨rest, hrest, hsegments⟩ := Option.map_eq_some_iff.mp h
      rw [ih hrest (by omega), Option.map_some, hsegments]

theorem tokenizeChunks_mono {rounds more : ℕ} (hle : rounds ≤ more) :
    ∀ {chunks : List (List Char)} {segments : List String},
      tokenizeChunks rounds chunks = some segments → tokenizeChunks more chunks = some segments
  | [], _, h => h
  | chunk :: chunks, segments, h => by
    rw [tokenizeChunks] at h ⊢
    obtain ⟨one, hone, h⟩ := Option.bind_eq_some_iff.mp h
    obtain ⟨others, hothers, rfl⟩ := Option.map_eq_some_iff.mp h
    rw [tokenizeChunk_mono hone hle, Option.bind_some, tokenizeChunks_mono hle hothers,
      Option.map_some]

/-- A path that is resolved in some number of rounds has the same value in more. -/
theorem resolvePath_mono {Obj : Type} {attr : Value Obj → String → Value Obj} {rounds more : ℕ}
    {state : Dict} {path : String} {value : Value Obj}
    (h : resolvePath attr rounds state path = some value) (hle : rounds ≤ more) :
    resolvePath attr more state path = some value := by
  rw [resolvePath] at h ⊢
  split
  case isTrue hempty => rwa [if_pos hempty] at h
  case isFalse hpath =>
    rw [if_neg hpath] at h
    obtain ⟨segments, hsegments, hvalue⟩ := Option.map_eq_some_iff.mp h
    rw [tokenizePath] at hsegments ⊢
    rw [tokenizeChunks_mono hle hsegments, Option.map_some, hvalue]

theorem gives_of_resolvePath {Obj : Type} {attr : Value Obj → String → Value Obj} {rounds : ℕ}
    {state : Dict} {path : String} {value : Value Obj}
    (h : resolvePath attr rounds state path = some value) :
    Gives (fun rounds => resolvePath attr rounds state path) value :=
  ⟨rounds, fun _ hle => resolvePath_mono h hle⟩

/-! ### Pieces -/

/-- The pieces of what is left of a template: a marker is `${` up to the next `}`. -/
abbrev piecesOf (rest : List Char) : List (Piece Char) := pieces "$\x7b".toList '\x7d' rest

/-- The pieces of a template. -/
abbrev templatePieces (text : String) : List (Piece Char) := piecesOf text.toList

variable {Obj : Type} (attr : Value Obj → String → Value Obj) (str : Value Obj → String)

/-- `_format_template`, rewriting `result` in place. -/
def formatInPlace (rounds : ℕ) (state : Dict) (text : String) : Option String :=
  (rewriteInPlace "$\x7b".toList '\x7d'
    (fun path => (resolveValue attr rounds state (.str (marker (String.ofList path)))).map
      fun value => (stringify str value).toList)
    rounds text.toList 0).map String.ofList

/-- What `_format_template` puts in for a path. -/
def engineText (state : Dict) (rounds : ℕ) (path : String) : Option String :=
  (resolveValue attr rounds state (.str (marker path))).map (stringify str)

/-- A template put down in one pass, with a value for each marker. -/
def rendered (value : String → Value Obj) (text : String) : String :=
  String.ofList ((templatePieces text).flatMap
    (Piece.text fun path => (stringify str (value (String.ofList path))).toList))

variable {attr str}

/-- A bounded number of paths is resolved in one number of rounds. -/
theorem gives_all {β : Type*} {run : String → ℕ → Option β} {value : String → β} :
    ∀ paths : List String, (∀ path ∈ paths, Gives (run path) (value path)) →
      ∃ enough, ∀ rounds, enough ≤ rounds → ∀ path ∈ paths, run path rounds = some (value path)
  | [], _ => ⟨0, fun _ _ path hpath => by cases hpath⟩
  | first :: paths, h => by
    obtain ⟨enough, hfirst⟩ := h first List.mem_cons_self
    obtain ⟨enough', hrest⟩ := gives_all paths fun path hpath => h path (List.mem_cons_of_mem _ hpath)
    refine ⟨max enough enough', fun rounds hrounds path hpath => ?_⟩
    rcases List.mem_cons.mp hpath with rfl | hmem
    · exact hfirst rounds (le_trans (le_max_left _ _) hrounds)
    · exact hrest rounds (le_trans (le_max_right _ _) hrounds) path hmem

/-- The path of a marker. -/
def markedPath : Piece Char → Option String
  | .plain _ => none
  | .marked path => some (String.ofList path)

theorem mem_markedPaths {cut : List (Piece Char)} {path : String} :
    path ∈ cut.filterMap markedPath ↔ .marked path.toList ∈ cut := by
  rw [List.mem_filterMap]
  constructor
  · rintro ⟨piece, hpiece, hpath⟩
    cases piece with
    | plain c => cases hpath
    | marked inner =>
      obtain rfl := Option.some.inj hpath
      rwa [String.toList_ofList]
  · exact fun h => ⟨_, h, by rw [markedPath, String.ofList_toList]⟩

theorem engineText_mono {state : Dict} {rounds more : ℕ} {path text : String}
    (h : engineText attr str state rounds path = some text) (hle : rounds ≤ more) :
    engineText attr str state more path = some text := by
  rw [engineText, resolveValue_marker] at h ⊢
  obtain ⟨value, hvalue, rfl⟩ := Option.map_eq_some_iff.mp h
  rw [resolvePath_mono hvalue hle, Option.map_some]

theorem gives_engineText {state : Dict} {path : String} {value : Value Obj}
    (h : Gives (fun rounds => resolvePath attr rounds state path) value) :
    Gives (fun rounds => engineText attr str state rounds path) (stringify str value) := by
  simp only [engineText, resolveValue_marker]
  exact h.map (stringify str)

/-! ### The pieces before and after a marker -/

theorem not_opening {c : Char} {rest : List Char}
    (h : ∀ inner, c = '$' → rest = '\x7b' :: inner → False) :
    ¬ ("$\x7b".toList <+: c :: rest ∧ '\x7d' ∈ (c :: rest).drop "$\x7b".toList.length) := by
  rintro ⟨⟨inner, hinner⟩, _⟩
  simp only [String.reduceToList, List.cons_append, List.nil_append, List.cons.injEq] at hinner
  exact h inner hinner.1.symm hinner.2.symm

theorem piecesOf_findOpen (rest : List Char) : match findOpen rest with
    | none => piecesOf rest = rest.map .plain
    | some (before, inner) => rest = before ++ ("$\x7b".toList ++ inner) ∧
        piecesOf rest = before.map .plain ++ piecesOf ("$\x7b".toList ++ inner) := by
  induction rest using findOpen.induct with
  | case1 inner => exact ⟨rfl, rfl⟩
  | case2 => exact pieces_of_notMem (by decide)
  | case3 c rest hne ih =>
    rw [findOpen]
    · rw [piecesOf, pieces_plain (not_opening fun inner hc hrest => hne inner hc hrest)]
      cases hopen : findOpen rest with
      | none =>
        rw [hopen] at ih
        simp only [Option.map_none, List.map_cons, List.cons.injEq, true_and]
        exact ih
      | some found =>
        rw [hopen] at ih
        simp only [Option.map_some, List.cons_append, List.map_cons, List.cons.injEq, true_and]
        exact ih
    · exact hne

theorem piecesOf_marker {path : List Char} (after : List Char) (h : '\x7d' ∉ path) :
    piecesOf ("$\x7b".toList ++ (path ++ '\x7d' :: after)) = .marked path :: piecesOf after := by
  rw [← List.append_assoc]
  exact pieces_marked after h

theorem templatePieces_marker {path : String} (h : '\x7d' ∉ path.toList) :
    templatePieces (marker path) = [.marked path.toList] := by
  have htext : (marker path).toList = "$\x7b".toList ++ (path.toList ++ ['\x7d']) := by
    simp [marker]
  rw [templatePieces, htext, piecesOf_marker [] h, piecesOf, pieces_of_notMem (by simp)]
  rfl

theorem piecesOf_nextMarker (rest : List Char) : match nextMarker rest with
    | none => piecesOf rest = rest.map .plain
    | some (before, path, after) =>
        piecesOf rest = before.map .plain ++ .marked path.toList :: piecesOf after := by
  have hfound := piecesOf_findOpen rest
  rw [nextMarker]
  cases hopen : findOpen rest with
  | none =>
    rw [hopen] at hfound
    exact hfound
  | some found =>
    rw [hopen] at hfound
    obtain ⟨hrest, hpieces⟩ := hfound
    obtain ⟨before, inner⟩ := found
    by_cases hclosed : '\x7d' ∈ inner
    · obtain ⟨path, after, rfl, hpath⟩ := List.eq_append_cons_of_mem hclosed
      have hkeep : ∀ c ∈ path, (c != '\x7d') = true := fun c hc =>
        bne_iff_ne.mpr fun heq => hpath (heq ▸ hc)
      simp only [Option.bind_some, if_pos hclosed]
      rw [List.takeWhile_append_of_pos hkeep, List.dropWhile_append_of_pos hkeep,
        List.takeWhile_cons_of_neg (by simp), List.dropWhile_cons_of_neg (by simp), hpieces,
        piecesOf_marker after hpath, String.toList_ofList, List.append_nil, List.tail_cons]
    · have hnone : '\x7d' ∉ "$\x7b".toList ++ inner := by simp [hclosed]
      simp only [Option.bind_some, if_neg hclosed]
      rw [hpieces, piecesOf, pieces_of_notMem hnone, ← List.map_append, ← hrest]

/-- The loop over what is left of the template is one pass over its pieces. -/
theorem substitute_eq {replacement : String → Option String} (rounds : ℕ) :
    ∀ {done rest : List Char}, rest.length < rounds →
      substitute replacement rounds done rest =
        (onePass (fun path => (replacement (String.ofList path)).map String.toList)
          (piecesOf rest)).map fun text => String.ofList (done ++ text) := by
  induction rounds with
  | zero => exact fun h => absurd h (Nat.not_lt_zero _)
  | succ rounds ih =>
    intro done rest hlt
    have hpieces := piecesOf_nextMarker rest
    rw [substitute]
    split
    case h_1 hnext =>
      rw [hnext] at hpieces
      rw [hpieces, ← List.append_nil (rest.map _), onePass_plain]
      simp [onePass]
    case h_2 before path after hnext =>
      have hshorter := (nextMarker_length hnext).2
      rw [hnext] at hpieces
      rw [hpieces, onePass_plain, onePass, String.ofList_toList]
      cases replacement path with
      | none => rfl
      | some text =>
        rw [Option.bind_some, ih (by omega)]
        simp [Option.map_map, Function.comp_def]

/-! ### The loop and the pass -/

/-- `formatInPlace` and the formatter that walks the template put the same texts together. -/
theorem formatInPlace_eq {rounds : ℕ} (state : Dict) {text : String}
    (h : text.toList.length < rounds) :
    formatInPlace attr str rounds state text = formatTemplate attr str rounds state text := by
  simp only [formatInPlace, formatTemplate]
  rw [rewriteInPlace_start (by decide) h, substitute_eq rounds h]
  simp only [Option.map_map, Function.comp_def, List.nil_append]

theorem gives_formatInPlace (state : Dict) (text result : String) :
    Gives (fun rounds => formatInPlace attr str rounds state text) result ↔
      Gives (fun rounds => formatTemplate attr str rounds state text) result := by
  constructor
  all_goals
    rintro ⟨enough, h⟩
    refine ⟨max enough (text.toList.length + 1), fun rounds hrounds => ?_⟩
    have hresult := h rounds (by omega)
    simp only at hresult ⊢
  · rwa [formatInPlace_eq state (by omega)] at hresult
  · rwa [formatInPlace_eq state (by omega)]

theorem gives_substitute {run : ℕ → String → Option String} {template : String}
    {value : String → String} (h : ∀ path : String, .marked path.toList ∈ templatePieces template →
      Gives (fun rounds => run rounds path) (value path)) :
    Gives (fun rounds => substitute (run rounds) rounds [] template.toList)
      (String.ofList ((templatePieces template).flatMap
        (Piece.text fun path => (value (String.ofList path)).toList))) := by
  obtain ⟨enough, hrun⟩ := gives_all ((templatePieces template).filterMap markedPath)
    fun path hpath => h path (mem_markedPaths.mp hpath)
  refine ⟨max enough (template.toList.length + 1), fun rounds hrounds => ?_⟩
  have hvalue : ∀ path, .marked path ∈ templatePieces template →
      (run rounds (String.ofList path)).map String.toList =
        some (value (String.ofList path)).toList := by
    intro path hpath
    have hmem : String.ofList path ∈ (templatePieces template).filterMap markedPath :=
      mem_markedPaths.mpr (by rwa [String.toList_ofList])
    rw [hrun rounds (by omega) _ hmem, Option.map_some]
  simp only
  rw [substitute_eq _ (by omega), onePass_of_forall hvalue, Option.map_some]
  rfl

/-- The text of a template is the one pass with the texts of its markers, where they all have
    one. -/
theorem gives_substitute_iff (run : ℕ → String → Option String)
    (hmono : ∀ rounds more path text, run rounds path = some text → rounds ≤ more →
      run more path = some text) (template result : String) :
    Gives (fun rounds => substitute (run rounds) rounds [] template.toList) result ↔
      ∃ value : String → String, (∀ path : String, .marked path.toList ∈ templatePieces template →
          Gives (fun rounds => run rounds path) (value path)) ∧
        result = String.ofList ((templatePieces template).flatMap
          (Piece.text fun path => (value (String.ofList path)).toList)) := by
  constructor
  · intro hgives
    obtain ⟨enough, h⟩ := hgives
    have hpass := h (max enough (template.toList.length + 1)) (le_max_left _ _)
    simp only at hpass
    rw [substitute_eq _ (by omega)] at hpass
    obtain ⟨put, hput, _⟩ := Option.map_eq_some_iff.mp hpass
    -- the text a marker has in these rounds it has in more of them
    have hvalue (path : String) (hpath : .marked path.toList ∈ templatePieces template) :
        ∃ text, Gives (fun rounds => run rounds path) text := by
      obtain ⟨_, hinner⟩ := replaced_of_onePass hput path.toList hpath
      rw [String.ofList_toList] at hinner
      obtain ⟨text, htext, _⟩ := Option.map_eq_some_iff.mp hinner
      exact ⟨text, _, fun more hle => hmono _ more path text htext hle⟩
    choose! value hvalue using hvalue
    exact ⟨value, hvalue, Gives.unique ⟨enough, h⟩ (gives_substitute hvalue)⟩
  · rintro ⟨value, hvalue, rfl⟩
    exact gives_substitute hvalue

theorem gives_formatTemplate_iff (state : Dict) (template result : String) :
    Gives (fun rounds => formatTemplate attr str rounds state template) result ↔
      ∃ value : String → String, (∀ path : String, .marked path.toList ∈ templatePieces template →
          Gives (fun rounds => engineText attr str state rounds path) (value path)) ∧
        result = String.ofList ((templatePieces template).flatMap
          (Piece.text fun path => (value (String.ofList path)).toList)) :=
  gives_substitute_iff (engineText attr str state) (fun _ _ _ _ => engineText_mono) template result

variable (attr str) in
/-- REFINEMENT: where the paths of its markers are resolved, a template is formatted in place to
    its one pass. Its pieces are the text, cut, and no marker reaches over a closing brace. -/
theorem formatInPlace_gives (state : Dict) (text : String) (value : String → Value Obj)
    (h : ∀ path : String, .marked path.toList ∈ templatePieces text →
      Gives (fun rounds => resolvePath attr rounds state path) (value path)) :
    Gives (fun rounds => formatInPlace attr str rounds state text) (rendered str value text) ∧
      (templatePieces text).flatMap (Piece.source "$\x7b".toList '\x7d') = text.toList ∧
      ∀ path, .marked path ∈ templatePieces text → '\x7d' ∉ path := by
  refine ⟨(gives_formatInPlace state text _).mpr ?_, source_pieces _, fun path => notMem_of_marked _⟩
  exact (gives_formatTemplate_iff state text _).mpr
    ⟨fun path => stringify str (value path), fun path hpath => gives_engineText (h path hpath), rfl⟩

/-- A name that holds a marker is put in as it is. -/
theorem name_holding_marker :
    Gives (fun rounds => formatInPlace (fun (_ : Value Unit) _ => .json .null) (fun _ => "") rounds
      [("inputs", .obj [("name", .str (marker "inputs.key")), ("key", .str "secret")])]
      ("Hi " ++ marker "inputs.name")) ("Hi " ++ marker "inputs.key") := by
  have hpieces : templatePieces ("Hi " ++ marker "inputs.name") =
      [.plain 'H', .plain 'i', .plain ' ', .marked "inputs.name".toList] := by
    simp [templatePieces, marker, pieces]
  have hgives := (formatInPlace_gives (fun (_ : Value Unit) _ => .json .null) (fun _ => "")
    [("inputs", .obj [("name", .str (marker "inputs.key")), ("key", .str "secret")])]
    ("Hi " ++ marker "inputs.name") (fun _ => .json (.str (marker "inputs.key"))) ?_).1
  · rwa [rendered, hpieces] at hgives
  · intro path hpath
    have hinner : path.toList = "inputs.name".toList := by
      rw [hpieces] at hpath
      simpa using hpath
    obtain rfl := String.toList_inj.mp hinner
    have hvalue : resolvePath (fun (_ : Value Unit) _ => .json .null) 2
        [("inputs", .obj [("name", .str (marker "inputs.key")), ("key", .str "secret")])]
        "inputs.name" = some (.json (.str (marker "inputs.key"))) := rfl
    exact gives_of_resolvePath hvalue

end LunaCore.Flow
