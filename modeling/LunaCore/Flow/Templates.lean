import LunaCore.Flow.TemplatePaths

/-! The templates of prompts, and their preview.

    text:  before ${path} after        find the marker
           before value   after        put in what the path leads to
                          └ cursor     and go on behind it

    The outer loop goes on behind the text it put in, so each round leaves less of the template.
    Whether it comes to the end is up to the paths: their tokens are cut by a loop that may not. -/

namespace LunaCore.Flow
open LunaCore.Values

/-! ### Markers -/

/-- `result.find("${", cursor)`: what is before it and what is behind it. -/
def findOpen : List Char → Option (List Char × List Char)
  | '$' :: '\x7b' :: inner => some ([], inner)
  | [] => none
  | c :: rest => (findOpen rest).map fun found => (c :: found.1, found.2)

/-- The next marker that is closed: what is before it, its path and what is behind it. -/
def nextMarker (rest : List Char) : Option (List Char × String × List Char) :=
  (findOpen rest).bind fun (before, inner) =>
    if '\x7d' ∈ inner then
      some (before, String.ofList (inner.takeWhile (· != '\x7d')),
        (inner.dropWhile (· != '\x7d')).tail)
    else none

theorem findOpen_length : ∀ {rest before inner : List Char},
    findOpen rest = some (before, inner) → before.length + 2 + inner.length = rest.length := by
  intro rest
  induction rest using findOpen.induct with
  | case1 inner =>
    intro before inner' h
    simp only [findOpen, Option.some.injEq, Prod.mk.injEq] at h
    obtain ⟨rfl, rfl⟩ := h
    simp only [List.length_nil, List.length_cons]
    omega
  | case2 => exact fun h => by cases h
  | case3 c rest hne ih =>
    intro before inner h
    rw [findOpen] at h
    · obtain ⟨found, hfound, hpair⟩ := Option.map_eq_some_iff.mp h
      obtain ⟨rfl, rfl⟩ := Prod.mk.inj hpair
      have := ih hfound
      simp only [List.length_cons]
      omega
    · exact hne

/-- The path of a marker and what is behind it are shorter than the text. -/
theorem nextMarker_length {rest before after : List Char} {path : String}
    (h : nextMarker rest = some (before, path, after)) :
    path.length < rest.length ∧ after.length < rest.length := by
  obtain ⟨⟨_, inner⟩, hopen, h⟩ := Option.bind_eq_some_iff.mp h
  have hlength := findOpen_length hopen
  simp only at h
  split at h
  · simp only [Option.some.injEq, Prod.mk.injEq] at h
    obtain ⟨rfl, rfl, rfl⟩ := h
    have hpath := (List.takeWhile_sublist (p := (· != '\x7d')) (l := inner)).length_le
    have hafter := (List.dropWhile_sublist (p := (· != '\x7d')) (l := inner)).length_le
    rw [String.length_ofList, List.length_tail]
    omega
  · cases h

/-- The paths of the markers of a text, from left to right. -/
def markers (rest : List Char) : List String :=
  match _ : nextMarker rest with
  | none => []
  | some (_, path, after) => path :: markers after
termination_by rest.length
decreasing_by exact (nextMarker_length ‹_›).2

theorem markers_none {rest : List Char} (h : nextMarker rest = none) : markers rest = [] := by
  rw [markers]
  split
  · rfl
  · rw [h] at *
    contradiction

theorem markers_some {rest before after : List Char} {path : String}
    (h : nextMarker rest = some (before, path, after)) :
    markers rest = path :: markers after := by
  rw [markers]
  split
  · rw [h] at *
    contradiction
  · simp_all

/-! ### Substitution -/

variable {Obj : Type} (attr : Value Obj → String → Value Obj) (str : Value Obj → String)

/-- The loop of both formatters, for so many rounds: `done` is `result[:cursor]`. -/
def substitute (replacement : String → Option String) :
    ℕ → List Char → List Char → Option String
  | 0, _, _ => none
  | rounds + 1, done, rest => match nextMarker rest with
    | none => some (String.ofList (done ++ rest))
    | some (before, path, after) => (replacement path).bind fun text =>
        substitute replacement rounds (done ++ before ++ text.toList) after

/-- `_stringify`: None is the empty text and a text is itself; `str` gives the others. -/
def stringify : Value Obj → String
  | .json .null => ""
  | .json (.str text) => text
  | value => str value

/-- `_format_template`. -/
def formatTemplate (rounds : ℕ) (state : Dict) (text : String) : Option String :=
  substitute (fun path =>
    (resolveValue attr rounds state (.str (marker path))).map (stringify str))
    rounds [] text.toList

/-- The source of a `context.` path that was not loaded. -/
def unresolvedSource (missing : Dict) (path : String) : Option String :=
  if "context.".toList.isPrefixOf path.toList then
    let sourceName := String.ofList ((path.toList.drop 8).takeWhile (· != '.'))
    if sourceName ∈ missing.map Prod.fst then none else some sourceName
  else none

/-- `_render_template`. -/
def renderTemplate (rounds : ℕ) (state missing : Dict) (text : String) : Option String :=
  substitute (fun path => match unresolvedSource missing path with
    | some sourceName => some ("[unresolved " ++ sourceName ++ "]")
    | none => (resolvePath attr rounds state path).map (stringify str))
    rounds [] text.toList

/-- The loop is through when every marker on its way is replaced. -/
theorem substitute_isSome {replacement : String → Option String} (rounds : ℕ) :
    ∀ {done rest : List Char}, rest.length < rounds →
      (∀ path ∈ markers rest, (replacement path).isSome = true) →
        (substitute replacement rounds done rest).isSome = true := by
  induction rounds with
  | zero => exact fun hlt => absurd hlt (Nat.not_lt_zero _)
  | succ rounds ih =>
    intro done rest hlt hpaths
    rw [substitute]
    split
    · rfl
    case h_2 before path after hnext =>
      rw [markers_some hnext, List.forall_mem_cons] at hpaths
      obtain ⟨text, htext⟩ := Option.isSome_iff_exists.mp hpaths.1
      have hshorter := (nextMarker_length hnext).2
      rw [htext, Option.bind_some]
      exact ih (by omega) hpaths.2

theorem replaced_of_substitute {replacement : String → Option String} (rounds : ℕ) :
    ∀ {done rest : List Char}, (substitute replacement rounds done rest).isSome = true →
      ∀ path ∈ markers rest, (replacement path).isSome = true := by
  induction rounds with
  | zero => exact fun h => by cases h
  | succ rounds ih =>
    intro done rest h
    rw [substitute] at h
    split at h
    case h_1 hnext =>
      rw [markers_none hnext]
      exact fun path hpath => by cases hpath
    case h_2 before path after hnext =>
      rw [markers_some hnext, List.forall_mem_cons]
      cases htext : replacement path with
      | none =>
        rw [htext] at h
        cases h
      | some text =>
        rw [htext, Option.bind_some] at h
        exact ⟨rfl, ih h⟩

theorem length_of_mem_markers {path : String} (rest : List Char) (h : path ∈ markers rest) :
    path.length < rest.length := by
  induction rest using markers.induct with
  | case1 rest hnext =>
    rw [markers_none hnext] at h
    cases h
  | case2 rest before first after hnext ih =>
    obtain ⟨hfirst, hafter⟩ := nextMarker_length hnext
    rw [markers_some hnext] at h
    rcases List.mem_cons.mp h with rfl | hmem
    · exact hfirst
    · have := ih hmem
      omega

/-! ### Which texts are rendered -/

theorem isSome_formatMarker (rounds : ℕ) (state : Dict) (path : String) :
    ((resolveValue attr rounds state (.str (marker path))).map (stringify str)).isSome =
      (resolvePath attr rounds state path).isSome := by
  rw [resolveValue_marker, Option.isSome_map]

theorem formatTemplate_returns_iff (state : Dict) (text : String) :
    Returns (fun rounds => formatTemplate attr str rounds state text) ↔
      ∀ path ∈ markers text.toList, starred path.toList = true := by
  constructor
  · rintro ⟨enough, h⟩ path hpath
    have hreplaced := replaced_of_substitute enough (h enough le_rfl) path hpath
    rw [isSome_formatMarker] at hreplaced
    exact starred_of_resolvePath attr hreplaced
  · refine fun h => ⟨text.length + 1, fun rounds hrounds => ?_⟩
    refine substitute_isSome rounds (by rw [String.length_toList]; omega) fun path hpath => ?_
    have hlength := length_of_mem_markers _ hpath
    rw [String.length_toList] at hlength
    rw [isSome_formatMarker]
    exact resolvePath_isSome attr state (h path hpath) (by omega)

theorem renderTemplate_returns_iff (state missing : Dict) (text : String) :
    Returns (fun rounds => renderTemplate attr str rounds state missing text) ↔
      ∀ path ∈ markers text.toList, unresolvedSource missing path = none →
        starred path.toList = true := by
  constructor
  · rintro ⟨enough, h⟩ path hpath hloaded
    have hreplaced := replaced_of_substitute enough (h enough le_rfl) path hpath
    simp only [hloaded, Option.isSome_map] at hreplaced
    exact starred_of_resolvePath attr hreplaced
  · refine fun h => ⟨text.length + 1, fun rounds hrounds => ?_⟩
    refine substitute_isSome rounds (by rw [String.length_toList]; omega) fun path hpath => ?_
    have hlength := length_of_mem_markers _ hpath
    rw [String.length_toList] at hlength
    cases hloaded : unresolvedSource missing path with
    | some sourceName => rfl
    | none =>
      simp only [Option.isSome_map]
      exact resolvePath_isSome attr state (h path hpath hloaded) (by omega)

theorem tokenizePath_returns_iff (path : String) :
    Returns (fun rounds => tokenizePath rounds path) ↔ starred path.toList = true :=
  ⟨fun ⟨enough, h⟩ => starred_of_tokenizePath (h enough le_rfl),
    fun h => ⟨path.length + 1, fun _ hrounds => tokenizePath_isSome h hrounds⟩⟩

theorem resolvePath_returns_iff (state : Dict) (path : String) :
    Returns (fun rounds => resolvePath attr rounds state path) ↔ starred path.toList = true :=
  ⟨fun ⟨enough, h⟩ => starred_of_resolvePath attr (h enough le_rfl),
    fun h => ⟨path.length + 1, fun _ hrounds => resolvePath_isSome attr state h hrounds⟩⟩

/-- EXACT CONDITION: a path is tokenized and resolved just when every `[` of it opens a `[*]`; a
    template is formatted when this holds of all its markers, and previewed when it holds of those
    whose source is not reported as unresolved. -/
theorem paths_end_iff (state missing : Dict) (path text : String) :
    (Returns (fun rounds => tokenizePath rounds path) ↔ starred path.toList = true) ∧
    (Returns (fun rounds => resolvePath attr rounds state path) ↔ starred path.toList = true) ∧
    (Returns (fun rounds => formatTemplate attr str rounds state text) ↔
      ∀ path ∈ markers text.toList, starred path.toList = true) ∧
    (Returns (fun rounds => renderTemplate attr str rounds state missing text) ↔
      ∀ path ∈ markers text.toList, unresolvedSource missing path = none →
        starred path.toList = true) :=
  ⟨tokenizePath_returns_iff path, resolvePath_returns_iff attr state path,
    formatTemplate_returns_iff attr str state text,
    renderTemplate_returns_iff attr str state missing text⟩

/-- An index is written like this, and the bracket is never passed. -/
theorem index_never_ends :
    ¬ ∀ (state missing : Dict) (path text : String),
      Returns (fun rounds => tokenizePath rounds path) ∧
      Returns (fun rounds => resolvePath (fun (_ : Value Unit) _ => .json .null) rounds state path) ∧
      Returns (fun rounds => formatTemplate (fun (_ : Value Unit) _ => .json .null) (fun _ => "")
        rounds state text) ∧
      Returns (fun rounds => renderTemplate (fun (_ : Value Unit) _ => .json .null) (fun _ => "")
        rounds state missing text) := by
  intro h
  obtain ⟨enough, htokens⟩ := (h [] [] "inputs.items[0]" "").1
  exact absurd (starred_of_tokenizePath (htokens enough le_rfl)) (by decide)

end LunaCore.Flow
