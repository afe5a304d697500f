import LunaCore.Connectors.Placement
import LunaCore.Schemes.References

/-! The URL of a request, and the structure its template has.

    base_url   https://api.test          path   /users/{id}
    template   https:  ""  api.test  users  ▢
    id = 7     https:  ""  api.test  users  7
    id = 7?a=1 https:  ""  api.test  users  7        query a=1

    A value is put into the path as it is, and the HTTP client reads the text that comes out. What
    comes before the path is the base URL, so the host stays whatever the values are. -/

namespace LunaCore.Connectors
open LunaCore.Schemes LunaCore.Values

/-- The marks of a URL. -/
def urlMarks : Marks Char where
  slash := '/'
  question := '?'
  hash := '#'
  dot := '.'
  slash_ne_question := by decide
  slash_ne_hash := by decide
  question_ne_hash := by decide
  slash_ne_dot := by decide
  question_ne_dot := by decide
  hash_ne_dot := by decide

/-- The marks of a template are letters; what is in a placeholder is none. -/
def templateMarks : Marks (Part Char String) where
  slash := .letter '/'
  question := .letter '?'
  hash := .letter '#'
  dot := .letter '.'
  slash_ne_question := by decide
  slash_ne_hash := by decide
  question_ne_hash := by decide
  slash_ne_dot := by decide
  question_ne_dot := by decide
  hash_ne_dot := by decide

/-- The base URL without the slashes at its end. -/
def trimmedBase (baseUrl : String) : List Char := baseUrl.toList.rdropWhile (· == '/')

/-- The path without the slashes it begins with. -/
def relativePath (path : String) : List (Part Char String) :=
  (partsOf path).dropWhile (· == .letter '/')

/-- The URL with the placeholders of the path left open. -/
def urlTemplate (baseUrl path : String) : List (Part Char String) :=
  (trimmedBase baseUrl).map .letter ++ .letter '/' :: relativePath path

/-- The URL has the components of the template, each placeholder filled where it stands. -/
def HasStructure (values : String → List Char) (baseUrl path : String) (url : List Char) : Prop :=
  parse urlMarks url = (parse templateMarks (urlTemplate baseUrl path)).map (fill values)

instance (values : String → List Char) (baseUrl path : String) (url : List Char) :
    Decidable (HasStructure values baseUrl path url) :=
  inferInstanceAs (Decidable (_ = _))

/-- No value has a letter that ends the component it is put into, none makes a segment a step, and
    none lets the path begin with a slash, which is stripped. -/
structure Contained (values : String → List Char) (baseUrl path : String) : Prop where
  segments : ∀ segment, .name segment ∈ (parse templateMarks (urlTemplate baseUrl path)).segments →
    ∀ key ∈ holes segment, '/' ∉ values key ∧ '?' ∉ values key ∧ '#' ∉ values key
  query : ∀ query, (parse templateMarks (urlTemplate baseUrl path)).query = some query →
    ∀ key ∈ holes query, '#' ∉ values key
  steps : ∀ segment, .name segment ∈ (parse templateMarks (urlTemplate baseUrl path)).segments →
    fill values segment ≠ ['.'] ∧ fill values segment ≠ ['.', '.']
  front : (fill values (relativePath path)).head? ≠ some '/'

variable {values : String → List Char}

/-- What stands for a part in a filled text. -/
def partText (values : String → List Char) : Part Char String → List Char
  | .letter c => [c]
  | .hole key => values key

theorem flatMap_partText (parts : List (Part Char String)) :
    parts.flatMap (partText values) = fill values parts := by
  refine List.flatMap_congr fun part _ => ?_
  cases part <;> rfl

theorem keeps_marks : Keeps templateMarks urlMarks (partText values) := ⟨rfl, rfl, rfl, rfl⟩

theorem not_mem_fill_iff {c : Char} {parts : List (Part Char String)}
    (h : .letter c ∉ parts) : c ∉ fill values parts ↔ ∀ key ∈ holes parts, c ∉ values key := by
  simp only [← flatMap_partText, List.mem_flatMap, not_exists, not_and]
  constructor
  · intro hno key hkey
    exact hno (.hole key) (mem_holes.mp hkey)
  · intro hno part hpart
    cases part with
    | letter d =>
      simp only [partText, List.mem_singleton]
      rintro rfl
      exact h hpart
    | hole key => exact hno key (mem_holes.mpr hpart)

theorem fill_letters (text : List Char) : fill values (text.map .letter) = text := by
  induction text with
  | nil => rfl
  | cons c text ih => rw [List.map_cons, fill_letter, ih]

/-- Stripping the slashes of the template first makes no difference. -/
theorem dropWhile_fill : ∀ parts : List (Part Char String),
    (fill values parts).dropWhile (· == '/') =
      (fill values (parts.dropWhile (· == .letter '/'))).dropWhile (· == '/')
  | [] => rfl
  | .hole key :: parts => by rw [List.dropWhile_cons_of_neg (by simp)]
  | .letter c :: parts => by
    by_cases hc : c = '/'
    · subst hc
      rw [fill_letter, List.dropWhile_cons_of_pos (by simp), List.dropWhile_cons_of_pos (by simp),
        dropWhile_fill parts]
    · rw [List.dropWhile_cons_of_neg (by simpa using hc)]

theorem dropWhile_eq_self_iff_head {text : List Char} :
    text.dropWhile (· == '/') = text ↔ text.head? ≠ some '/' := by
  cases text with
  | nil => simp
  | cons c text =>
    by_cases hc : c = '/'
    · subst hc
      rw [List.dropWhile_cons_of_pos (by simp)]
      refine ⟨fun h => absurd (congrArg List.length h) ?_, fun h => absurd rfl h⟩
      have hle := (List.dropWhile_suffix (· == '/') (l := text)).length_le
      simp only [List.length_cons]
      omega
    · rw [List.dropWhile_cons_of_neg (by simpa using hc)]
      simpa using hc

/-- The URL is the template filled just when nothing of a value is stripped. -/
theorem joinUrl_eq_fill_iff {baseUrl path : String} :
    joinUrl baseUrl (fill values (partsOf path)) = fill values (urlTemplate baseUrl path) ↔
      (fill values (relativePath path)).head? ≠ some '/' := by
  rw [joinUrl, urlTemplate, fill_append, fill_letter, fill_letters, dropWhile_fill,
    ← dropWhile_eq_self_iff_head, trimmedBase, relativePath, List.append_cancel_left_eq,
    List.cons.injEq, and_iff_right rfl]

/-- A name of the template stays one when its values have no mark and do not make it a step. -/
theorem isName_fill_iff {segment : List (Part Char String)} (h : IsName templateMarks segment) :
    IsName urlMarks (fill values segment) ↔
      (∀ key ∈ holes segment, '/' ∉ values key ∧ '?' ∉ values key ∧ '#' ∉ values key) ∧
        fill values segment ≠ ['.'] ∧ fill values segment ≠ ['.', '.'] := by
  have hslash : '/' ∉ fill values segment ↔ ∀ key ∈ holes segment, '/' ∉ values key :=
    not_mem_fill_iff h.slash
  have hquestion : '?' ∉ fill values segment ↔ ∀ key ∈ holes segment, '?' ∉ values key :=
    not_mem_fill_iff h.question
  have hhash : '#' ∉ fill values segment ↔ ∀ key ∈ holes segment, '#' ∉ values key :=
    not_mem_fill_iff h.hash
  constructor
  · intro hname
    refine ⟨fun key hkey => ⟨?_, ?_, ?_⟩, hname.here, hname.up⟩
    · exact hslash.mp hname.slash key hkey
    · exact hquestion.mp hname.question key hkey
    · exact hhash.mp hname.hash key hkey
  · rintro ⟨hvalues, hhere, hup⟩
    exact ⟨hslash.mpr fun key hkey => (hvalues key hkey).1,
      hquestion.mpr fun key hkey => (hvalues key hkey).2.1,
      hhash.mpr fun key hkey => (hvalues key hkey).2.2, hhere, hup⟩

variable (repr : Json → String) (d : OperationDefinition) (baseUrl : String)

/-- The URL of a request has the structure of its template just when the values are contained. -/
theorem hasStructure_iff {raw : Dict} {a : Assembled} (h : assemble repr d baseUrl raw = .ok a) :
    HasStructure (pathText repr (applyParameterDefaults d.parameters raw)) baseUrl d.path a.url ↔
      Contained (pathText repr (applyParameterDefaults d.parameters raw)) baseUrl d.path := by
  have hurl : a.url = joinUrl baseUrl
      (fill (pathText repr (applyParameterDefaults d.parameters raw)) (partsOf d.path)) := by
    have ha := assemble_eq_ok h
    simp only at ha
    rw [ha]
  generalize pathText repr (applyParameterDefaults d.parameters raw) = values at hurl ⊢
  have hvalid := valid_parse (m := templateMarks) (urlTemplate baseUrl d.path)
  rw [HasStructure, ← funext flatMap_partText, parse_flatMap_iff keeps_marks]
  simp only [flatMap_partText, hurl, joinUrl_eq_fill_iff]
  constructor
  · rintro ⟨hfront, hnames, hquery⟩
    refine ⟨fun segment hsegment => ?_, fun query hq => ?_, fun segment hsegment => ?_, hfront⟩
    · exact ((isName_fill_iff (hvalid.names segment hsegment)).mp (hnames segment hsegment)).1
    · exact (not_mem_fill_iff (hvalid.query query hq)).mp (hquery query hq)
    · exact ((isName_fill_iff (hvalid.names segment hsegment)).mp (hnames segment hsegment)).2
  · intro hcontained
    refine ⟨hcontained.front, fun segment hsegment => ?_, fun query hq => ?_⟩
    · exact (isName_fill_iff (hvalid.names segment hsegment)).mpr
        ⟨hcontained.segments segment hsegment, hcontained.steps segment hsegment⟩
    · exact (not_mem_fill_iff (hvalid.query query hq)).mpr (hcontained.query query hq)

/-- Whatever the values are, the URL begins with the scheme, the host and the path of the base. -/
theorem base_kept {raw : Dict} {a : Assembled} (h : assemble repr d baseUrl raw = .ok a)
    (hquestion : '?' ∉ trimmedBase baseUrl) (hhash : '#' ∉ trimmedBase baseUrl) :
    (parse urlMarks (trimmedBase baseUrl)).segments <+: (parse urlMarks a.url).segments := by
  have ha := assemble_eq_ok h
  simp only at ha
  rw [ha]
  exact segments_prefix (m := urlMarks) hquestion hhash _

/-- A user by id. -/
def getUser : OperationDefinition where
  method := .get
  path := "/users/{id}"
  parameters := [⟨"id", .string, "", true, .path, none, none, none, .null⟩]
  fixedHeaders := []
  fixedBody := .null
  distinct := List.nodup_nil

/-- The id 7 is contained. -/
theorem id_contained : ∃ a, assemble (fun _ => "") getUser "https://api.test"
    [("id", .str "7")] = .ok a ∧
      Contained (pathText (fun _ => "") (applyParameterDefaults getUser.parameters
        [("id", .str "7")])) "https://api.test" getUser.path :=
  ⟨_, rfl, (hasStructure_iff (fun _ => "") getUser "https://api.test" rfl).mp (by decide +kernel)⟩

/-- The id `7/../../admin?all=1` leaves its segment and brings a query. -/
theorem id_escapes : ∃ a, assemble (fun _ => "") getUser "https://api.test"
    [("id", .str "7/../../admin?all=1")] = .ok a ∧
      ¬ HasStructure (pathText (fun _ => "") (applyParameterDefaults getUser.parameters
        [("id", .str "7/../../admin?all=1")])) "https://api.test" getUser.path a.url :=
  ⟨_, rfl, by decide +kernel⟩

end LunaCore.Connectors
