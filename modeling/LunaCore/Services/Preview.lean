import LunaCore.Flow.Rendering
import LunaCore.Services.ContextSources

/-! The preview of an agent's instructions.

    extract     the pattern finds the sources the text names
    load        each of them is loaded, or reported
    render      a marker whose source did not load is put in as [unresolved …]

    What a marker's source is, the renderer reads up to the next dot and the pattern up to the first
    character no name has. They are the same where what stands there is an identifier; elsewhere the
    renderer misses a source the pattern found. -/

namespace LunaCore.Services
open LunaCore.Flow LunaCore.Schemes LunaCore.Values

/-! ### Loading -/

inductive SourceStatus where
  | ok | unknownSource | missingBinding | loaderError
  deriving DecidableEq

/-- `InstructionsPreviewSourceDiag`. -/
structure SourceDiag where
  name : String
  status : SourceStatus
  detail : Option String := none
  deriving DecidableEq

/-- `InstructionsPreviewOut`. -/
structure PreviewOut where
  resolved : String
  requiredSources : List String
  diagnostics : List SourceDiag
  deriving DecidableEq

/-- The state a preview is rendered with, before the context is put in. -/
def syntheticState (userId : String) : Dict :=
  [("trigger", .obj [("user_id", .str userId)]), ("inputs", .obj []), ("outputs", .obj [])]

/-- A call of `preview_instructions`: what is registered, for whom, and its arguments. -/
structure PreviewCall where
  registry : List ContextSource
  userId : String
  sourceBindings : Option (List (String × String))
  instructions : String

section
variable (repr : String → String) (call : PreviewCall)

/-- One turn of the loop over the required sources: what is reported and what is loaded. -/
def previewSource (name : String) : SourceDiag × Option Dict :=
  match getContextSource call.registry name with
  | none => (⟨name, .unknownSource, some ("no source registered under " ++ repr name)⟩, none)
  | some source =>
    let bound := (call.sourceBindings.getD []).lookup name
    if source.idImplicit = false ∧ bound.getD "" = "" then
      (⟨name, .missingBinding, some ("source " ++ repr name ++
        " needs an explicit id; pass it in `source_bindings`")⟩, none)
    else
      match source.loader (syntheticState call.userId)
          (if source.idImplicit then none else bound) with
      | .raised detail => (⟨name, .loaderError, some detail⟩, none)
      | .other typeName =>
        (⟨name, .loaderError, some ("loader returned " ++ typeName ++ ", expected dict")⟩, none)
      | .data fields => (⟨name, .ok, none⟩, some fields)

/-- `required`. -/
def PreviewCall.required : List String := extractContextSources (some call.instructions)

/-- `loaded_context`. -/
def loadedContext : Dict :=
  call.required.filterMap fun name =>
    (previewSource repr call name).2.map fun fields => (name, .obj fields)

def diagnostics : List SourceDiag :=
  call.required.map fun name => (previewSource repr call name).1

/-- The state with the loaded sources as its context. -/
def previewState : Dict :=
  (syntheticState call.userId).set "context" (.obj (loadedContext repr call))

variable {Obj : Type} (attr : Value Obj → String → Value Obj) (str : Value Obj → String)

/-- `preview_instructions`. -/
def previewInstructions (rounds : ℕ) : Option PreviewOut :=
  (renderTemplate attr str rounds (previewState repr call) (loadedContext repr call)
    call.instructions).map fun resolved => ⟨resolved, call.required, diagnostics repr call⟩

/-! ### The text of a marker -/

/-- What `_render_template` puts in for a path. -/
def previewText (state missing : Dict) (rounds : ℕ) (path : String) : Option String :=
  match unresolvedSource missing path with
  | some sourceName => some ("[unresolved " ++ sourceName ++ "]")
  | none => (resolvePath attr rounds state path).map (stringify str)

/-- The source of a `context.` path, as the renderer reads it. -/
def sourceName (path : String) : String :=
  String.ofList ((path.toList.drop 8).takeWhile (· != '.'))

/-- In the preview a marker has the text the engine gives it. -/
def SameText (path : String) : Prop :=
  ∀ text, Gives (fun rounds =>
      previewText attr str (previewState repr call) (loadedContext repr call) rounds path) text ↔
    Gives (fun rounds => engineText attr str (previewState repr call) rounds path) text

/-- A preview mirrors the engine: with every source loaded, its text is what the engine gives the
    instructions with the same state; and a marker has another text only where its source is
    reported, and named in its place. -/
structure Mirrors : Prop where
  whole : (∀ diag ∈ diagnostics repr call, diag.status = .ok) → ∀ text,
    Gives (fun rounds =>
        (previewInstructions repr call attr str rounds).map PreviewOut.resolved) text ↔
      Gives (fun rounds => formatInPlace attr str rounds (previewState repr call)
        call.instructions) text
  markers : ∀ path : String, .marked path.toList ∈ templatePieces call.instructions →
    SameText repr call attr str path ∨
      ∃ diag ∈ diagnostics repr call, diag.status ≠ .ok ∧
        contextRef ("$\x7b".toList ++ path.toList) = some diag.name ∧
        Gives (fun rounds => previewText attr str (previewState repr call)
          (loadedContext repr call) rounds path) ("[unresolved " ++ diag.name ++ "]")

/-- Up to its next dot a reference names an identifier; or it names nothing, and what it leads to is
    the very text that is put in for it. -/
def NamesSource (path : String) : Prop :=
  "context.".toList.isPrefixOf path.toList = true →
    isIdentifier (sourceName path) = true ∨
      sourceName path = "" ∧
        Gives (fun rounds => engineText attr str (previewState repr call) rounds path)
          "[unresolved ]"

end

/-! ### What is loaded and what is reported -/

section
variable {repr : String → String} {call : PreviewCall}

variable (repr call) in
/-- A source is loaded just when it is reported as ok. -/
theorem previewSource_cases (name : String) :
    (∃ fields, previewSource repr call name = (⟨name, .ok, none⟩, some fields)) ∨
    ∃ status detail, status ≠ .ok ∧ previewSource repr call name = (⟨name, status, detail⟩, none) := by
  rw [previewSource]
  cases getContextSource call.registry name with
  | none => exact .inr ⟨.unknownSource, _, by decide, rfl⟩
  | some source =>
    simp only
    split
    · exact .inr ⟨.missingBinding, _, by decide, rfl⟩
    · cases source.loader (syntheticState call.userId) _ with
      | raised detail => exact .inr ⟨.loaderError, _, by decide, rfl⟩
      | other typeName => exact .inr ⟨.loaderError, _, by decide, rfl⟩
      | data fields => exact .inl ⟨fields, rfl⟩

theorem mem_loadedContext {entry : String × Json} :
    entry ∈ loadedContext repr call ↔ entry.1 ∈ call.required ∧ ∃ fields, entry.2 = .obj fields ∧
      previewSource repr call entry.1 = (⟨entry.1, .ok, none⟩, some fields) := by
  rw [loadedContext, List.mem_filterMap]
  constructor
  · rintro ⟨name, hname, hloaded⟩
    obtain ⟨fields, hfields, rfl⟩ := Option.map_eq_some_iff.mp hloaded
    refine ⟨hname, fields, rfl, ?_⟩
    rcases previewSource_cases repr call name with ⟨fields', hok⟩ | ⟨status, detail, _, hnot⟩
    · rw [hok] at hfields ⊢
      rw [Option.some.inj hfields]
    · rw [hnot] at hfields
      cases hfields
  · rintro ⟨hname, fields, hvalue, hok⟩
    exact ⟨entry.1, hname, by rw [hok, Option.map_some, ← hvalue]⟩

theorem mem_diagnostics {diag : SourceDiag} :
    diag ∈ diagnostics repr call ↔
      ∃ name ∈ call.required, (previewSource repr call name).1 = diag := by
  rw [diagnostics, List.mem_map]

variable (repr) in
/-- A source of the instructions is loaded, or it is reported as anything but ok. -/
theorem loaded_or_reported {name : String} (h : name ∈ call.required) :
    name ∈ (loadedContext repr call).map Prod.fst ∨
      ∃ diag ∈ diagnostics repr call, diag.name = name ∧ diag.status ≠ .ok := by
  rcases previewSource_cases repr call name with ⟨fields, hok⟩ | ⟨status, detail, hstatus, hnot⟩
  · exact .inl (List.mem_map.mpr
      ⟨(name, .obj fields), mem_loadedContext.mpr ⟨h, fields, rfl, hok⟩, rfl⟩)
  · exact .inr ⟨⟨name, status, detail⟩, mem_diagnostics.mpr ⟨name, h, by rw [hnot]⟩, rfl, hstatus⟩

theorem isIdentifier_of_loaded {name : String}
    (h : name ∈ (loadedContext repr call).map Prod.fst) : isIdentifier name = true := by
  obtain ⟨entry, hentry, rfl⟩ := List.mem_map.mp h
  exact isIdentifier_of_mem (mem_loadedContext.mp hentry).1

theorem isIdentifier_of_reported {diag : SourceDiag} (h : diag ∈ diagnostics repr call) :
    isIdentifier diag.name = true := by
  obtain ⟨name, hname, rfl⟩ := mem_diagnostics.mp h
  rcases previewSource_cases repr call name with ⟨_, hok⟩ | ⟨_, _, _, hnot⟩
  · rw [hok]
    exact isIdentifier_of_mem hname
  · rw [hnot]
    exact isIdentifier_of_mem hname

end

/-! ### What the two readings make of a path -/

theorem unresolvedSource_eq {missing : Dict} {path : String}
    (h : "context.".toList.isPrefixOf path.toList = true) : unresolvedSource missing path =
      if sourceName path ∈ missing.map Prod.fst then none else some (sourceName path) := by
  rw [unresolvedSource, if_pos h]
  rfl

theorem toList_contextPath {path : String} (h : "context.".toList.isPrefixOf path.toList = true) :
    path.toList = "context.".toList ++
      ((sourceName path).toList ++ (path.toList.drop 8).dropWhile (· != '.')) := by
  obtain ⟨tail, htail⟩ := List.isPrefixOf_iff_prefix.mp h
  have hdrop : path.toList.drop 8 = tail := by rw [← htail]; rfl
  have hname : (sourceName path).toList = tail.takeWhile (· != '.') := by
    rw [sourceName, hdrop]
    exact String.toList_ofList
  rw [hname, hdrop, List.takeWhile_append_dropWhile, htail]

/-- The pattern reads the name a dot or the end of the path comes after. -/
theorem contextRef_path {path : String} (h : "context.".toList.isPrefixOf path.toList = true)
    (hname : isIdentifier (sourceName path) = true) (after : List Char)
    (hafter : ∀ c ∈ after.head?, continuesName c = false) :
    contextRef ("$\x7b".toList ++ (path.toList ++ after)) = some (sourceName path) := by
  have hend : ∀ c ∈ ((path.toList.drop 8).dropWhile (· != '.') ++ after).head?,
      continuesName c = false := by
    have hdot := List.head?_dropWhile_not (· != '.') (path.toList.drop 8)
    cases hrest : (path.toList.drop 8).dropWhile (· != '.') with
    | nil => exact hafter
    | cons d rest =>
      rw [hrest] at hdot
      obtain rfl : d = '.' := by simpa using hdot
      intro c hc
      obtain rfl : '.' = c := by simpa using hc
      decide
  have hread := contextRef_identifier hname hend
  rw [toList_contextPath h]
  simpa using hread

/-- A marker that names an identifier up to its next dot is a reference the pattern finds. -/
theorem sourceName_mem {call : PreviewCall} {path : String}
    (hmarked : .marked path.toList ∈ templatePieces call.instructions)
    (h : "context.".toList.isPrefixOf path.toList = true)
    (hname : isIdentifier (sourceName path) = true) : sourceName path ∈ call.required := by
  obtain ⟨before, after, htext⟩ := exists_of_marked hmarked
  refine mem_extractContextSources.mpr ⟨before, _, htext, contextRef_path h hname _ ?_⟩
  intro c hc
  obtain rfl : '\x7d' = c := by simpa using hc
  decide

/-! ### Where no identifier is named -/

theorem splitOn_contextPath {path : String} (h : "context.".toList.isPrefixOf path.toList = true) :
    ∃ more, path.toList.splitOn '.' = "context".toList :: (sourceName path).toList :: more := by
  have hdot : '.' ∉ (sourceName path).toList := by
    rw [sourceName, String.toList_ofList]
    exact fun hmem => by simpa using List.mem_takeWhile_imp hmem
  have hpath : path.toList = "context".toList ++ '.' ::
      ((sourceName path).toList ++ (path.toList.drop 8).dropWhile (· != '.')) := by
    simpa using toList_contextPath h
  have hcontext := congrArg (List.splitOn '.') hpath
  rw [List.splitOn_append_cons_self_of_not_mem (by decide)] at hcontext
  rw [hcontext]
  have hhead := List.head?_dropWhile_not (· != '.') (path.toList.drop 8)
  cases hrest : (path.toList.drop 8).dropWhile (· != '.') with
  | nil => exact ⟨[], by rw [List.append_nil, List.splitOn_eq_singleton hdot]⟩
  | cons d rest =>
    rw [hrest] at hhead
    obtain rfl : d = '.' := by simpa using hhead
    exact ⟨rest.splitOn '.', by rw [List.splitOn_append_cons_self_of_not_mem hdot]⟩

section
variable {Obj : Type} {attr : Value Obj → String → Value Obj}

theorem walk_star_obj (rest : List String) (fields : Dict) :
    walk attr ("[*]" :: rest) (.json (.obj fields)) = .json .null := by
  rw [walk, if_pos rfl]

variable {repr : String → String} {call : PreviewCall}

/-- The context has nothing under another name than an identifier, and nothing behind a `[*]`. -/
theorem walk_unnamed (name : String) (rest : List String) :
    (isIdentifier name = false →
      walk attr (name :: rest) (.json (.obj (loadedContext repr call))) = .json .null) ∧
    walk attr (name :: "[*]" :: rest) (.json (.obj (loadedContext repr call))) = .json .null := by
  by_cases hstar : name = "[*]"
  · subst hstar
    exact ⟨fun _ => walk_star_obj rest _, walk_star_obj _ _⟩
  · rw [walk_obj attr hstar, walk_obj attr hstar]
    cases hvalue : (loadedContext repr call).get name with
    | none => exact ⟨fun _ => walk_null attr rest, walk_null attr _⟩
    | some value =>
      have hmem := Dict.mem_of_get hvalue
      obtain ⟨fields, rfl, _⟩ := (mem_loadedContext.mp hmem).2
      refine ⟨fun hname => ?_, walk_star_obj rest fields⟩
      rw [isIdentifier_of_loaded (List.mem_map.mpr ⟨_, hmem, rfl⟩)] at hname
      cases hname

/-- A reference that names no identifier, and something, leads to nothing. -/
theorem resolvePath_unnamed {path : String}
    (h : "context.".toList.isPrefixOf path.toList = true)
    (hname : isIdentifier (sourceName path) = false) (hne : sourceName path ≠ "") {rounds : ℕ}
    {value : Value Obj}
    (hvalue : resolvePath attr rounds (previewState repr call) path = some value) :
    value = .json .null := by
  have hpath : path ≠ "" := by
    rintro rfl
    cases h
  obtain ⟨more, hsplit⟩ := splitOn_contextPath h
  rw [resolvePath, if_neg hpath] at hvalue
  obtain ⟨segments, hsegments, rfl⟩ := Option.map_eq_some_iff.mp hvalue
  rw [tokenizePath, hsplit, tokenizeChunks] at hsegments
  obtain ⟨one, hone, hsegments⟩ := Option.bind_eq_some_iff.mp hsegments
  obtain ⟨tail, htail, rfl⟩ := Option.map_eq_some_iff.mp hsegments
  rw [tokenizeChunks] at htail
  obtain ⟨two, htwo, htail⟩ := Option.bind_eq_some_iff.mp htail
  obtain ⟨others, _, rfl⟩ := Option.map_eq_some_iff.mp htail
  have hcontext : one = ["context"] := by
    have hplain := tokenizeChunk_plain (show "context".toList ≠ [] by decide) (by decide)
    have hmax := tokenizeChunk_mono hone (le_max_left rounds 2)
    rw [tokenizeChunk_mono hplain (le_max_right rounds 2)] at hmax
    exact (Option.some.inj hmax).symm
  have hstate : walk attr (one ++ (two ++ others)) (.json (.obj (previewState repr call))) =
      walk attr (two ++ others) (.json (.obj (loadedContext repr call))) := by
    rw [hcontext, List.cons_append, walk_obj attr (by decide)]
    rfl
  rw [hstate]
  rcases tokenizeChunk_cases htwo (by simpa using hne) with ⟨first, rfl⟩ | rfl | ⟨name, first, rfl⟩
  · exact walk_star_obj _ _
  · rw [String.ofList_toList]
    exact (walk_unnamed _ _).1 hname
  · exact (walk_unnamed _ _).2

/-! ### Where the preview is what the engine renders -/

variable {str : Value Obj → String} {state missing : Dict} {path : String}

theorem previewText_loaded (h : unresolvedSource missing path = none) (rounds : ℕ) :
    previewText attr str state missing rounds path = engineText attr str state rounds path := by
  rw [previewText, h, engineText, resolveValue_marker]

theorem gives_previewText_unresolved {name : String}
    (h : unresolvedSource missing path = some name) (text : String) :
    Gives (fun rounds => previewText attr str state missing rounds path) text ↔
      text = "[unresolved " ++ name ++ "]" := by
  have hgives : Gives (fun rounds => previewText attr str state missing rounds path)
      ("[unresolved " ++ name ++ "]") := ⟨0, fun rounds _ => by simp [previewText, h]⟩
  exact ⟨fun htext => htext.unique hgives, fun htext => htext ▸ hgives⟩

theorem previewText_mono (rounds more : ℕ) (path text : String)
    (h : previewText attr str state missing rounds path = some text) (hle : rounds ≤ more) :
    previewText attr str state missing more path = some text := by
  rw [previewText] at h ⊢
  cases hsource : unresolvedSource missing path with
  | some name => rwa [hsource] at h
  | none =>
    rw [hsource] at h
    obtain ⟨value, hvalue, rfl⟩ := Option.map_eq_some_iff.mp h
    simp only
    rw [resolvePath_mono hvalue hle, Option.map_some]

/-- Where every marker has the same text in both, so has the template. -/
theorem gives_renderTemplate_congr {template : String}
    (h : ∀ path : String, .marked path.toList ∈ templatePieces template → ∀ text,
      Gives (fun rounds => previewText attr str state missing rounds path) text ↔
        Gives (fun rounds => engineText attr str state rounds path) text) (text : String) :
    Gives (fun rounds => renderTemplate attr str rounds state missing template) text ↔
      Gives (fun rounds => formatInPlace attr str rounds state template) text := by
  rw [gives_formatInPlace, gives_formatTemplate_iff]
  refine (gives_substitute_iff (previewText attr str state missing) previewText_mono template
    text).trans ?_
  refine exists_congr fun value => and_congr_left fun _ => ?_
  exact forall₂_congr fun path hpath => h path hpath (value path)

/-- An unresolved marker is never the empty text. -/
theorem unresolved_ne_empty (name : String) : "[unresolved " ++ name ++ "]" ≠ "" := by
  intro h
  have := congrArg String.length h
  simp at this

theorem unresolved_inj {name other : String}
    (h : "[unresolved " ++ name ++ "]" = "[unresolved " ++ other ++ "]") : name = other := by
  have hchars := congrArg String.toList h
  exact String.toList_inj.mp (by simpa using hchars)

variable (repr call) in
/-- Another name than an identifier is that of no loaded source. -/
theorem unresolvedSource_unnamed (hcontext : "context.".toList.isPrefixOf path.toList = true)
    (hname : isIdentifier (sourceName path) = false) :
    unresolvedSource (loadedContext repr call) path = some (sourceName path) := by
  rw [unresolvedSource_eq hcontext, if_neg]
  intro hmem
  rw [isIdentifier_of_loaded hmem] at hname
  cases hname

theorem namesSource_of_mirrors (h : Mirrors repr call attr str)
    (hpath : .marked path.toList ∈ templatePieces call.instructions) :
    NamesSource repr call attr str path := by
  intro hcontext
  cases hname : isIdentifier (sourceName path) with
  | true => exact .inl rfl
  | false =>
    have hmissing := unresolvedSource_unnamed repr call hcontext hname
    refine .inr ?_
    rcases h.markers path hpath with hsame | ⟨diag, hdiag, _, _, hput⟩
    · have hengine := (hsame _).mp ((gives_previewText_unresolved hmissing _).mpr rfl)
      by_cases hempty : sourceName path = ""
      · rw [hempty] at hengine
        exact ⟨hempty, hengine⟩
      · -- the engine puts in nothing for it
        obtain ⟨enough, hengine⟩ := hengine
        have htext := hengine enough le_rfl
        simp only [engineText, resolveValue_marker] at htext
        obtain ⟨value, hvalue, hnone⟩ := Option.map_eq_some_iff.mp htext
        obtain rfl := resolvePath_unnamed hcontext hname hempty hvalue
        exact absurd hnone.symm (unresolved_ne_empty _)
    · rw [← unresolved_inj ((gives_previewText_unresolved hmissing _).mp hput),
        isIdentifier_of_reported hdiag] at hname
      cases hname

theorem mirrored_of_namesSource
    (hpath : .marked path.toList ∈ templatePieces call.instructions)
    (h : NamesSource repr call attr str path) :
    SameText repr call attr str path ∨
      ∃ diag ∈ diagnostics repr call, diag.status ≠ .ok ∧
        contextRef ("$\x7b".toList ++ path.toList) = some diag.name ∧
        Gives (fun rounds => previewText attr str (previewState repr call)
          (loadedContext repr call) rounds path) ("[unresolved " ++ diag.name ++ "]") := by
  by_cases hcontext : "context.".toList.isPrefixOf path.toList = true
  · rcases h hcontext with hname | ⟨hempty, hengine⟩
    · by_cases hloaded : sourceName path ∈ (loadedContext repr call).map Prod.fst
      · refine .inl fun text => ?_
        simp only [previewText_loaded (show unresolvedSource (loadedContext repr call) path = none by
          rw [unresolvedSource_eq hcontext, if_pos hloaded])]
      · obtain ⟨diag, hdiag, hdiagName, hstatus⟩ :=
          (loaded_or_reported repr (sourceName_mem hpath hcontext hname)).resolve_left hloaded
        have hmissing : unresolvedSource (loadedContext repr call) path = some (sourceName path) := by
          rw [unresolvedSource_eq hcontext, if_neg hloaded]
        have hread := contextRef_path hcontext hname [] (by simp)
        rw [List.append_nil] at hread
        exact .inr ⟨diag, hdiag, hstatus, by rw [hread, hdiagName],
          (gives_previewText_unresolved hmissing _).mpr (by rw [hdiagName])⟩
    · have hmissing := unresolvedSource_unnamed repr call hcontext
        (by rw [hempty]; decide)
      refine .inl fun text => ?_
      rw [gives_previewText_unresolved hmissing, hempty]
      exact ⟨fun htext => htext ▸ hengine, fun htext => htext.unique hengine⟩
  · have hloaded : unresolvedSource (loadedContext repr call) path = none := by
      rw [unresolvedSource, if_neg hcontext]
    exact .inl fun text => by simp only [previewText_loaded hloaded]

variable (attr str) in
/-- CODE BUG (exact condition): the preview mirrors the engine just when every `context.` marker of
    the instructions names an identifier up to its next dot, but for one that names nothing and
    leads to the text `[unresolved ]`. The pattern stops at the first character no name has, the
    renderer at the first dot only, so it misses the loaded source of `${context.<name>[*]…}`. -/
theorem mirrors_iff (repr : String → String) (call : PreviewCall) :
    Mirrors repr call attr str ↔
      ∀ path : String, .marked path.toList ∈ templatePieces call.instructions →
        NamesSource repr call attr str path := by
  constructor
  · exact fun h path hpath => namesSource_of_mirrors h hpath
  · refine fun h => ⟨fun hok text => ?_, fun path hpath => mirrored_of_namesSource hpath (h path hpath)⟩
    have hsame : ∀ path : String, .marked path.toList ∈ templatePieces call.instructions →
        SameText repr call attr str path := by
      intro path hpath
      rcases mirrored_of_namesSource hpath (h path hpath) with hsame | ⟨diag, hdiag, hstatus, _⟩
      · exact hsame
      · exact absurd (hok diag hdiag) hstatus
    simp only [previewInstructions, Option.map_map, Function.comp_def, Option.map_id']
    exact gives_renderTemplate_congr hsame text

end

/-- A source is loaded, and the preview has no text for what the template reads of it. -/
def starredCall : PreviewCall where
  registry := [⟨"customer", fun _ _ => .data [("name", .str "Ada")], true⟩]
  userId := "u"
  sourceBindings := none
  instructions := marker "context.customer[*].name"

/-- The preview puts in `[unresolved customer[*]]` where the engine puts in nothing. -/
theorem starred_not_mirrored :
    diagnostics id starredCall = [⟨"customer", .ok, none⟩] ∧
    Gives (fun rounds => (previewInstructions id starredCall (fun (_ : Value Unit) _ => .json .null)
      (fun _ => "") rounds).map PreviewOut.resolved) "[unresolved customer[*]]" ∧
    Gives (fun rounds => formatInPlace (fun (_ : Value Unit) _ => .json .null) (fun _ => "") rounds
      (previewState id starredCall) starredCall.instructions) "" ∧
    ¬ Mirrors id starredCall (fun (_ : Value Unit) _ => .json .null) (fun _ => "") := by
  have hdiag : diagnostics id starredCall = [⟨"customer", .ok, none⟩] := by decide +kernel
  have hpieces : templatePieces starredCall.instructions =
      [.marked "context.customer[*].name".toList] := templatePieces_marker (by decide +kernel)
  have hpath (path : String) (hmarked : .marked path.toList ∈ templatePieces starredCall.instructions) :
      path = "context.customer[*].name" := by
    rw [hpieces] at hmarked
    exact String.toList_inj.mp (by simpa using hmarked)
  have hpreview : Gives (fun rounds =>
      (previewInstructions id starredCall (fun (_ : Value Unit) _ => .json .null) (fun _ => "")
        rounds).map PreviewOut.resolved) "[unresolved customer[*]]" := by
    simp only [previewInstructions, Option.map_map, Function.comp_def, Option.map_id']
    refine (gives_substitute_iff (previewText (fun (_ : Value Unit) _ => .json .null) (fun _ => "")
      (previewState id starredCall) (loadedContext id starredCall)) previewText_mono _ _).mpr
      ⟨fun _ => "[unresolved customer[*]]", fun path hmarked => ?_, by rw [hpieces]; rfl⟩
    obtain rfl := hpath path hmarked
    have hmissing : unresolvedSource (loadedContext id starredCall) "context.customer[*].name" =
        some "customer[*]" := by decide +kernel
    exact (gives_previewText_unresolved hmissing _).mpr rfl
  have hengine : Gives (fun rounds => formatInPlace (fun (_ : Value Unit) _ => .json .null)
      (fun _ => "") rounds (previewState id starredCall) starredCall.instructions) "" := by
    refine (gives_formatInPlace _ _ _).mpr ((gives_formatTemplate_iff _ _ _).mpr
      ⟨fun _ => "", fun path hmarked => ?_, by rw [hpieces]; rfl⟩)
    obtain rfl := hpath path hmarked
    have hnull : resolvePath (fun (_ : Value Unit) _ => .json .null) 9
        (previewState id starredCall) "context.customer[*].name" = some (.json .null) := rfl
    exact gives_engineText (gives_of_resolvePath hnull)
  refine ⟨hdiag, hpreview, hengine, fun h => ?_⟩
  have hsame := (h.whole (by rw [hdiag]; decide) _).mp hpreview
  exact absurd (hsame.unique hengine) (by decide +kernel)

end LunaCore.Services
