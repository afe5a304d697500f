import LunaCore.Flow.TemplatePaths
import Mathlib.Data.List.Dedup
import Mathlib.Data.List.Infix
import Mathlib.Data.List.Sort
import Mathlib.Data.String.Basic

/-! The context sources a template references, and the ones that are registered.

    A reference is read twice. When an agent is saved, `_CONTEXT_REF_RE` finds the names in the raw
    text; when the text is rendered, its markers are paths that are walked.

        ${context.customer.name}     the pattern reads `customer`
          └ at any place of the text, up to the first character no name has

    So a name the pattern finds is an identifier, and it finds every identifier that ends where the
    path goes on with a dot or the marker is closed. -/

namespace LunaCore.Services
open LunaCore.Flow LunaCore.Values

/-! ### Sources -/

/-- What awaiting a loader gives: it raises, or it returns a dict or something else. -/
inductive LoaderOutcome where
  | raised (detail : String)
  | data (fields : Dict)
  | other (typeName : String)
  deriving DecidableEq

/-- A registered source; its loader reads the state it is handed and an id. -/
structure ContextSource where
  name : String
  loader : Dict → Option String → LoaderOutcome
  idImplicit : Bool

/-- `get_context_source`; `none` is `UnknownSourceError`. -/
def getContextSource (registry : List ContextSource) (name : String) : Option ContextSource :=
  registry.find? fun source => source.name == name

/-! ### References -/

/-- `[A-Za-z_]`. -/
def startsName (c : Char) : Bool := c.isAlpha || c == '_'

/-- `[A-Za-z0-9_]`. -/
def continuesName (c : Char) : Bool := startsName c || c.isDigit

/-- What `_CONTEXT_REF_RE` captures at the front of a text. -/
def contextRef (text : List Char) : Option String :=
  if "$\x7bcontext.".toList.isPrefixOf text then
    match text.drop 10 with
    | [] => none
    | c :: rest =>
      if startsName c then some (String.ofList (c :: rest.takeWhile continuesName)) else none
  else none

/-- `extract_context_sources`. Two matches never overlap: a `$` is only at the front of one. -/
def extractContextSources : Option String → List String
  | none => []
  | some text =>
    if text = "" then []
    else ((text.toList.tails.filterMap contextRef).dedup).insertionSort (· ≤ ·)

theorem isIdentifier_iff {name : String} : isIdentifier name = true ↔
    ∃ c rest, name.toList = c :: rest ∧ startsName c = true ∧ rest.all continuesName = true := by
  rw [isIdentifier]
  cases name.toList with
  | nil => simp
  | cons c rest =>
    simp only [Bool.and_eq_true, List.cons.injEq]
    constructor
    · rintro ⟨hc, hrest⟩
      exact ⟨c, rest, ⟨rfl, rfl⟩, hc, hrest⟩
    · rintro ⟨_, _, ⟨rfl, rfl⟩, hc, hrest⟩
      exact ⟨hc, hrest⟩

theorem isIdentifier_of_contextRef {text : List Char} {name : String}
    (h : contextRef text = some name) : isIdentifier name = true := by
  rw [contextRef] at h
  split at h
  case isFalse => cases h
  case isTrue =>
    split at h
    case h_1 => cases h
    case h_2 c rest _ =>
      split at h
      case isFalse => cases h
      case isTrue hc =>
        obtain rfl := Option.some.inj h
        refine isIdentifier_iff.mpr ⟨c, rest.takeWhile continuesName, String.toList_ofList, hc, ?_⟩
        exact List.all_eq_true.mpr fun d hd => List.mem_takeWhile_imp hd

/-- An identifier is read as a whole where the text goes on with a character no name has. -/
theorem contextRef_identifier {name : String} (h : isIdentifier name = true) {after : List Char}
    (hend : ∀ c ∈ after.head?, continuesName c = false) :
    contextRef ("$\x7bcontext.".toList ++ (name.toList ++ after)) = some name := by
  obtain ⟨c, rest, hname, hc, hrest⟩ := isIdentifier_iff.mp h
  have hstop : after.takeWhile continuesName = [] := by
    cases after with
    | nil => rfl
    | cons d after => rw [List.takeWhile_cons_of_neg (by simp [hend d (by simp)])]
  have hopens : "$\x7bcontext.".toList.isPrefixOf
      ("$\x7bcontext.".toList ++ (name.toList ++ after)) = true :=
    List.isPrefixOf_iff_prefix.mpr (List.prefix_append _ _)
  rw [contextRef, if_pos hopens, hname]
  change (if startsName c then
    some (String.ofList (c :: (rest ++ after).takeWhile continuesName)) else none) = some name
  rw [if_pos hc, List.takeWhile_append_of_pos (List.all_eq_true.mp hrest), hstop, List.append_nil,
    ← hname, String.ofList_toList]

/-- The pattern captures an identifier, up to the first character no name has. -/
theorem contextRef_eq_some_iff {text : List Char} {name : String} :
    contextRef text = some name ↔ isIdentifier name = true ∧ ∃ after,
      text = "$\x7bcontext.".toList ++ (name.toList ++ after) ∧
        ∀ c ∈ after.head?, continuesName c = false := by
  constructor
  · intro h
    refine ⟨isIdentifier_of_contextRef h, ?_⟩
    rw [contextRef] at h
    split at h
    case isFalse => cases h
    case isTrue hopens =>
      obtain ⟨tail, rfl⟩ := List.isPrefixOf_iff_prefix.mp hopens
      have hdrop : ("$\x7bcontext.".toList ++ tail).drop 10 = tail := rfl
      rw [hdrop] at h
      split at h
      case h_1 => cases h
      case h_2 c rest =>
        split at h
        case isFalse => cases h
        case isTrue =>
          obtain rfl := Option.some.inj h
          refine ⟨rest.dropWhile continuesName, ?_, fun d hd => ?_⟩
          · have hname : (String.ofList (c :: rest.takeWhile continuesName)).toList =
                c :: rest.takeWhile continuesName := String.toList_ofList
            rw [hname]
            exact congrArg (fun tail => _ ++ c :: tail) List.takeWhile_append_dropWhile.symm
          · have hstop := List.head?_dropWhile_not continuesName rest
            rw [hd] at hstop
            simpa using hstop
  · rintro ⟨hname, after, rfl, hend⟩
    exact contextRef_identifier hname hend

theorem mem_extractContextSources {text name : String} :
    name ∈ extractContextSources (some text) ↔
      ∃ before after, text.toList = before ++ after ∧ contextRef after = some name := by
  rw [extractContextSources]
  split
  case isTrue hempty =>
    subst hempty
    constructor
    · exact fun h => by cases h
    · rintro ⟨before, after, happend, hname⟩
      obtain ⟨rfl, rfl⟩ := List.append_eq_nil_iff.mp happend.symm
      cases hname
  case isFalse =>
    rw [List.mem_insertionSort, List.mem_dedup, List.mem_filterMap]
    constructor
    · rintro ⟨after, hafter, hname⟩
      obtain ⟨before, hbefore⟩ := (List.mem_tails _ _).mp hafter
      exact ⟨before, after, hbefore.symm, hname⟩
    · rintro ⟨before, after, happend, hname⟩
      exact ⟨after, (List.mem_tails _ _).mpr ⟨before, happend.symm⟩, hname⟩

theorem isIdentifier_of_mem {text : Option String} {name : String}
    (h : name ∈ extractContextSources text) : isIdentifier name = true := by
  cases text with
  | none => cases h
  | some text =>
    obtain ⟨_, _, _, hname⟩ := mem_extractContextSources.mp h
    exact isIdentifier_of_contextRef hname

theorem nodup_extractContextSources (text : Option String) :
    (extractContextSources text).Nodup := by
  cases text with
  | none => exact List.nodup_nil
  | some text =>
    rw [extractContextSources]
    split
    · exact List.nodup_nil
    · exact (List.perm_insertionSort _ _).nodup_iff.mpr (List.nodup_dedup _)

end LunaCore.Services
