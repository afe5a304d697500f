import LunaCore.Schemes.Scan
import LunaCore.Services.ContextSources
import LunaCore.Values.Strings

/-! The `{name}` placeholders of an operation's path, fixed headers and fixed body.

    "{limit}"            the typed value of `limit`
    "user-{id}"          `id` as text where it stands
    "{unknown}", "{ }"   itself

    `_PATH_PARAM_RE` finds the placeholders of a text and is what a text is substituted by;
    `_FULL_PARAM_RE` tells the text that is one placeholder, and its `$` also matches before a last
    newline. -/

namespace LunaCore.Connectors
open LunaCore.Schemes LunaCore.Values
open LunaCore.Flow (isIdentifier)
open LunaCore.Services (startsName continuesName isIdentifier_iff)

/-! ### The patterns -/

/-- What a placeholder is written as. -/
def placeholder (name : String) : List Char := '\x7b' :: (name.toList ++ ['\x7d'])

/-- `_PATH_PARAM_RE` at the front of a text. -/
def readPlaceholder : List Char → Option (String × List Char)
  | '\x7b' :: c :: rest =>
    if startsName c then
      match rest.dropWhile continuesName with
      | '\x7d' :: after => some (String.ofList (c :: rest.takeWhile continuesName), after)
      | _ => none
    else none
  | _ => none

theorem readPlaceholder_iff {text after : List Char} {name : String} :
    readPlaceholder text = some (name, after) ↔
      isIdentifier name = true ∧ text = placeholder name ++ after := by
  constructor
  · intro h
    unfold readPlaceholder at h
    split at h
    case h_2 => cases h
    case h_1 c rest =>
      split at h
      case isFalse => cases h
      case isTrue hc =>
        split at h
        case h_2 => cases h
        case h_1 after' hafter =>
          simp only [Option.some.injEq, Prod.mk.injEq] at h
          obtain ⟨rfl, rfl⟩ := h
          refine ⟨isIdentifier_iff.mpr ⟨c, rest.takeWhile continuesName, String.toList_ofList, hc,
            List.all_eq_true.mpr fun d hd => List.mem_takeWhile_imp hd⟩, ?_⟩
          rw [placeholder, String.toList_ofList]
          simp only [List.cons_append, List.append_assoc, List.nil_append, ← hafter,
            List.takeWhile_append_dropWhile]
  · rintro ⟨hname, rfl⟩
    obtain ⟨c, rest, hchars, hc, hrest⟩ := isIdentifier_iff.mp hname
    have hall := List.all_eq_true.mp hrest
    have hstop : continuesName '\x7d' = false := by decide
    simp only [placeholder, hchars, List.cons_append, List.append_assoc, List.nil_append,
      readPlaceholder, if_pos hc]
    rw [List.dropWhile_append_of_pos hall, List.dropWhile_cons_of_neg (by simp [hstop]),
      List.takeWhile_append_of_pos hall, List.takeWhile_cons_of_neg (by simp [hstop]),
      List.append_nil, ← hchars, String.ofList_toList]
    rfl

/-- `_PATH_PARAM_RE`. -/
def pathParamRe : Matcher Char String where
  read := readPlaceholder
  source := placeholder
  Valid name := isIdentifier name = true
  source_ne_nil _ := by simp [placeholder]
  read_iff := readPlaceholder_iff

/-- The parts of a text. -/
def partsOf (text : String) : List (Part Char String) := scan pathParamRe text.toList

/-- `_FULL_PARAM_RE.match`. -/
def fullParam (text : String) : Option String := match readPlaceholder text.toList with
  | some (name, []) => some name
  | some (name, ['\n']) => some name
  | _ => none

theorem fullParam_eq_some_iff {text name : String} : fullParam text = some name ↔
    isIdentifier name = true ∧
      (text.toList = placeholder name ∨ text.toList = placeholder name ++ ['\n']) := by
  constructor
  · intro h
    unfold fullParam at h
    split at h
    case h_1 hread =>
      obtain rfl := Option.some.inj h
      obtain ⟨hname, htext⟩ := readPlaceholder_iff.mp hread
      exact ⟨hname, .inl (by rw [htext, List.append_nil])⟩
    case h_2 hread =>
      obtain rfl := Option.some.inj h
      obtain ⟨hname, htext⟩ := readPlaceholder_iff.mp hread
      exact ⟨hname, .inr htext⟩
    case h_3 => cases h
  · rintro ⟨hname, htext | htext⟩
    · rw [fullParam, readPlaceholder_iff.mpr ⟨hname, htext.trans (List.append_nil _).symm⟩]
    · rw [fullParam, readPlaceholder_iff.mpr ⟨hname, htext⟩]
      rfl

/-! ### Interpolation -/

variable (repr : Json → String)

/-- `str(value)`: a text is itself. -/
def strOf : Json → String
  | .str s => s
  | value => repr value

/-- `"" if value is None else str(value)`. -/
def textOf : Json → String
  | .null => ""
  | value => strOf repr value

/-- `_repl`. -/
def replacement (vars : Dict) (name : String) : List Char := match vars.get name with
  | some value => (textOf repr value).toList
  | none => placeholder name

/-- `_PATH_PARAM_RE.sub(_repl, template)`. -/
def substituted (vars : Dict) (text : String) : Json :=
  .str (String.ofList (fill (replacement repr vars) (partsOf text)))

/-- `_interpolate` of a string. -/
def interpolateText (vars : Dict) (text : String) : Json :=
  match (fullParam text).bind vars.get with
  | some value => value
  | none => substituted repr vars text

/-- `_interpolate`. -/
def interpolate (vars : Dict) (template : Json) : Json :=
  template.mapStrings (interpolateText repr vars)

/-- `_template_placeholders`. -/
def templatePlaceholders (template : Json) : List String :=
  template.strings.flatMap fun text => holes (partsOf text)

/-- The names whose values a string took in. -/
def substitutedNames (vars : Dict) (text : String) : List String :=
  match (fullParam text).filter fun name => (vars.get name).isSome with
  | some name => [name]
  | none => (holes (partsOf text)).filter fun name => (vars.get name).isSome

/-! ### The reference -/

/-- The name a text is the placeholder of, if it is nothing else. -/
def exactName (text : String) : Option String := match text.toList with
  | '\x7b' :: rest =>
    if rest.getLast? = some '\x7d' ∧ isIdentifier (String.ofList rest.dropLast) then
      some (String.ofList rest.dropLast)
    else none
  | _ => none

/-- A string that is one bound placeholder is its value; in any other, each bound placeholder of the
    string itself is its text. -/
def referenceText (vars : Dict) (text : String) : Json :=
  match (exactName text).bind vars.get with
  | some value => value
  | none => substituted repr vars text

def reference (vars : Dict) (template : Json) : Json :=
  template.mapStrings (referenceText repr vars)

/-- The template is interpolated as the reference has it, from the placeholders that are reported:
    whatever was substituted anywhere is one, and no other variable counts. -/
structure Interpolates (vars : Dict) (template : Json) : Prop where
  value : interpolate repr vars template = reference repr vars template
  reported : ∀ text ∈ template.strings, ∀ name ∈ substitutedNames vars text,
    name ∈ templatePlaceholders template
  only : ∀ other : Dict, (∀ name ∈ templatePlaceholders template,
    vars.get name = other.get name) →
      interpolate repr vars template = interpolate repr other template

theorem exactName_eq_some_iff {text name : String} : exactName text = some name ↔
    isIdentifier name = true ∧ text.toList = placeholder name := by
  constructor
  · intro h
    unfold exactName at h
    split at h
    case h_2 => cases h
    case h_1 rest hrest =>
      split at h
      case isFalse => cases h
      case isTrue hboth =>
        obtain rfl := Option.some.inj h
        refine ⟨hboth.2, ?_⟩
        rw [hrest, placeholder, String.toList_ofList, List.dropLast_append_getLast? _ hboth.1]
  · rintro ⟨hname, htext⟩
    rw [exactName, htext, placeholder]
    simp [hname]

theorem getLast?_placeholder (name : String) : (placeholder name).getLast? = some '\x7d' := by
  rw [placeholder, ← List.cons_append, List.getLast?_concat]

/-- With an end of line behind it a text is more than the placeholder. -/
theorem exactName_line {text name : String} (h : text.toList = placeholder name ++ ['\n']) :
    exactName text = none := by
  refine Option.eq_none_iff_forall_ne_some.mpr fun other hother => ?_
  have hlast := congrArg List.getLast? (h.symm.trans (exactName_eq_some_iff.mp hother).2)
  rw [List.getLast?_concat, getLast?_placeholder] at hlast
  exact absurd (Option.some.inj hlast) (by decide)

/-- The end of line is the one string the two tell apart. -/
theorem fullParam_eq_exactName {text : String}
    (h : ∀ name, isIdentifier name = true → text.toList ≠ placeholder name ++ ['\n']) :
    fullParam text = exactName text := by
  refine Option.ext fun name => ?_
  rw [fullParam_eq_some_iff, exactName_eq_some_iff]
  constructor
  · rintro ⟨hname, htext | htext⟩
    · exact ⟨hname, htext⟩
    · exact absurd htext (h name hname)
  · rintro ⟨hname, htext⟩
    exact ⟨hname, .inl htext⟩

theorem partsOf_placeholder {text name : String} {after : List Char}
    (hname : isIdentifier name = true) (htext : text.toList = placeholder name ++ after) :
    partsOf text = .hole name :: scan pathParamRe after := by
  have hread : pathParamRe.read text.toList = some (name, after) :=
    readPlaceholder_iff.mpr ⟨hname, htext⟩
  exact scan_hole hread

/-- A placeholder with an end of line behind it is its text and the end of line. -/
theorem substituted_line {vars : Dict} {text name : String} {value : Json}
    (hname : isIdentifier name = true) (htext : text.toList = placeholder name ++ ['\n'])
    (hvalue : vars.get name = some value) :
    substituted repr vars text = .str (textOf repr value ++ "\n") := by
  have hline : pathParamRe.read ['\n'] = none := rfl
  rw [substituted, partsOf_placeholder hname htext, scan_letter hline]
  simp [replacement, hvalue, String.ofList_append]

/-- It is not the value. -/
theorem value_ne_line (value : Json) : value ≠ .str (textOf repr value ++ "\n") := by
  cases value with
  | str s =>
    intro h
    have hlen := congrArg String.length (Json.str.inj h)
    simp [textOf, strOf] at hlen
  | _ => nofun

variable {repr}

/-- A string is interpolated as the reference has it unless it is a bound placeholder and an end of
    line. -/
theorem interpolateText_eq_iff {vars : Dict} {text : String} :
    interpolateText repr vars text = referenceText repr vars text ↔
      ∀ name, isIdentifier name = true → text.toList = placeholder name ++ ['\n'] →
        vars.get name = none := by
  constructor
  · intro h name hname htext
    cases hvalue : vars.get name with
    | none => rfl
    | some value =>
      have hfull := fullParam_eq_some_iff.mpr ⟨hname, .inr htext⟩
      rw [interpolateText, referenceText, hfull, exactName_line htext, Option.bind_some, hvalue,
        Option.bind_none, substituted_line repr hname htext hvalue] at h
      exact absurd h (value_ne_line repr value)
  · intro h
    by_cases hline : ∃ name, isIdentifier name = true ∧ text.toList = placeholder name ++ ['\n']
    · obtain ⟨name, hname, htext⟩ := hline
      have hunbound := h name hname htext
      rw [interpolateText, referenceText, fullParam_eq_some_iff.mpr ⟨hname, .inr htext⟩,
        exactName_line htext, Option.bind_some, hunbound, Option.bind_none]
    · rw [interpolateText, referenceText, fullParam_eq_exactName fun name hname htext =>
        hline ⟨name, hname, htext⟩]

/-- A name that is substituted is a placeholder of the string. -/
theorem mem_holes_of_substituted {vars : Dict} {text name : String}
    (h : name ∈ substitutedNames vars text) : name ∈ holes (partsOf text) := by
  unfold substitutedNames at h
  split at h
  case h_1 hfull =>
    obtain rfl := List.mem_singleton.mp h
    obtain ⟨hname, htext⟩ := fullParam_eq_some_iff.mp (Option.filter_eq_some_iff.mp hfull).1
    rcases htext with htext | htext
    · rw [partsOf_placeholder hname (htext.trans (List.append_nil _).symm)]
      exact List.mem_cons_self
    · rw [partsOf_placeholder hname htext]
      exact List.mem_cons_self
  case h_2 => exact List.mem_of_mem_filter h

/-- Variables that agree on the placeholders of a string give it the same value. -/
theorem interpolateText_congr {vars other : Dict} {text : String}
    (h : ∀ name ∈ holes (partsOf text), vars.get name = other.get name) :
    interpolateText repr vars text = interpolateText repr other text := by
  have hsub : substituted repr vars text = substituted repr other text := by
    rw [substituted, substituted, fill_congr fun name hname => ?_]
    rw [replacement, replacement, h name hname]
  have hfull : (fullParam text).bind vars.get = (fullParam text).bind other.get := by
    cases hname : fullParam text with
    | none => rfl
    | some name =>
      obtain ⟨hid, htext⟩ := fullParam_eq_some_iff.mp hname
      refine h name ?_
      rcases htext with htext | htext
      · rw [partsOf_placeholder hid (htext.trans (List.append_nil _).symm)]
        exact List.mem_cons_self
      · rw [partsOf_placeholder hid htext]
        exact List.mem_cons_self
  rw [interpolateText, interpolateText, hfull, hsub]

theorem mem_templatePlaceholders {template : Json} {name : String} :
    name ∈ templatePlaceholders template ↔ ∃ text ∈ template.strings, name ∈ holes (partsOf text) :=
  List.mem_flatMap

theorem interpolate_congr {vars other : Dict} {template : Json}
    (h : ∀ name ∈ templatePlaceholders template, vars.get name = other.get name) :
    interpolate repr vars template = interpolate repr other template :=
  (Json.mapStrings_eq_iff template).mpr fun text htext => interpolateText_congr fun name hname =>
    h name (mem_templatePlaceholders.mpr ⟨text, htext, hname⟩)

variable (repr)

/-- A template is interpolated as the reference has it just when no string in it is a bound
    placeholder with an end of line behind it. -/
theorem interpolates_iff (vars : Dict) (template : Json) :
    Interpolates repr vars template ↔
      ∀ text ∈ template.strings, ∀ name, isIdentifier name = true →
        text.toList = placeholder name ++ ['\n'] → vars.get name = none := by
  have hvalue : interpolate repr vars template = reference repr vars template ↔
      ∀ text ∈ template.strings, ∀ name, isIdentifier name = true →
        text.toList = placeholder name ++ ['\n'] → vars.get name = none :=
    (Json.mapStrings_eq_iff template).trans
      (forall_congr' fun text => forall_congr' fun _ => interpolateText_eq_iff)
  refine ⟨fun h => hvalue.mp h.value, fun h => ⟨hvalue.mpr h, fun text htext name hname => ?_,
    fun other => interpolate_congr⟩⟩
  exact mem_templatePlaceholders.mpr ⟨text, htext, mem_holes_of_substituted hname⟩

/-- `{"limit": "{n}\n"}` with 5 for `n` gives the number, and the end of line is lost. -/
theorem line_end_lost : ¬ Interpolates (fun _ => "5") [("n", .num 5)]
    (.obj [("limit", .str "\x7bn\x7d\n")]) := by
  intro h
  have hvalue := h.value
  revert hvalue
  decide +kernel

end LunaCore.Connectors
