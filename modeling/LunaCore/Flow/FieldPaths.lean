import LunaCore.Flow.Rendering

/-! What an edge condition and a template see at a path.

    _get_path      splits at the dots      dict: its key     anything else: getattr
    resolve_path   tokens                  dict: its key     list: None     else: getattr

    Along dicts both read keys. A path that goes on below a string or a number reads attributes in
    both; below a list only the condition does. -/

namespace LunaCore.Flow
open LunaCore.Values

/-- A path of the template grammar without `[*]`: names, joined by dots. -/
structure FieldPath where
  names : List String
  nonempty : names ≠ []
  named : ∀ name ∈ names, name ≠ "" ∧ '.' ∉ name.toList ∧ '[' ∉ name.toList
  deriving DecidableEq

namespace FieldPath

def text (p : FieldPath) : String := String.ofList (['.'].intercalate (p.names.map String.toList))

theorem splitOn_text (p : FieldPath) : p.text.toList.splitOn '.' = p.names.map String.toList := by
  rw [text, String.toList_ofList]
  refine List.splitOn_intercalate '.' (fun chunk hchunk => ?_) (by simpa using p.nonempty)
  obtain ⟨name, hname, rfl⟩ := List.mem_map.mp hchunk
  exact (p.named name hname).2.1

theorem text_ne_empty (p : FieldPath) : p.text ≠ "" := by
  intro h
  have hsplit := p.splitOn_text
  rw [h] at hsplit
  obtain ⟨name, rest, hnames⟩ := List.exists_cons_of_ne_nil p.nonempty
  rw [hnames, String.toList_empty, List.splitOn_nil, List.map_cons, List.cons.injEq] at hsplit
  exact (p.named name (by rw [hnames]; exact List.mem_cons_self)).1
    (String.toList_eq_nil_iff.mp hsplit.1.symm)

/-- Its tokens are its names. -/
theorem tokenizePath_text (p : FieldPath) : tokenizePath 2 p.text = some p.names := by
  have hchunks : ∀ names : List String,
      (∀ name ∈ names, name ≠ "" ∧ '.' ∉ name.toList ∧ '[' ∉ name.toList) →
        tokenizeChunks 2 (names.map String.toList) = some names := by
    intro names
    induction names with
    | nil => exact fun _ => rfl
    | cons name rest ih =>
      intro hnamed
      obtain ⟨hne, _, hbracket⟩ := hnamed name List.mem_cons_self
      rw [List.map_cons, tokenizeChunks, tokenizeChunk_plain (by simpa using hne) hbracket,
        ih fun other hother => hnamed other (List.mem_cons_of_mem _ hother)]
      simp
  rw [tokenizePath, p.splitOn_text, hchunks p.names p.named]

theorem ne_star (p : FieldPath) : ∀ name ∈ p.names, name ≠ "[*]" := by
  rintro name hname rfl
  exact (p.named _ hname).2.2 (by decide)

end FieldPath

variable {Obj : Type} (attr : Value Obj → String → Value Obj)

/-! ### The two walks -/

/-- The loop of `_get_path`. -/
def getParts : List String → Value Obj → Value Obj
  | [], cursor => cursor
  | _ :: _, .json .null => .json .null
  | part :: rest, .json (.obj fields) => getParts rest (.json ((Dict.get fields part).getD .null))
  | part :: rest, cursor => getParts rest (attr cursor part)

/-- `_get_path`. -/
def getPath (state : Dict) (path : String) : Value Obj :=
  getParts attr ((path.toList.splitOn '.').map String.ofList) (.json (.obj state))

/-- What stands under the names as keys of dicts. -/
def lookupKeys : List String → Json → Option Json
  | [], value => some value
  | name :: rest, .obj fields => (Dict.get fields name).bind (lookupKeys rest)
  | _ :: _, _ => none

/-- The path goes on below a list. -/
def belowList : List String → Value Obj → Bool
  | [], _ => false
  | _ :: _, .json .null => false
  | _ :: _, .json (.arr _) => true
  | _ :: _, .list _ => true
  | name :: rest, .json (.obj fields) => belowList rest (.json ((Dict.get fields name).getD .null))
  | name :: rest, cursor => belowList rest (attr cursor name)

/-- The path goes on below a value that has no keys. -/
def belowValue : List String → Json → Bool
  | [], _ => false
  | _ :: _, .null => false
  | name :: rest, .obj fields => belowValue rest ((Dict.get fields name).getD .null)
  | _ :: _, _ => true

variable {attr}

theorem getParts_null : ∀ names : List String, getParts attr names (.json .null) = .json .null
  | [] => rfl
  | _ :: _ => rfl

theorem getPath_text (state : Dict) (p : FieldPath) :
    getPath attr state p.text = getParts attr p.names (.json (.obj state)) := by
  rw [getPath, p.splitOn_text, List.map_map]
  have hid : String.ofList ∘ String.toList = id := funext fun _ => String.ofList_toList
  rw [hid, List.map_id]

theorem resolvePath_text (state : Dict) (p : FieldPath) :
    Gives (fun rounds => resolvePath attr rounds state p.text)
      (walk attr p.names (.json (.obj state))) := by
  have htokens : resolvePath attr 2 state p.text = some (walk attr p.names (.json (.obj state))) := by
    rw [resolvePath, if_neg p.text_ne_empty, p.tokenizePath_text, Option.map_some]
  exact gives_of_resolvePath htokens

/-! ### Where they agree -/

theorem getParts_eq_walk : ∀ {names : List String} {cursor : Value Obj},
    (∀ name ∈ names, name ≠ "[*]") → belowList attr names cursor = false →
      getParts attr names cursor = walk attr names cursor
  | [], _, _, _ => rfl
  | name :: rest, cursor, hnamed, h => by
    have hname := hnamed name List.mem_cons_self
    have hrest : ∀ other ∈ rest, other ≠ "[*]" := fun other hother =>
      hnamed other (List.mem_cons_of_mem _ hother)
    cases cursor with
    | list items => cases h
    | object o =>
      rw [getParts, walk, if_neg hname]
      · exact getParts_eq_walk hrest h
      all_goals simp
    | json value =>
      cases value with
      | null => rfl
      | arr items => cases h
      | obj fields =>
        rw [getParts, walk_obj attr hname]
        exact getParts_eq_walk hrest h
      | _ =>
        rw [getParts, walk, if_neg hname]
        · exact getParts_eq_walk hrest h
        all_goals simp

/-- Along dicts both read keys; a missing one ends in None. -/
theorem getParts_eq_lookup : ∀ {names : List String} {value : Json},
    belowValue names value = false →
      getParts attr names (.json value) = .json ((lookupKeys names value).getD .null)
  | [], _, _ => rfl
  | name :: rest, value, h => by
    cases value with
    | null => rfl
    | obj fields =>
      rw [getParts, lookupKeys]
      rw [belowValue] at h
      cases hget : Dict.get fields name with
      | none => exact getParts_null rest
      | some inner =>
        rw [hget] at h
        exact getParts_eq_lookup h
    | _ => cases h

/-- A value that stands under the names is what the walk comes to. -/
theorem getParts_of_lookup : ∀ {names : List String} {value found : Json},
    lookupKeys names value = some found → getParts attr names (.json value) = .json found
  | [], _, _, h => by
    obtain rfl := Option.some.inj h
    rfl
  | name :: rest, value, found, h => by
    cases value with
    | obj fields =>
      rw [lookupKeys] at h
      obtain ⟨inner, hget, hfound⟩ := Option.bind_eq_some_iff.mp h
      rw [getParts, hget]
      exact getParts_of_lookup hfound
    | _ => cases h

theorem belowList_of_belowValue : ∀ {names : List String} {value : Json},
    belowValue names value = false → belowList attr names (.json value) = false
  | [], _, _ => rfl
  | name :: rest, value, h => by
    cases value with
    | null => rfl
    | obj fields =>
      have hrest : belowList attr rest (.json ((Dict.get fields name).getD .null)) = false :=
        belowList_of_belowValue h
      exact hrest
    | _ => cases h

variable (attr) in
/-- A condition and a template see the same at a path that does not go on below a list; and at one
    that goes on below dicts alone, what stands under its names as keys. -/
theorem paths_agree (state : Dict) (p : FieldPath) :
    (belowList attr p.names (.json (.obj state)) = false →
      Gives (fun rounds => resolvePath attr rounds state p.text) (getPath attr state p.text)) ∧
    (belowValue p.names (.obj state) = false →
      getPath attr state p.text = .json ((lookupKeys p.names (.obj state)).getD .null) ∧
      Gives (fun rounds => resolvePath attr rounds state p.text)
        (.json ((lookupKeys p.names (.obj state)).getD .null))) := by
  have hsame (h : belowList attr p.names (.json (.obj state)) = false) :
      Gives (fun rounds => resolvePath attr rounds state p.text) (getPath attr state p.text) := by
    rw [getPath_text, getParts_eq_walk p.ne_star h]
    exact resolvePath_text state p
  refine ⟨hsame, fun h => ?_⟩
  have hkeys : getPath attr state p.text = .json ((lookupKeys p.names (.obj state)).getD .null) := by
    rw [getPath_text, getParts_eq_lookup h]
  exact ⟨hkeys, hkeys ▸ hsame (belowList_of_belowValue h)⟩

/-- Both see the name under its keys. -/
theorem name_agrees :
    getPath (fun (_ : Value Unit) _ => .object ()) [("inputs", .obj [("name", .str "Ada")])]
      "inputs.name" = .json (.str "Ada") := by
  have hpath : FieldPath.text ⟨["inputs", "name"], by decide +kernel, by decide +kernel⟩ = "inputs.name" := rfl
  have h := ((paths_agree (fun (_ : Value Unit) _ => .object ())
    [("inputs", .obj [("name", .str "Ada")])] ⟨["inputs", "name"], by decide +kernel, by decide +kernel⟩).2
    (by decide +kernel)).1
  rwa [hpath] at h

/-- Of `getattr`: `count` of a list and `upper` of a text are methods. -/
def methodAttr : Value Unit → String → Value Unit
  | .json (.arr _), "count" => .object ()
  | .json (.str _), "upper" => .object ()
  | _, _ => .json .null

/-- A condition on `outputs.rows.count` sees a method of the list, where a template sees nothing; at
    `inputs.name.upper` both see a method of the text. -/
theorem methods_seen :
    (¬ ∀ (state : Dict) (p : FieldPath),
      Gives (fun rounds => resolvePath methodAttr rounds state p.text)
        (getPath methodAttr state p.text)) ∧
    (¬ ∀ (state : Dict) (p : FieldPath),
      getPath methodAttr state p.text = .json ((lookupKeys p.names (.obj state)).getD .null)) ∧
    ¬ ∀ (state : Dict) (p : FieldPath),
      Gives (fun rounds => resolvePath methodAttr rounds state p.text)
        (.json ((lookupKeys p.names (.obj state)).getD .null)) := by
  refine ⟨fun h => ?_, fun h => ?_, fun h => ?_⟩
  · have hcount := h [("outputs", .obj [("rows", .arr [])])]
      ⟨["outputs", "rows", "count"], by decide +kernel, by decide +kernel⟩
    rw [getPath_text] at hcount
    cases hcount.unique (resolvePath_text _ _)
  · have hupper := h [("inputs", .obj [("name", .str "Ada")])]
      ⟨["inputs", "name", "upper"], by decide +kernel, by decide +kernel⟩
    rw [getPath_text] at hupper
    cases hupper
  · have hupper := h [("inputs", .obj [("name", .str "Ada")])]
      ⟨["inputs", "name", "upper"], by decide +kernel, by decide +kernel⟩
    cases hupper.unique (resolvePath_text _ _)

end LunaCore.Flow
