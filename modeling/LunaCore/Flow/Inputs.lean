import LunaCore.Flow.RequiredSources

/-! The inputs of an action, and the other values a node config is resolved to.

    "${outputs.score}"         the value at the path, typed
    "Score: ${outputs.score}"  itself
    {"a": "${outputs.score}"}  itself

    Only a string that is one marker is resolved, and only where it stands itself as a value: this
    is no template. What is looked at are the two characters a string begins with and the one it
    ends with. -/

namespace LunaCore.Flow
open LunaCore.Flow.AgentContext LunaCore.Flow.RequiredSources LunaCore.Schemes LunaCore.Values

section
variable {Obj : Type} (attr : Value Obj → String → Value Obj)

/-- The entries of `_resolve_inputs`. -/
def resolveFields (rounds : ℕ) (state : Dict) : Dict → Option (List (String × Value Obj))
  | [] => some []
  | (key, value) :: rest =>
    (resolveValue attr rounds state value).bind fun resolved =>
      (resolveFields rounds state rest).map ((key, resolved) :: ·)

/-- `_resolve_inputs`. -/
def resolveInputs (rounds : ℕ) (state : Dict) : Json → Option (List (String × Value Obj))
  | .obj spec => resolveFields attr rounds state spec
  | _ => some []

/-- A string that begins with `${` and ends with `}`. -/
def Wrapped : Json → Prop
  | .str text => "$\x7b".toList.isPrefixOf text.toList ∧ "\x7d".toList.isSuffixOf text.toList
  | _ => False

/-- Every other value is passed through. -/
theorem resolveValue_unwrapped {rounds : ℕ} {state : Dict} {value : Json} (h : ¬ Wrapped value) :
    resolveValue attr rounds state value = some (.json value) := by
  cases value with
  | str text => exact if_neg h
  | _ => rfl

variable {attr}

theorem gives_resolveFields {state : Dict} : ∀ {spec : Dict} {inputs : List (String × Value Obj)},
    Gives (fun rounds => resolveFields attr rounds state spec) inputs ↔
      List.Forall₂ (fun entry input => input.1 = entry.1 ∧
        Gives (fun rounds => resolveValue attr rounds state entry.2) input.2) spec inputs
  | [], inputs => by
    constructor
    · rintro ⟨enough, h⟩
      obtain rfl := Option.some.inj (h enough le_rfl)
      exact .nil
    · intro h
      cases h
      exact ⟨0, fun _ _ => rfl⟩
  | (key, value) :: rest, inputs => by
    constructor
    · rintro ⟨enough, h⟩
      have hopen (rounds : ℕ) (hrounds : enough ≤ rounds) :
          ∃ resolved others, inputs = (key, resolved) :: others ∧
            resolveValue attr rounds state value = some resolved ∧
              resolveFields attr rounds state rest = some others := by
        have hround := h rounds hrounds
        simp only [resolveFields] at hround
        obtain ⟨resolved, hresolved, hround⟩ := Option.bind_eq_some_iff.mp hround
        obtain ⟨others, hothers, rfl⟩ := Option.map_eq_some_iff.mp hround
        exact ⟨resolved, others, rfl, hresolved, hothers⟩
      obtain ⟨resolved, others, rfl, _, _⟩ := hopen enough le_rfl
      -- the inputs are the same in every round, and so are their parts
      refine .cons ⟨rfl, enough, fun rounds hrounds => ?_⟩
        (gives_resolveFields.mp ⟨enough, fun rounds hrounds => ?_⟩)
      all_goals
        obtain ⟨_, _, hsame, hvalue, hothers⟩ := hopen rounds hrounds
        simp only [List.cons.injEq, Prod.mk.injEq, true_and] at hsame
        obtain ⟨rfl, rfl⟩ := hsame
      · exact hvalue
      · exact hothers
    · intro h
      cases h with
      | @cons _ input _ others hentry hrest =>
        obtain ⟨name, resolved⟩ := input
        obtain ⟨rfl, enough, hvalue⟩ := hentry
        obtain ⟨enough', hothers⟩ := gives_resolveFields.mpr hrest
        refine ⟨max enough enough', fun rounds hrounds => ?_⟩
        simp only at hvalue hothers
        simp only [resolveFields]
        rw [hvalue rounds (by omega), hothers rounds (by omega), Option.bind_some, Option.map_some]

variable (attr) (str : Value Obj → String) (repr : Json → String)

/-- A value that is given for another: what the path of a one-marker string leads to, or itself
    where it does not begin and end as a marker does. -/
structure ReplacedBy (state : Dict) (value : Json) (run : ℕ → Option (Value Obj)) : Prop where
  marked : ∀ path : String, '\x7d' ∉ path.toList → value = .str (marker path) → ∀ result,
    Gives run result ↔ Gives (fun rounds => resolvePath attr rounds state path) result
  passed : ¬ Wrapped value → ∀ result, Gives run result ↔ result = .json value

/-- What is resolved in a node's config: the inputs of an action, one by one and no deeper; the
    overrides of an initial carry; and the path of a context binding, as one marker. -/
structure ResolvedAlone (state : Dict) : Prop where
  spec : ∀ rounds spec, (∀ fields, spec ≠ .obj fields) →
    resolveInputs attr rounds state spec = some []
  inputs : ∀ (fields : Dict) inputs,
    Gives (fun rounds => resolveInputs attr rounds state (.obj fields)) inputs ↔
      List.Forall₂ (fun entry input => input.1 = entry.1 ∧
        Gives (fun rounds => resolveValue attr rounds state entry.2) input.2) fields inputs
  values : ∀ value, ReplacedBy attr state value fun rounds => resolveValue attr rounds state value
  carry : ∀ cfg name raw, (initialOverrides cfg).get name = some raw → ∀ rounds carried,
    (name, carried) ∈ initialCarry attr rounds state cfg →
      carried = resolveValue attr rounds state raw
  bindings : ∀ binding path, Dict.get binding "static_id" = none →
    Dict.get binding "from" = some (.str path) → path ≠ "" → ∀ rounds,
      resolveBindingId attr str repr rounds binding state =
        (resolvePath attr rounds state path).map fun value => .ok (boundId str value)

theorem replacedBy_resolveValue (state : Dict) (value : Json) :
    ReplacedBy attr state value fun rounds => resolveValue attr rounds state value := by
  constructor
  · rintro path _ rfl result
    simp only [resolveValue_marker]
  · intro h result
    simp only [resolveValue_unwrapped attr h]
    have hgives : Gives (fun _ => some (.json value)) (.json value : Value Obj) :=
      ⟨0, fun _ _ => rfl⟩
    exact ⟨fun hresult => hresult.unique hgives, fun hresult => hresult ▸ hgives⟩

/-- Inputs, overrides and bindings are resolved where a whole string is one marker. -/
theorem resolved_alone (state : Dict) : ResolvedAlone attr str repr state where
  spec rounds spec h := by
    cases spec with
    | obj fields => exact absurd rfl (h fields)
    | _ => rfl
  inputs _ _ := gives_resolveFields
  values := replacedBy_resolveValue attr state
  carry cfg name raw hraw rounds carried hcarried := by
    obtain ⟨field, _, hfield⟩ := List.mem_map.mp hcarried
    simp only [Prod.mk.injEq] at hfield
    obtain ⟨rfl, rfl⟩ := hfield
    rw [hraw]
  bindings binding path hstatic hfrom hpath rounds := by
    simp only [resolveBindingId, hstatic, hfrom, if_neg hpath, resolveValue_marker]

end

/-- A name and a key in a run's inputs. -/
def adaState : Dict := [("inputs", .obj [("name", .str "Ada"), ("key", .str "k1")])]

/-- A marker below a dict or in a longer text is sent as it is written, and of two markers around a
    text nothing is sent at all. -/
theorem markers_sent :
    (¬ ∀ path value, Gives (fun rounds =>
        resolvePath (fun (_ : Value Unit) _ => .json .null) rounds adaState path) (.json value) →
      Gives (fun rounds => resolveInputs (fun (_ : Value Unit) _ => .json .null) rounds adaState
        (.obj [("body", .obj [("name", .str (marker path))])]))
        [("body", .json (.obj [("name", value)]))]) ∧
    (¬ ∀ text result, Gives (fun rounds =>
        formatInPlace (fun (_ : Value Unit) _ => .json .null) (fun _ => "") rounds adaState
          ("Hi " ++ text)) result →
      Gives (fun rounds => resolveInputs (fun (_ : Value Unit) _ => .json .null) rounds adaState
        (.obj [("text", .str ("Hi " ++ text))])) [("text", .json (.str result))]) ∧
    Gives (fun rounds => resolveInputs (fun (_ : Value Unit) _ => .json .null) rounds adaState
      (.obj [("both", .str (marker "inputs.name" ++ " and " ++ marker "inputs.key"))]))
      [("both", .json .null)] := by
  have hone {value : Json} {key : String} {result : Value Unit}
      (h : Gives (fun rounds =>
        resolveValue (fun (_ : Value Unit) _ => .json .null) rounds adaState value) result) :
      Gives (fun rounds => resolveInputs (fun (_ : Value Unit) _ => .json .null) rounds adaState
        (.obj [(key, value)])) [(key, result)] :=
    gives_resolveFields.mpr (.cons ⟨rfl, h⟩ .nil)
  have hname : resolvePath (fun (_ : Value Unit) _ => .json .null) 2 adaState "inputs.name" =
      some (.json (.str "Ada")) := rfl
  refine ⟨fun h => ?_, fun h => ?_, hone ?_⟩
  · have hbody := h _ _ (gives_of_resolvePath hname)
    have hsent := hbody.unique (hone ⟨0, fun _ _ => rfl⟩)
    simp [marker] at hsent
  · have hpieces : templatePieces ("Hi " ++ marker "inputs.name") =
        [.plain 'H', .plain 'i', .plain ' ', .marked "inputs.name".toList] := by
      simp [templatePieces, marker, pieces]
    have hformat : Gives (fun rounds => formatInPlace (fun (_ : Value Unit) _ => .json .null)
        (fun _ => "") rounds adaState ("Hi " ++ marker "inputs.name")) "Hi Ada" := by
      refine (gives_formatInPlace _ _ _).mpr ((gives_formatTemplate_iff _ _ _).mpr
        ⟨fun _ => "Ada", fun path hmarked => ?_, by rw [hpieces]; rfl⟩)
      have hinner : path.toList = "inputs.name".toList := by
        rw [hpieces] at hmarked
        simpa using hmarked
      obtain rfl := String.toList_inj.mp hinner
      exact gives_engineText (gives_of_resolvePath hname)
    have htext := (h _ _ hformat).unique (hone ⟨0, fun _ _ => rfl⟩)
    simp [marker] at htext
  · have htext : marker "inputs.name" ++ " and " ++ marker "inputs.key" =
        marker ("inputs.name\x7d and $\x7binputs.key") := by decide +kernel
    have hnull : resolvePath (fun (_ : Value Unit) _ => .json .null) 2 adaState
        "inputs.name\x7d and $\x7binputs.key" = some (.json .null) := rfl
    rw [htext]
    simp only [resolveValue_marker]
    exact gives_of_resolvePath hnull

end LunaCore.Flow
