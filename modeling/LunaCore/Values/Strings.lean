import LunaCore.Values.Json

/-! The strings that stand as values in a JSON value, and the value with each of them replaced.

    Lists and the values of dicts are gone into; keys and other scalars are not strings to replace. -/

namespace LunaCore.Values

mutual

/-- The value with every string in it replaced. -/
def Json.mapStrings (f : String → Json) : Json → Json
  | .str s => f s
  | .arr items => .arr (mapStringsItems f items)
  | .obj fields => .obj (mapStringsFields f fields)
  | other => other

def mapStringsItems (f : String → Json) : List Json → List Json
  | [] => []
  | item :: items => item.mapStrings f :: mapStringsItems f items

def mapStringsFields (f : String → Json) : List (String × Json) → List (String × Json)
  | [] => []
  | (key, value) :: fields => (key, value.mapStrings f) :: mapStringsFields f fields

end

mutual

/-- The strings in it, in the order they are met. -/
def Json.strings : Json → List String
  | .str s => [s]
  | .arr items => stringsItems items
  | .obj fields => stringsFields fields
  | _ => []

def stringsItems : List Json → List String
  | [] => []
  | item :: items => item.strings ++ stringsItems items

def stringsFields : List (String × Json) → List String
  | [] => []
  | (_, value) :: fields => value.strings ++ stringsFields fields

end

mutual

/-- Two replacements give the same just when they agree on every string in it. -/
theorem Json.mapStrings_eq_iff {f g : String → Json} : ∀ value : Json,
    value.mapStrings f = value.mapStrings g ↔ ∀ s ∈ value.strings, f s = g s
  | .null | .bool _ | .num _ => by simp [Json.mapStrings, Json.strings]
  | .str s => by simp [Json.mapStrings, Json.strings]
  | .arr items => by
      rw [Json.mapStrings, Json.mapStrings, Json.strings, Json.arr.injEq]
      exact mapStringsItems_eq_iff items
  | .obj fields => by
      rw [Json.mapStrings, Json.mapStrings, Json.strings, Json.obj.injEq]
      exact mapStringsFields_eq_iff fields

theorem mapStringsItems_eq_iff {f g : String → Json} : ∀ items : List Json,
    mapStringsItems f items = mapStringsItems g items ↔ ∀ s ∈ stringsItems items, f s = g s
  | [] => by simp [mapStringsItems, stringsItems]
  | item :: items => by
      simp only [mapStringsItems, stringsItems, List.cons.injEq, List.mem_append, or_imp,
        forall_and]
      exact and_congr (Json.mapStrings_eq_iff item) (mapStringsItems_eq_iff items)

theorem mapStringsFields_eq_iff {f g : String → Json} : ∀ fields : List (String × Json),
    mapStringsFields f fields = mapStringsFields g fields ↔ ∀ s ∈ stringsFields fields, f s = g s
  | [] => by simp [mapStringsFields, stringsFields]
  | (key, value) :: fields => by
      simp only [mapStringsFields, stringsFields, List.cons.injEq, Prod.mk.injEq, true_and,
        List.mem_append, or_imp, forall_and]
      exact and_congr (Json.mapStrings_eq_iff value) (mapStringsFields_eq_iff fields)

end

/-- A dict keeps its keys, and each value is replaced by itself. -/
theorem get_mapStringsFields {f : String → Json} (key : String) : ∀ fields : Dict,
    Dict.get (mapStringsFields f fields) key = (Dict.get fields key).map (Json.mapStrings f)
  | [] => rfl
  | (k, value) :: fields => by
      by_cases hk : k = key
      · simp [mapStringsFields, Dict.get, hk]
      · simpa [mapStringsFields, Dict.get, hk] using get_mapStringsFields key fields

end LunaCore.Values
