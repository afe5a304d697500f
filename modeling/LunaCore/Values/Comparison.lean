import LunaCore.Values.Json
import Mathlib.Data.List.Infix

/-! How Python compares JSON values.

    ==    of any two; a bool is a number, the order of a dict's keys does not count
    <     of two numbers, two texts, or two lists up to their first difference
    in    a text in a text, a value in a list, a key in a dict

    Where there is no comparison Python raises, and there is no result here. -/

namespace LunaCore.Values

/-- A bool is the number 0 or 1. -/
def Json.number : Json → Option ℚ
  | .bool b => some (if b then 1 else 0)
  | .num q => some q
  | _ => none

mutual

/-- `a == b`. -/
def Json.eq : Json → Json → Bool
  | .null, .null => true
  | .str a, .str b => a == b
  | .arr xs, .arr ys => eqItems xs ys
  | .obj xs, .obj ys => xs.length == ys.length && eqFields xs ys
  | .bool a, other => other.number == some (if a then 1 else 0)
  | .num a, other => other.number == some a
  | _, _ => false

def eqItems : List Json → List Json → Bool
  | [], [] => true
  | x :: xs, y :: ys => x.eq y && eqItems xs ys
  | _, _ => false

def eqFields : List (String × Json) → Dict → Bool
  | [], _ => true
  | (key, x) :: xs, ys =>
    (match Dict.get ys key with
      | some y => x.eq y
      | none => false) && eqFields xs ys

end

mutual

/-- How `a` compares with `b` under `<`, `<=`, `>` and `>=`. -/
def Json.order : Json → Json → Option Ordering
  | .str a, .str b => some (compareOfLessAndEq a b)
  | .arr xs, .arr ys => orderItems xs ys
  | .bool a, other => other.number.map fun b => compareOfLessAndEq (if a then 1 else 0) b
  | .num a, other => other.number.map fun b => compareOfLessAndEq a b
  | _, _ => none

/-- Lists compare as their first elements that differ, and by length where none does. -/
def orderItems : List Json → List Json → Option Ordering
  | [], [] => some .eq
  | [], _ :: _ => some .lt
  | _ :: _, [] => some .gt
  | x :: xs, y :: ys => if x.eq y then orderItems xs ys else x.order y

end

/-- `needle in container`; a list or a dict cannot be looked up among keys. -/
def Json.within (needle : Json) : Json → Option Bool
  | .str text =>
    match needle with
    | .str part => some (decide (part.toList <:+: text.toList))
    | _ => none
  | .arr items => some (items.any fun item => item.eq needle)
  | .obj fields =>
    match needle with
    | .str key => some (Dict.get fields key).isSome
    | .arr _ | .obj _ => none
    | _ => some false
  | _ => none

theorem eq_null_iff (value : Json) : value.eq .null = true ↔ value = .null := by
  cases value <;> simp [Json.eq, Json.number]

theorem null_eq_iff (value : Json) : Json.null.eq value = true ↔ value = .null := by
  cases value <;> simp [Json.eq]

example : Json.eq (.bool true) (.num 1) = true ∧
    Json.order (.arr [.num 1, .str "a"]) (.arr [.num 1, .num 2]) = none ∧
    Json.order (.arr [.num 1]) (.arr [.num 2, .str "a"]) = some .lt := by decide

end LunaCore.Values
