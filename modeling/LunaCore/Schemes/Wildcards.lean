import Mathlib.Data.List.Basic
import Mathlib.Data.List.Infix
import Mathlib.Tactic.Common

/-! Patterns with wildcards, as SQL's LIKE has them.

        pattern    a _ b %        a letter, any letter, a letter, any text
        shortest   a x b          one text of least length that it takes, `x` in place of `_`

    A pattern takes at least the texts that begin with its letters when no letter is a wildcard, and
    then no others. -/

namespace LunaCore.Schemes

/-- One place of a pattern. -/
inductive Place (α : Type*) where
  | letter (c : α)
  | one
  | many
  deriving DecidableEq

variable {α : Type*} [DecidableEq α]

/-- The pattern takes the whole text. -/
def takes : List (Place α) → List α → Bool
  | [], text => text.isEmpty
  | .letter c :: pattern, text => match text with
    | [] => false
    | d :: text => d = c && takes pattern text
  | .one :: pattern, text => match text with
    | [] => false
    | _ :: text => takes pattern text
  | .many :: pattern, text => text.tails.any (takes pattern)

/-- A shortest text a pattern takes, with a letter of choice for any letter. -/
def shortest (fill : α) : List (Place α) → List α
  | [] => []
  | .letter c :: pattern => c :: shortest fill pattern
  | .one :: pattern => fill :: shortest fill pattern
  | .many :: pattern => shortest fill pattern

theorem takes_letter_iff {c : α} {pattern : List (Place α)} {text : List α} :
    takes (.letter c :: pattern) text = true ↔
      ∃ rest, text = c :: rest ∧ takes pattern rest = true := by
  cases text with
  | nil => simp [takes]
  | cons d text => simp [takes, and_assoc]

theorem takes_one_iff {pattern : List (Place α)} {text : List α} :
    takes (.one :: pattern) text = true ↔
      ∃ d rest, text = d :: rest ∧ takes pattern rest = true := by
  cases text with
  | nil => simp [takes]
  | cons d text => simp [takes]

theorem takes_many_iff {pattern : List (Place α)} {text : List α} :
    takes (.many :: pattern) text = true ↔
      ∃ skipped rest, text = skipped ++ rest ∧ takes pattern rest = true := by
  rw [takes, List.any_eq_true]
  constructor
  · rintro ⟨rest, hrest, htakes⟩
    obtain ⟨skipped, rfl⟩ := (List.mem_tails _ _).mp hrest
    exact ⟨skipped, rest, rfl, htakes⟩
  · rintro ⟨skipped, rest, rfl, htakes⟩
    exact ⟨rest, (List.mem_tails _ _).mpr (List.suffix_append skipped rest), htakes⟩

theorem takes_many_last (text : List α) : takes [.many] text = true := by
  rw [takes, List.any_eq_true]
  exact ⟨[], (List.mem_tails _ _).mpr List.nil_suffix, rfl⟩

/-- Letters in front are read off the text. -/
theorem takes_letters (letters : List α) (pattern : List (Place α)) (text : List α) :
    takes (letters.map .letter ++ pattern) text = true ↔
      ∃ rest, text = letters ++ rest ∧ takes pattern rest = true := by
  induction letters generalizing text with
  | nil => simp
  | cons c letters ih =>
    cases text with
    | nil => simp [takes]
    | cons d text =>
      rw [List.map_cons, List.cons_append, takes, Bool.and_eq_true, decide_eq_true_iff, ih]
      constructor
      · rintro ⟨rfl, rest, rfl, hrest⟩
        exact ⟨rest, rfl, hrest⟩
      · rintro ⟨rest, htext, hrest⟩
        obtain ⟨rfl, rfl⟩ := List.cons.inj htext
        exact ⟨rfl, rest, rfl, hrest⟩

/-- Letters and then any text: a prefix. -/
theorem takes_letters_many (letters text : List α) :
    takes (letters.map .letter ++ [.many]) text = true ↔ letters <+: text := by
  rw [takes_letters]
  constructor
  · rintro ⟨rest, rfl, -⟩
    exact List.prefix_append letters rest
  · rintro ⟨rest, rfl⟩
    exact ⟨rest, rfl, takes_many_last rest⟩

theorem takes_shortest (fill : α) (pattern : List (Place α)) :
    takes pattern (shortest fill pattern) = true := by
  induction pattern with
  | nil => rfl
  | cons place pattern ih =>
    cases place with
    | letter c =>
      rw [shortest, takes, ih, decide_eq_true rfl]
      rfl
    | one =>
      rw [shortest, takes]
      exact ih
    | many =>
      rw [shortest, takes, List.any_eq_true]
      exact ⟨_, (List.mem_tails _ _).mpr List.suffix_rfl, ih⟩

/-- A pattern that ends with any text takes a text that goes on. -/
theorem takes_append {pattern : List (Place α)} {text : List α}
    (h : takes (pattern ++ [.many]) text = true) (more : List α) :
    takes (pattern ++ [.many]) (text ++ more) = true := by
  induction pattern generalizing text with
  | nil => exact takes_many_last (text ++ more)
  | cons place pattern ih =>
    cases place with
    | many =>
      rw [List.cons_append, takes, List.any_eq_true] at h ⊢
      obtain ⟨rest, hrest, htakes⟩ := h
      refine ⟨rest ++ more, ?_, ih htakes⟩
      obtain ⟨front, rfl⟩ := (List.mem_tails _ _).mp hrest
      exact (List.mem_tails _ _).mpr ⟨front, (List.append_assoc _ _ _).symm⟩
    | letter c =>
      cases text with
      | nil => simp [takes] at h
      | cons d text =>
        rw [List.cons_append, takes, Bool.and_eq_true] at h
        rw [List.cons_append, List.cons_append, takes, h.1]
        exact ih h.2
    | one =>
      cases text with
      | nil => simp [takes] at h
      | cons d text =>
        rw [List.cons_append, takes] at h
        exact ih h

/-- An empty text is taken by a pattern of nothing but any text. -/
theorem many_of_takes_nil {pattern : List (Place α)} (h : takes pattern [] = true) :
    ∀ place ∈ pattern, place = .many := by
  induction pattern with
  | nil => simp
  | cons place pattern ih =>
    cases place with
    | letter c => simp [takes] at h
    | one => simp [takes] at h
    | many =>
      have hrest : takes pattern [] = true := by simpa [takes] using h
      intro other hother
      rcases List.mem_cons.mp hother with rfl | hother
      · rfl
      · exact ih hrest other hother

end LunaCore.Schemes
