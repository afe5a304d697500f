import LunaCore.Schemes.Fallible
import Mathlib.Data.List.Basic
import Mathlib.Tactic.Common

/-! A text searched from left to right for holes, and filled.

    text     a b {x} c {y      what the matcher reads at the front of the rest is a hole
    parts    a b  ▢  c {y      every other letter stays
    filled   a b  1  c {y

    This is what a regular expression's `finditer` and `sub` do when a match is never empty and is
    known by what it reads: the parts are the only way to cut the text in which every hole that can
    be read is read. What fills a hole is never searched. -/

namespace LunaCore.Schemes

/-- What reads a hole at the front of a text, with what is behind it. -/
structure Matcher (α β : Type*) where
  read : List α → Option (β × List α)
  source : β → List α
  Valid : β → Prop
  source_ne_nil : ∀ b, source b ≠ []
  read_iff : ∀ {text b after}, read text = some (b, after) ↔ Valid b ∧ text = source b ++ after

/-- A letter that stays, or a hole. -/
inductive Part (α β : Type*) where
  | letter (c : α)
  | hole (b : β)
  deriving DecidableEq

variable {α β : Type*} (m : Matcher α β)

/-- The parts of a text whose first letters, so many, belong to the last hole. -/
def scanFrom : ℕ → List α → List (Part α β)
  | _, [] => []
  | skip + 1, _ :: rest => scanFrom skip rest
  | 0, c :: rest => match m.read (c :: rest) with
    | some (b, _) => .hole b :: scanFrom ((m.source b).length - 1) rest
    | none => .letter c :: scanFrom 0 rest

/-- The parts of a text. -/
def scan (text : List α) : List (Part α β) := scanFrom m 0 text

/-- The holes, from left to right. -/
def holes : List (Part α β) → List β
  | [] => []
  | .letter _ :: parts => holes parts
  | .hole b :: parts => b :: holes parts

/-- The parts with the holes filled. -/
def fill (value : β → List α) (parts : List (Part α β)) : List α :=
  parts.flatMap fun
    | .letter c => [c]
    | .hole b => value b

/-- The parts with the holes filled, where filling one can fail. -/
def fillOr {ε : Type*} (value : β → Except ε (List α)) : List (Part α β) → Except ε (List α)
  | [] => .ok []
  | .letter c :: parts => (fillOr value parts).map (c :: ·)
  | .hole b :: parts => (value b).bind fun text => (fillOr value parts).map (text ++ ·)

/-! ### The parts make up the text -/

variable {m}

theorem scanFrom_eq : ∀ (skip : ℕ) (text : List α), scanFrom m skip text = scan m (text.drop skip)
  | 0, _ => rfl
  | _ + 1, [] => rfl
  | skip + 1, _ :: rest => by rw [scanFrom, scanFrom_eq skip rest, List.drop_succ_cons]

@[simp] theorem scan_nil : scan m [] = [] := rfl

theorem scan_hole {text after : List α} {b : β} (h : m.read text = some (b, after)) :
    scan m text = .hole b :: scan m after := by
  obtain ⟨_, rfl⟩ := m.read_iff.mp h
  obtain ⟨c, rest, hsource⟩ := List.exists_cons_of_ne_nil (m.source_ne_nil b)
  rw [hsource, List.cons_append] at h ⊢
  rw [scan, scanFrom, h]
  simp only [scanFrom_eq, hsource, List.length_cons, Nat.add_sub_cancel, List.drop_left]

theorem scan_letter {c : α} {rest : List α} (h : m.read (c :: rest) = none) :
    scan m (c :: rest) = .letter c :: scan m rest := by
  rw [scan, scanFrom, h]
  rfl

/-- SCAN RULE: what holds of the empty text, and of a text when it holds behind its first part. -/
theorem scan_rule {motive : List α → List (Part α β) → Prop} (nil : motive [] [])
    (hole : ∀ b after, m.Valid b → motive after (scan m after) →
      motive (m.source b ++ after) (.hole b :: scan m after))
    (letter : ∀ c rest, m.read (c :: rest) = none → motive rest (scan m rest) →
      motive (c :: rest) (.letter c :: scan m rest)) :
    ∀ text, motive text (scan m text) := by
  suffices H : ∀ n (text : List α), text.length ≤ n → motive text (scan m text) from
    fun text => H text.length text (Nat.le_refl _)
  intro n
  induction n with
  | zero =>
    intro text hlen
    obtain rfl := List.length_eq_zero_iff.mp (Nat.le_zero.mp hlen)
    exact nil
  | succ n ih =>
    intro text hlen
    cases text with
    | nil => exact nil
    | cons c rest =>
      cases hread : m.read (c :: rest) with
      | none =>
        rw [scan_letter hread]
        exact letter c rest hread (ih rest (Nat.le_of_succ_le_succ hlen))
      | some found =>
        obtain ⟨b, after⟩ := found
        obtain ⟨hvalid, htext⟩ := m.read_iff.mp hread
        have hpos := List.length_pos_iff.mpr (m.source_ne_nil b)
        have hafter : after.length ≤ n := by
          have := congrArg List.length htext
          rw [List.length_append] at this
          omega
        rw [scan_hole hread, htext]
        exact hole b after hvalid (ih after hafter)

@[simp] theorem holes_nil : holes ([] : List (Part α β)) = [] := rfl

@[simp] theorem holes_letter (c : α) (parts : List (Part α β)) :
    holes (.letter c :: parts) = holes parts := rfl

@[simp] theorem holes_hole (b : β) (parts : List (Part α β)) :
    holes (.hole b :: parts) = b :: holes parts := rfl

theorem mem_holes {b : β} {parts : List (Part α β)} : b ∈ holes parts ↔ .hole b ∈ parts := by
  induction parts with
  | nil => simp
  | cons part parts ih => cases part <;> simp [ih]

theorem valid_of_mem_holes {b : β} : ∀ {text : List α}, b ∈ holes (scan m text) → m.Valid b := by
  intro text
  induction text using scan_rule (m := m) with
  | nil => nofun
  | hole first after hvalid ih =>
    intro hb
    rcases List.mem_cons.mp hb with rfl | hb
    · exact hvalid
    · exact ih hb
  | letter c rest hread ih => exact ih

/-! ### Filling -/

variable {value other : β → List α}

@[simp] theorem fill_nil : fill value [] = [] := rfl

@[simp] theorem fill_letter (c : α) (parts : List (Part α β)) :
    fill value (.letter c :: parts) = c :: fill value parts := rfl

@[simp] theorem fill_hole (b : β) (parts : List (Part α β)) :
    fill value (.hole b :: parts) = value b ++ fill value parts := rfl

theorem fill_append (parts rest : List (Part α β)) :
    fill value (parts ++ rest) = fill value parts ++ fill value rest := List.flatMap_append

/-- Only what fills the holes counts. -/
theorem fill_congr {parts : List (Part α β)} (h : ∀ b ∈ holes parts, value b = other b) :
    fill value parts = fill other parts := by
  induction parts with
  | nil => rfl
  | cons part parts ih =>
    cases part with
    | letter c => rw [fill_letter, fill_letter, ih h]
    | hole b =>
      obtain ⟨hb, hrest⟩ := List.forall_mem_cons.mp h
      rw [fill_hole, fill_hole, hb, ih hrest]

section Fallible

variable {ε : Type*} {attempt : β → Except ε (List α)}

theorem fillOr_congr {other : β → Except ε (List α)} {parts : List (Part α β)}
    (h : ∀ b ∈ holes parts, attempt b = other b) : fillOr attempt parts = fillOr other parts := by
  induction parts with
  | nil => rfl
  | cons part parts ih =>
    cases part with
    | letter c => rw [fillOr, fillOr, ih h]
    | hole b =>
      obtain ⟨hb, hrest⟩ := List.forall_mem_cons.mp h
      rw [fillOr, fillOr, hb, ih hrest]

/-- Where no hole fails, the parts are filled. -/
theorem fillOr_eq_ok {parts : List (Part α β)} (h : ∀ b ∈ holes parts, attempt b = .ok (value b)) :
    fillOr attempt parts = .ok (fill value parts) := by
  induction parts with
  | nil => rfl
  | cons part parts ih =>
    cases part with
    | letter c => rw [fillOr, ih h]; rfl
    | hole b =>
      obtain ⟨hb, hrest⟩ := List.forall_mem_cons.mp h
      rw [fillOr, hb, ih hrest]
      rfl

/-- It goes through just when every hole can be filled. -/
theorem fillOr_isOk_iff {parts : List (Part α β)} : (∃ text, fillOr attempt parts = .ok text) ↔
    ∀ b ∈ holes parts, ∃ text, attempt b = .ok text := by
  induction parts with
  | nil => simp [fillOr]
  | cons part parts ih =>
    cases part with
    | letter c => rw [holes_letter, fillOr, map_isOk_iff, ih]
    | hole b =>
      rw [holes_hole, List.forall_mem_cons, fillOr, bind_isOk_iff, ← ih]
      simp only [map_isOk_iff, exists_and_right]

/-- What it fails with is what a hole fails with. -/
theorem exists_of_fillOr_error {parts : List (Part α β)} {e : ε}
    (h : fillOr attempt parts = .error e) : ∃ b ∈ holes parts, attempt b = .error e := by
  induction parts with
  | nil => cases h
  | cons part parts ih =>
    cases part with
    | letter c =>
      rw [fillOr, map_eq_error_iff] at h
      exact ih h
    | hole b =>
      rw [fillOr, bind_eq_error_iff] at h
      rcases h with hb | ⟨text, -, hrest⟩
      · exact ⟨b, List.mem_cons_self .., hb⟩
      · obtain ⟨other, hother, he⟩ := ih (map_eq_error_iff.mp hrest)
        exact ⟨other, List.mem_cons_of_mem _ hother, he⟩

end Fallible

end LunaCore.Schemes
