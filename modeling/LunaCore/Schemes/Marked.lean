import LunaCore.Schemes.Scan
import Mathlib.Data.List.Infix

/-! Fields that end at marks, and what a reader takes them for.

    written   i d " n a m e = " f o o " >          field, mark, field, mark
    read      up to the first mark, up to the next

    A field is read as it was written when its mark does not begin earlier, inside the field or
    across its end. Then the marks after it are read where they are. -/

namespace LunaCore.Schemes

variable {α : Type*} [DecidableEq α]

/-- The text before the first mark, and the text behind it. -/
def readTo (mark : List α) : List α → Option (List α × List α)
  | [] => none
  | c :: text =>
    if mark <+: c :: text then some ([], (c :: text).drop mark.length)
    else (readTo mark text).map fun cut => (c :: cut.1, cut.2)

/-- The mark behind the field is the first there is. -/
def Sealed (mark field : List α) : Prop := readTo mark (field ++ mark) = some (field, [])

instance (mark field : List α) : Decidable (Sealed mark field) :=
  inferInstanceAs (Decidable (_ = _))

variable {mark field text after : List α}

theorem readTo_mark (h : mark ≠ []) (after : List α) :
    readTo mark (mark ++ after) = some ([], after) := by
  obtain ⟨c, rest, rfl⟩ := List.exists_cons_of_ne_nil h
  rw [List.cons_append, readTo, if_pos ⟨after, List.cons_append ..⟩, ← List.cons_append,
    List.drop_left]

theorem sealed_nil (h : mark ≠ []) : Sealed mark [] := by
  have := readTo_mark h []
  rwa [List.append_nil] at this

omit [DecidableEq α] in
/-- What comes after the mark has no say in where it begins. -/
theorem begins_iff (c : α) (field after : List α) :
    mark <+: c :: (field ++ (mark ++ after)) ↔ mark <+: c :: (field ++ mark) := by
  rw [← List.append_assoc, ← List.cons_append]
  refine List.isPrefix_append_of_length ?_
  rw [List.length_cons, List.length_append]
  omega

theorem sealed_cons {c : α} : Sealed mark (c :: field) ↔
    ¬ mark <+: c :: (field ++ mark) ∧ Sealed mark field := by
  unfold Sealed
  rw [List.cons_append, readTo]
  split
  case isTrue h => simp [h]
  case isFalse h => simp [h, Option.map_eq_some_iff, Prod.ext_iff]

/-- CORRECT: what is cut off is a sealed field with its mark. -/
theorem readTo_eq_some_iff (hmark : mark ≠ []) :
    readTo mark text = some (field, after) ↔ Sealed mark field ∧ text = field ++ (mark ++ after) := by
  induction text generalizing field with
  | nil => simp [readTo, hmark]
  | cons c text ih =>
    rw [readTo]
    split
    case isTrue h =>
      obtain ⟨rest, hrest⟩ := h
      rw [← hrest, List.drop_left, Option.some.injEq, Prod.mk.injEq]
      constructor
      · rintro ⟨rfl, rfl⟩
        exact ⟨sealed_nil hmark, rfl⟩
      · rintro ⟨hsealed, htext⟩
        cases field with
        | nil => exact ⟨rfl, List.append_cancel_left htext⟩
        | cons d field =>
          refine absurd ?_ (sealed_cons.mp hsealed).1
          rw [← begins_iff d field after, ← List.cons_append, ← htext]
          exact List.prefix_append ..
    case isFalse h =>
      rw [Option.map_eq_some_iff]
      constructor
      · rintro ⟨⟨rest, behind⟩, hcut, hfield⟩
        obtain ⟨rfl, rfl⟩ := Prod.mk.inj hfield
        obtain ⟨hsealed, rfl⟩ := ih.mp hcut
        exact ⟨sealed_cons.mpr ⟨fun hbegins => h ((begins_iff c rest behind).mpr hbegins), hsealed⟩,
          rfl⟩
      · rintro ⟨hsealed, htext⟩
        cases field with
        | nil => exact absurd ⟨after, htext.symm⟩ h
        | cons d field =>
          obtain ⟨rfl, hbehind⟩ := List.cons.inj htext
          exact ⟨(field, after), ih.mpr ⟨(sealed_cons.mp hsealed).2, hbehind⟩, rfl⟩

/-- A mark that is there is found, there or earlier. -/
theorem readTo_exists (hmark : mark ≠ []) (field after : List α) :
    ∃ found between, readTo mark (field ++ (mark ++ after)) = some (found, between ++ after) := by
  induction field with
  | nil => exact ⟨[], [], readTo_mark hmark after⟩
  | cons c field ih =>
    rw [List.cons_append, readTo]
    split
    case isTrue h =>
      refine ⟨[], (c :: (field ++ mark)).drop mark.length, ?_⟩
      have hlong : mark.length ≤ (c :: (field ++ mark)).length := by
        rw [List.length_cons, List.length_append]
        omega
      rw [← List.append_assoc, ← List.cons_append, List.drop_append_of_le_length hlong]
    case isFalse =>
      obtain ⟨found, between, hcut⟩ := ih
      exact ⟨c :: found, between, by rw [hcut]; rfl⟩

/-- A mark cannot begin in a field that has not its first letter. -/
theorem sealed_of_notMem {c : α} {rest : List α} : ∀ {field : List α}, c ∉ field →
    Sealed (c :: rest) field
  | [], _ => sealed_nil (List.cons_ne_nil c rest)
  | d :: field, h => by
    rw [List.mem_cons, not_or] at h
    refine sealed_cons.mpr ⟨fun hbegins => ?_, sealed_of_notMem h.2⟩
    exact h.1 (List.cons_prefix_cons.mp hbegins).1

/-! ### A text of items -/

section Items

variable {α β γ : Type*} {m : Matcher α β}

/-- Read or not, what comes after it is read the same. -/
def Quiet (m : Matcher α β) (glue : List α) : Prop :=
  ∀ after, holes (scan m (glue ++ after)) = holes (scan m after)

theorem quiet_nil : Quiet m [] := fun _ => rfl

theorem Quiet.append {glue more : List α} (h : Quiet m glue) (hmore : Quiet m more) :
    Quiet m (glue ++ more) := fun after => by
  rw [List.append_assoc, h, hmore]

theorem quiet_cons {c : α} {glue : List α} (h : ∀ after, m.read (c :: (glue ++ after)) = none)
    (hglue : Quiet m glue) : Quiet m (c :: glue) := fun after => by
  rw [List.cons_append, scan_letter (h after), holes_letter, hglue]

/-- What the text reads as, `view`ed, is the items and what follows them iff each item is valid, as
    long as the others are read as something that looks different. -/
theorem holes_intercalate_iff {sep : List α} {view : β → γ} (hsep : Quiet m sep) {R : List γ}
    {rest : List α} : ∀ {items : List β},
    (∀ b ∈ items, ¬ m.Valid b → ∀ after, ∃ found, m.read (m.source b ++ after) = some found ∧
      view found.1 ≠ view b) →
    ((holes (scan m (sep.intercalate (items.map m.source) ++ rest))).map view =
        items.map view ++ R ↔
      (∀ b ∈ items, m.Valid b) ∧ (holes (scan m rest)).map view = R)
  | [], _ => by simp
  | b :: items, hother => by
    have hstep : ∀ after, (holes (scan m (m.source b ++ after))).map view =
          view b :: (items.map view ++ R) ↔
        m.Valid b ∧ (holes (scan m after)).map view = items.map view ++ R := by
      intro after
      by_cases hvalid : m.Valid b
      · rw [scan_hole (m.read_iff.mpr ⟨hvalid, rfl⟩), holes_hole, List.map_cons, List.cons.injEq]
        simp [hvalid]
      · obtain ⟨⟨found, behind⟩, hread, hne⟩ := hother b List.mem_cons_self hvalid after
        rw [scan_hole hread, holes_hole, List.map_cons, List.cons.injEq]
        exact iff_of_false (fun h => hne h.1) fun h => hvalid h.1
    have hrest := fun c hc => hother c (List.mem_cons_of_mem b hc)
    have htext : (holes (scan m (sep.intercalate ((b :: items).map m.source) ++ rest))).map view =
          view b :: (items.map view ++ R) ↔
        m.Valid b ∧ (holes (scan m (sep.intercalate (items.map m.source) ++ rest))).map view =
          items.map view ++ R := by
      cases items with
      | nil =>
        rw [← hstep]
        simp
      | cons c items =>
        rw [← hsep (sep.intercalate ((c :: items).map m.source) ++ rest), ← hstep, List.map_cons,
          List.map_cons, List.intercalate_cons_cons]
        simp only [List.append_assoc]
    rw [List.forall_mem_cons, and_assoc, ← holes_intercalate_iff hsep hrest]
    exact htext

end Items

end LunaCore.Schemes
