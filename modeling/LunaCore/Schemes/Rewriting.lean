import Mathlib.Data.List.TakeWhile
import Mathlib.Tactic.Common

/-! A text whose marked parts are replaced where they stand.

    in place:  done text … opening inner closing rest
               done text … value rest                 and the cursor behind the value
    one pass:  pieces of the text, each put down once

    The loop searches the text it writes to. It never looks at what it wrote, so it is the one pass
    over the pieces of the text it was given: plain letters, and marked parts from an opening to the
    next closing letter. -/

namespace LunaCore.Schemes

variable {α : Type*} [DecidableEq α]

/-! ### Search -/

/-- Where the needle first stands in `text`, counted from `i`. -/
def findAt (needle : List α) (i : ℕ) : List α → Option ℕ
  | [] => if needle = [] then some i else none
  | c :: rest =>
    if needle <+: c :: rest then some i else findAt needle (i + 1) rest

/-- Where the needle first stands in `text` from `start` on. -/
def find (needle text : List α) (start : ℕ) : Option ℕ := findAt needle start (text.drop start)

theorem find_append (needle done rest : List α) :
    find needle (done ++ rest) done.length = findAt needle done.length rest := by
  rw [find, List.drop_left]

/-- A single letter is found behind what does not hold it. -/
theorem findAt_letter (c : α) (after : List α) : ∀ {before : List α} (i : ℕ), c ∉ before →
    findAt [c] i (before ++ c :: after) = some (i + before.length)
  | [], i, _ => by simp [findAt]
  | b :: before, i, h => by
    rw [List.mem_cons, not_or] at h
    have hpre : ¬ [c] <+: b :: (before ++ c :: after) := by simp [h.1]
    rw [List.cons_append, findAt, if_neg hpre, findAt_letter c after (i + 1) h.2, List.length_cons]
    congr 1
    omega

theorem findAt_letter_eq_none {c : α} : ∀ {text : List α} {i : ℕ}, c ∉ text →
    findAt [c] i text = none
  | [], _, _ => rfl
  | b :: text, _, h => by
    rw [List.mem_cons, not_or] at h
    rw [findAt, if_neg (by simp [h.1]), findAt_letter_eq_none h.2]

/-! ### Pieces -/

/-- A letter that stays, or what stands between an opening and its closing letter. -/
inductive Piece (α : Type*) where
  | plain (c : α)
  | marked (inner : List α)
  deriving DecidableEq

variable (opening : List α) (closing : α)

/-- A text cut from left to right: a part from an opening up to the next closing letter is marked,
    and every other letter is plain. -/
def pieces : List α → List (Piece α)
  | [] => []
  | c :: rest =>
    if opening <+: c :: rest ∧ closing ∈ (c :: rest).drop opening.length then
      .marked (((c :: rest).drop opening.length).takeWhile (· ≠ closing)) ::
        pieces (((c :: rest).drop opening.length).dropWhile (· ≠ closing)).tail
    else .plain c :: pieces rest
termination_by text => text.length
decreasing_by
  · rename_i h
    have hdrop := (List.dropWhile_sublist (fun a => decide (a ≠ closing))
      (l := (c :: rest).drop opening.length)).length_le
    have hne : ((c :: rest).drop opening.length).dropWhile (fun a => decide (a ≠ closing)) ≠ [] := by
      intro hnil
      have := List.dropWhile_eq_nil_iff.mp hnil closing h.2
      simp at this
    have hpos := List.length_pos_iff.mpr hne
    rw [List.length_tail]
    rw [List.length_drop] at hdrop
    omega
  · simp

/-- What a piece was cut from. -/
def Piece.source : Piece α → List α
  | .plain c => [c]
  | .marked inner => opening ++ inner ++ [closing]

/-- What is put down for a piece. -/
def Piece.text (value : List α → List α) : Piece α → List α
  | .plain c => [c]
  | .marked inner => value inner

/-- Every piece put down once; nothing when a marked one has no replacement. -/
def onePass (replacement : List α → Option (List α)) : List (Piece α) → Option (List α)
  | [] => some []
  | .plain c :: rest => (onePass replacement rest).map (c :: ·)
  | .marked inner :: rest =>
    (replacement inner).bind fun text => (onePass replacement rest).map (text ++ ·)

/-- The loop: what is between the opening and the closing letter is replaced where it stands, and
    the search goes on behind what was put in. -/
def rewriteInPlace (replacement : List α → Option (List α)) : ℕ → List α → ℕ → Option (List α)
  | 0, _, _ => none
  | rounds + 1, result, cursor =>
    match find opening result cursor with
    | none => some result
    | some start =>
      match find [closing] result start with
      | none => some result
      | some stop =>
        (replacement ((result.take stop).drop (start + opening.length))).bind fun text =>
          rewriteInPlace replacement rounds
            (result.take start ++ text ++ result.drop (stop + 1)) (start + text.length)

/-! ### The pieces make up the text -/

variable {opening closing}

theorem pieces_plain {c : α} {rest : List α}
    (h : ¬ (opening <+: c :: rest ∧ closing ∈ (c :: rest).drop opening.length)) :
    pieces opening closing (c :: rest) = .plain c :: pieces opening closing rest := by
  rw [pieces, if_neg h]

/-- Up to its closing letter a part is kept whole. -/
theorem kept_of_notMem {inner : List α} (h : closing ∉ inner) :
    ∀ c ∈ inner, decide (c ≠ closing) = true := by
  intro c hc
  simpa using fun heq : c = closing => h (heq ▸ hc)

/-- A closed part is one piece. -/
theorem pieces_marked {inner : List α} (after : List α) (h : closing ∉ inner) :
    pieces opening closing (opening ++ inner ++ closing :: after) =
      .marked inner :: pieces opening closing after := by
  have hdrop : (opening ++ inner ++ closing :: after).drop opening.length =
      inner ++ closing :: after := by
    rw [List.append_assoc, List.drop_left]
  have hkeep := kept_of_notMem h
  have hopens : opening <+: opening ++ inner ++ closing :: after := by
    rw [List.append_assoc]
    exact List.prefix_append _ _
  obtain ⟨c, rest, hcons⟩ := List.exists_cons_of_ne_nil
    (show opening ++ inner ++ closing :: after ≠ [] by simp)
  rw [hcons] at hdrop hopens ⊢
  rw [pieces, hdrop, if_pos ⟨hopens, by simp⟩, List.takeWhile_append_of_pos hkeep,
    List.dropWhile_append_of_pos hkeep]
  simp

/-- Without a closing letter nothing is marked. -/
theorem pieces_of_notMem : ∀ {text : List α}, closing ∉ text →
    pieces opening closing text = text.map .plain
  | [], _ => by rw [pieces]; rfl
  | c :: rest, h => by
    have hdrop : closing ∉ (c :: rest).drop opening.length := fun hmem =>
      h (List.mem_of_mem_drop hmem)
    rw [pieces_plain fun hopen => hdrop hopen.2,
      pieces_of_notMem fun hmem => h (List.mem_cons_of_mem _ hmem), List.map_cons]

/-- The pieces are the text, cut. -/
theorem source_pieces (text : List α) :
    (pieces opening closing text).flatMap (Piece.source opening closing) = text := by
  induction text using pieces.induct opening closing with
  | case1 => rw [pieces]; rfl
  | case2 c rest h ih =>
    obtain ⟨inner, hinner⟩ := h.1
    have hmem := h.2
    rw [← hinner, List.drop_left] at hmem ih
    obtain ⟨path, after, rfl, hpath⟩ := List.eq_append_cons_of_mem hmem
    rw [List.dropWhile_append_of_pos (kept_of_notMem hpath), List.dropWhile_cons_of_neg (by simp),
      List.tail_cons] at ih
    rw [← hinner, ← List.append_assoc, pieces_marked after hpath, List.flatMap_cons, ih,
      Piece.source]
    simp
  | case3 c rest h ih => rw [pieces_plain h, List.flatMap_cons, ih]; rfl

/-- A marked part ends at the next closing letter. -/
theorem notMem_of_marked {inner : List α} (text : List α) :
    .marked inner ∈ pieces opening closing text → closing ∉ inner := by
  induction text using pieces.induct opening closing with
  | case1 => simp [pieces]
  | case2 c rest h ih =>
    rw [pieces, if_pos h, List.mem_cons]
    rintro (hfirst | hmem)
    · rw [Piece.marked.injEq] at hfirst
      rw [hfirst]
      exact fun hclosing => by simpa using List.mem_takeWhile_imp hclosing
    · exact ih hmem
  | case3 c rest h ih =>
    rw [pieces_plain h, List.mem_cons]
    rintro (hfirst | hmem)
    · cases hfirst
    · exact ih hmem

/-- A marked part stands in the text, between an opening and a closing letter. -/
theorem exists_of_marked {inner text : List α} (h : .marked inner ∈ pieces opening closing text) :
    ∃ before after, text = before ++ (opening ++ (inner ++ closing :: after)) := by
  obtain ⟨front, back, hcut⟩ := List.append_of_mem h
  refine ⟨front.flatMap (Piece.source opening closing),
    back.flatMap (Piece.source opening closing), ?_⟩
  have hsource : (pieces opening closing text).flatMap (Piece.source opening closing) = text :=
    source_pieces text
  rw [hcut, List.flatMap_append, List.flatMap_cons, Piece.source] at hsource
  simpa using hsource.symm

/-! ### What the search finds -/

theorem pieces_of_findAt_none : ∀ {text : List α} {i : ℕ}, findAt opening i text = none →
    pieces opening closing text = text.map .plain
  | [], _, _ => by rw [pieces]; rfl
  | c :: rest, i, h => by
    rw [findAt] at h
    split at h
    case isTrue => cases h
    case isFalse hopen =>
      rw [pieces_plain fun hboth => hopen hboth.1, pieces_of_findAt_none h, List.map_cons]

variable (closing) in
/-- Up to the opening that is found, every letter is plain. -/
theorem pieces_of_findAt_some : ∀ {text : List α} {i start : ℕ},
    findAt opening i text = some start → ∃ before inner, text = before ++ (opening ++ inner) ∧
      start = i + before.length ∧ pieces opening closing text =
        before.map .plain ++ pieces opening closing (opening ++ inner)
  | [], i, start, h => by
    rw [findAt] at h
    split at h
    case isTrue hnil =>
      subst hnil
      obtain rfl := Option.some.inj h
      exact ⟨[], [], rfl, rfl, rfl⟩
    case isFalse => cases h
  | c :: rest, i, start, h => by
    rw [findAt] at h
    split at h
    case isTrue hopen =>
      obtain ⟨inner, hinner⟩ := hopen
      obtain rfl := Option.some.inj h
      exact ⟨[], inner, hinner.symm, rfl, by rw [← hinner]; rfl⟩
    case isFalse hopen =>
      obtain ⟨before, inner, rfl, rfl, hpieces⟩ := pieces_of_findAt_some h
      refine ⟨c :: before, inner, rfl, by rw [List.length_cons]; omega, ?_⟩
      rw [pieces_plain fun hboth => hopen hboth.1, hpieces]
      rfl

/-! ### In place and in one pass -/

variable {replacement : List α → Option (List α)}

omit [DecidableEq α] in
theorem onePass_plain (text : List α) (rest : List (Piece α)) :
    onePass replacement (text.map .plain ++ rest) =
      (onePass replacement rest).map (text ++ ·) := by
  induction text with
  | nil => simp
  | cons c text ih =>
    rw [List.map_cons, List.cons_append, onePass, ih, Option.map_map]
    rfl

variable (opening closing) in
omit [DecidableEq α] in
/-- Cut at the opening and at the closing letter, the text gives the marked part and what is around
    it. -/
theorem slices (front path after : List α) :
    let text := front ++ (opening ++ (path ++ closing :: after))
    let stop := front.length + (opening ++ path).length
    (text.take stop).drop (front.length + opening.length) = path ∧
      text.take front.length = front ∧ text.drop (stop + 1) = after := by
  intro text stop
  have htext : text = (front ++ (opening ++ path)) ++ closing :: after := by simp [text]
  have hstop : stop = (front ++ (opening ++ path)).length := List.length_append.symm
  refine ⟨?_, List.take_left, ?_⟩
  · rw [htext, hstop, List.take_left, ← List.append_assoc, ← List.length_append, List.drop_left]
  · rw [htext, hstop, ← List.drop_drop, List.drop_left]
    rfl

/-- Rewriting behind `done` in place is one pass over the pieces of what was there. -/
theorem rewriteInPlace_eq (hopening : closing ∉ opening) (rounds : ℕ) :
    ∀ {done rest : List α}, rest.length < rounds →
      rewriteInPlace opening closing replacement rounds (done ++ rest) done.length =
        (onePass replacement (pieces opening closing rest)).map (done ++ ·) := by
  induction rounds with
  | zero => exact fun h => absurd h (Nat.not_lt_zero _)
  | succ rounds ih =>
    intro done rest hlt
    have hplain (h : pieces opening closing rest = rest.map .plain) :
        (onePass replacement (pieces opening closing rest)).map (done ++ ·) =
          some (done ++ rest) := by
      rw [h, ← List.append_nil (rest.map _), onePass_plain, onePass]
      simp
    rw [rewriteInPlace, find_append]
    cases hstart : findAt opening done.length rest with
    | none => exact (hplain (pieces_of_findAt_none hstart)).symm
    | some start =>
      obtain ⟨before, inner, rfl, rfl, hpieces⟩ := pieces_of_findAt_some closing hstart
      simp only
      rw [← List.append_assoc, ← List.length_append, find_append]
      by_cases hclosed : closing ∈ inner
      · obtain ⟨path, after, rfl, hpath⟩ := List.eq_append_cons_of_mem hclosed
        have hstop : findAt [closing] (done ++ before).length
            (opening ++ (path ++ closing :: after)) =
              some ((done ++ before).length + (opening ++ path).length) := by
          rw [← List.append_assoc, findAt_letter closing after _ (by simp [hopening, hpath])]
        obtain ⟨hinner, hfront, hafter⟩ := slices opening closing (done ++ before) path after
        have hshorter : after.length < rounds := by
          simp only [List.length_append, List.length_cons] at hlt
          omega
        rw [hstop]
        simp only
        rw [hinner, hfront, hafter, hpieces, onePass_plain, ← List.append_assoc,
          pieces_marked after hpath, onePass]
        cases replacement path with
        | none => rfl
        | some text =>
          -- the text put in is behind the cursor: `done` of the next round
          rw [Option.bind_some, Option.bind_some, ← List.length_append, ih hshorter]
          simp only [Option.map_map, Function.comp_def, List.append_assoc]
      · have hnone : closing ∉ opening ++ inner := by simp [hopening, hclosed]
        rw [findAt_letter_eq_none hnone, hplain, List.append_assoc]
        rw [hpieces, pieces_of_notMem hnone, ← List.map_append]

theorem rewriteInPlace_start (hopening : closing ∉ opening) {rounds : ℕ} {text : List α}
    (h : text.length < rounds) : rewriteInPlace opening closing replacement rounds text 0 =
      onePass replacement (pieces opening closing text) := by
  have hrewrite : rewriteInPlace opening closing replacement rounds ([] ++ text) [].length =
      (onePass replacement (pieces opening closing text)).map ([] ++ ·) :=
    rewriteInPlace_eq hopening rounds h
  simpa using hrewrite

omit [DecidableEq α] in
/-- A pass whose marked parts all have a replacement puts it down for each. -/
theorem onePass_of_forall {value : List α → List α} : ∀ {cut : List (Piece α)},
    (∀ inner, .marked inner ∈ cut → replacement inner = some (value inner)) →
      onePass replacement cut = some (cut.flatMap (Piece.text value))
  | [], _ => rfl
  | .plain c :: rest, h => by
    rw [onePass, onePass_of_forall fun inner hinner => h inner (List.mem_cons_of_mem _ hinner)]
    rfl
  | .marked inner :: rest, h => by
    rw [onePass, h inner List.mem_cons_self,
      onePass_of_forall fun other hother => h other (List.mem_cons_of_mem _ hother)]
    rfl

omit [DecidableEq α] in
/-- A pass that comes to an end has a replacement for each marked part. -/
theorem replaced_of_onePass : ∀ {cut : List (Piece α)} {result : List α},
    onePass replacement cut = some result →
      ∀ inner, .marked inner ∈ cut → ∃ text, replacement inner = some text
  | [], _, _ => nofun
  | .plain c :: rest, result, h => by
    rw [onePass] at h
    obtain ⟨others, hothers, _⟩ := Option.map_eq_some_iff.mp h
    intro inner hinner
    rcases List.mem_cons.mp hinner with hfirst | hmem
    · cases hfirst
    · exact replaced_of_onePass hothers inner hmem
  | .marked first :: rest, result, h => by
    rw [onePass] at h
    obtain ⟨text, htext, h⟩ := Option.bind_eq_some_iff.mp h
    obtain ⟨others, hothers, _⟩ := Option.map_eq_some_iff.mp h
    intro inner hinner
    rcases List.mem_cons.mp hinner with hfirst | hmem
    · obtain rfl := Piece.marked.inj hfirst
      exact ⟨text, htext⟩
    · exact replaced_of_onePass hothers inner hmem

end LunaCore.Schemes
