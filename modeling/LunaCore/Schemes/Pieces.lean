import Mathlib.Data.List.Basic
import Mathlib.Tactic.Common

/-! A stream cut at a separator, as it arrives.

        a b ⏎ c ⏎ d e          complete     [a b] [c]
                               unfinished   d e

    What has arrived is its complete pieces and the letters of an unfinished one. More letters only
    ever continue the unfinished piece, so whatever parts a stream arrives in, its pieces are those
    of the whole. -/

namespace LunaCore.Schemes

variable {α : Type*} [DecidableEq α] (sep : α)

/-- The pieces whose separator has arrived. -/
def complete (stream : List α) : List (List α) := (stream.splitOn sep).dropLast

/-- What has arrived behind the last separator. -/
def unfinished (stream : List α) : List α :=
  (stream.splitOn sep).getLast (List.splitOn_ne_nil sep stream)

/-- The pieces between the separators, a last empty one omitted. -/
def piecesOf (stream : List α) : List (List α) :=
  if (stream.splitOn sep).getLast? = some [] then (stream.splitOn sep).dropLast
  else stream.splitOn sep

/-- PIECE RULE: a stream is one unfinished piece, or a piece with its separator and the rest. -/
@[elab_as_elim]
theorem piece_induction {motive : List α → Prop} (stream : List α)
    (piece : ∀ letters, sep ∉ letters → motive letters)
    (cut : ∀ letters rest, sep ∉ letters → motive rest → motive (letters ++ sep :: rest)) :
    motive stream := by
  suffices H : ∀ letters, sep ∉ letters → motive (letters ++ stream) from H [] List.not_mem_nil
  induction stream with
  | nil =>
    intro letters h
    rw [List.append_nil]
    exact piece letters h
  | cons c stream ih =>
    intro letters h
    by_cases hc : c = sep
    · subst hc
      exact cut letters stream h (ih [] List.not_mem_nil)
    · have hletters : sep ∉ letters ++ [c] := by
        rw [List.mem_append, List.mem_singleton]
        rintro (hmem | heq)
        · exact h hmem
        · exact hc heq.symm
      have hrest := ih (letters ++ [c]) hletters
      rwa [List.append_assoc, List.singleton_append] at hrest

variable {sep}

theorem splitOn_eq (stream : List α) :
    stream.splitOn sep = complete sep stream ++ [unfinished sep stream] :=
  (List.dropLast_concat_getLast _).symm

@[simp] theorem complete_piece {letters : List α} (h : sep ∉ letters) :
    complete sep letters = [] := by
  rw [complete, List.splitOn_eq_singleton h]
  rfl

@[simp] theorem unfinished_piece {letters : List α} (h : sep ∉ letters) :
    unfinished sep letters = letters := by
  have hsplit : letters.splitOn sep = _ := splitOn_eq letters
  rw [complete_piece h, List.splitOn_eq_singleton h] at hsplit
  exact (List.singleton_inj.mp hsplit).symm

theorem complete_cut {letters : List α} (h : sep ∉ letters) (rest : List α) :
    complete sep (letters ++ sep :: rest) = letters :: complete sep rest := by
  rw [complete, List.splitOn_append_cons_self_of_not_mem h,
    List.dropLast_cons_of_ne_nil (List.splitOn_ne_nil sep rest)]
  rfl

theorem unfinished_cut {letters : List α} (h : sep ∉ letters) (rest : List α) :
    unfinished sep (letters ++ sep :: rest) = unfinished sep rest := by
  simp only [unfinished, List.splitOn_append_cons_self_of_not_mem h]
  exact List.getLast_cons (List.splitOn_ne_nil sep rest)

theorem notMem_unfinished (stream : List α) : sep ∉ unfinished sep stream := by
  induction stream using piece_induction sep with
  | piece letters h => rwa [unfinished_piece h]
  | cut letters rest h ih => rwa [unfinished_cut h]

theorem notMem_complete {stream letters : List α} (h : letters ∈ complete sep stream) :
    sep ∉ letters := by
  induction stream using piece_induction sep with
  | piece other hother => simp [complete_piece hother] at h
  | cut other rest hother ih =>
    rw [complete_cut hother, List.mem_cons] at h
    rcases h with rfl | h
    · exact hother
    · exact ih h

/-- No piece has a separator in it. -/
theorem notMem_splitOn {stream letters : List α} (h : letters ∈ stream.splitOn sep) :
    sep ∉ letters := by
  rw [splitOn_eq, List.mem_append, List.mem_singleton] at h
  rcases h with h | rfl
  · exact notMem_complete h
  · exact notMem_unfinished stream

/-- What arrives later continues the unfinished piece. -/
theorem complete_append (stream more : List α) :
    complete sep (stream ++ more)
      = complete sep stream ++ complete sep (unfinished sep stream ++ more) := by
  induction stream using piece_induction sep with
  | piece letters h => rw [complete_piece h, unfinished_piece h, List.nil_append]
  | cut letters rest h ih =>
    rw [List.append_assoc, List.cons_append, complete_cut h, complete_cut h, unfinished_cut h, ih,
      List.cons_append]

theorem unfinished_append (stream more : List α) :
    unfinished sep (stream ++ more) = unfinished sep (unfinished sep stream ++ more) := by
  induction stream using piece_induction sep with
  | piece letters h => rw [unfinished_piece h]
  | cut letters rest h ih =>
    rw [List.append_assoc, List.cons_append, unfinished_cut h, unfinished_cut h, ih]

/-- The pieces of a stream that has ended: the unfinished one too, unless it is empty. -/
theorem piecesOf_eq (stream : List α) :
    piecesOf sep stream
      = complete sep stream ++
          if unfinished sep stream = [] then [] else [unfinished sep stream] := by
  have hlast : (stream.splitOn sep).getLast? = some (unfinished sep stream) :=
    List.getLast?_eq_some_getLast _
  simp only [piecesOf, hlast, Option.some_inj]
  by_cases h : unfinished sep stream = []
  · rw [if_pos h, if_pos h, List.append_nil]
    rfl
  · rw [if_neg h, if_neg h]
    exact splitOn_eq stream

/-- A stream that goes on: its complete pieces, and those from the unfinished one on. -/
theorem piecesOf_append (stream more : List α) :
    piecesOf sep (stream ++ more)
      = complete sep stream ++ piecesOf sep (unfinished sep stream ++ more) := by
  rw [piecesOf_eq, piecesOf_eq, complete_append, unfinished_append, List.append_assoc]

variable (sep) in
/-- No letter is lost: each complete piece with its separator, and then the unfinished one. -/
theorem pieces_joined (stream : List α) :
    ((complete sep stream).map (· ++ [sep])).flatten ++ unfinished sep stream = stream := by
  induction stream using piece_induction sep with
  | piece letters h =>
    rw [complete_piece h, unfinished_piece h]
    rfl
  | cut letters rest h ih =>
    rw [complete_cut h, unfinished_cut h, List.map_cons, List.flatten_cons, List.append_assoc, ih,
      List.append_assoc, List.singleton_append]

end LunaCore.Schemes
