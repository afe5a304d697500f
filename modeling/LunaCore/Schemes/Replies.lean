import Mathlib.Data.List.Basic
import Mathlib.Data.List.Count

/-! A conversation over a wire: what is asked is answered before anything else is said.

        say   ask a b   reply b   reply a   say         accepted
        say   ask a b   reply b   say                   refused: `a` still waits
        say   reply a                                   refused: nobody asked

    A reader of the wire keeps the ids that wait for a reply. Whether a batch of replies leaves it
    with none is a matter of counting: each id that waits once, and no other. -/

namespace LunaCore.Schemes

variable {ι α : Type*} [DecidableEq ι]

/-- What an entry of a wire is to the replies. -/
inductive Move (ι : Type*) where
  | say
  | ask (ids : List ι)
  | reply (id : ι)
  deriving DecidableEq

/-- One move, where the ids `waiting` are to be answered. -/
def follow (waiting : List ι) : Move ι → Option (List ι)
  | .say => if waiting = [] then some [] else none
  | .ask ids => some (waiting ++ ids)
  | .reply id => if id ∈ waiting then some (waiting.filter (· ≠ id)) else none

/-- The moves in order: what waits after them, or `none` where one is refused. -/
def follows (waiting : List ι) : List (Move ι) → Option (List ι)
  | [] => some waiting
  | move :: rest => (follow waiting move).bind fun left => follows left rest

/-- Nothing is refused, and nothing waits at the end. -/
def Replied (moves : List (Move ι)) : Prop := follows [] moves = some []

instance (moves : List (Move ι)) : Decidable (Replied moves) :=
  inferInstanceAs (Decidable (_ = _))

@[simp] theorem follows_nil (waiting : List ι) : follows waiting [] = some waiting := rfl

theorem follows_append (xs ys : List (Move ι)) (waiting : List ι) :
    follows waiting (xs ++ ys) = (follows waiting xs).bind fun left => follows left ys := by
  induction xs generalizing waiting with
  | nil => rfl
  | cons x xs ih =>
    rw [List.cons_append, follows, follows]
    cases follow waiting x with
    | none => rfl
    | some left => exact ih left

theorem follows_append_some {xs ys : List (Move ι)} {waiting left : List ι}
    (h : follows waiting xs = some left) : follows waiting (xs ++ ys) = follows left ys := by
  rw [follows_append, h, Option.bind_some]

@[simp] theorem follows_say (rest : List (Move ι)) :
    follows [] (.say :: rest) = follows [] rest := rfl

@[simp] theorem follows_ask (waiting ids : List ι) (rest : List (Move ι)) :
    follows waiting (.ask ids :: rest) = follows (waiting ++ ids) rest := rfl

/-- Asking one at a time is asking for all. -/
theorem follows_asks (as : List α) (key : α → ι) (waiting : List ι) :
    follows waiting (as.map fun a => .ask [key a]) = some (waiting ++ as.map key) := by
  induction as generalizing waiting with
  | nil => simp
  | cons a as ih => simp [ih]

/-- Where nothing waits, any amount of saying changes nothing. -/
theorem follows_talk {moves : List (Move ι)} (h : ∀ move ∈ moves, move = .say) :
    follows [] moves = some [] := by
  induction moves with
  | nil => rfl
  | cons move moves ih =>
    rw [h move List.mem_cons_self, follows_say]
    exact ih fun m hm => h m (List.mem_cons_of_mem _ hm)

/-- Replies leave nothing waiting just when each id that waits has one, and no other has any. -/
theorem follows_replies [BEq ι] [LawfulBEq ι] {results waiting : List ι} :
    follows waiting (results.map .reply) = some [] ↔
      (∀ id ∈ waiting, results.count id = 1) ∧ ∀ id ∈ results, id ∈ waiting := by
  induction results generalizing waiting with
  | nil => simp [List.eq_nil_iff_forall_not_mem]
  | cons r rest ih =>
    rw [List.map_cons, follows, follow]
    by_cases hr : r ∈ waiting
    case neg => simp [hr]
    rw [if_pos hr, Option.bind_some, ih]
    simp only [List.mem_filter, decide_eq_true_eq, and_imp, List.mem_cons, forall_eq_or_imp, hr,
      true_and, List.count_cons, beq_iff_eq]
    constructor
    · rintro ⟨hcount, hmem⟩
      refine ⟨fun id hid => ?_, fun id hid => (hmem id hid).1⟩
      by_cases hid' : r = id
      · subst hid'
        have hnone : rest.count r = 0 := List.count_eq_zero.mpr fun h => (hmem r h).2 rfl
        simp [hnone]
      · rw [if_neg hid', Nat.add_zero]
        exact hcount id hid (Ne.symm hid')
    · rintro ⟨hcount, hmem⟩
      refine ⟨fun id hid hne => ?_, fun id hid => ⟨hmem id hid, ?_⟩⟩
      · have h := hcount id hid
        rwa [if_neg (Ne.symm hne), Nat.add_zero] at h
      · rintro rfl
        have h := hcount id hr
        rw [if_pos rfl] at h
        have hpos := List.count_pos_iff.mpr hid
        omega

end LunaCore.Schemes
