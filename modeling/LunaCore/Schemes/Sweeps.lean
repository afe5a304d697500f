import Mathlib.Computability.Language
import Mathlib.Tactic.Common

/-! Words taken out of a text in sweeps, one after another.

        < a < b > c >      a word opens once, at its front, and closes once, at its end
        < a       c >      taking one out brings the pieces around it together

    Words of that shape never overlap, so a sweep takes out all of its own. What stands after all the
    sweeps is read off the text they were given: the letters of a word stand there spread out, with
    stretches between them that go before. -/

namespace LunaCore.Schemes
open Computability

variable {α : Type*}

/-! ### Words in brackets -/

/-- The letters that open a word and the letters that close one. -/
structure Brackets (α : Type*) where
  opens : α → Prop
  closes : α → Prop
  apart : ∀ a, opens a → ¬ closes a

namespace Brackets

variable (b : Brackets α)

/-- The rest of a word: nothing opens, and the last letter alone closes. -/
def Ends : List α → Prop
  | [] => False
  | [a] => b.closes a
  | a :: rest => ¬ b.opens a ∧ ¬ b.closes a ∧ Ends rest

/-- Opened by its first letter, closed by its last. -/
def Word : List α → Prop
  | [] => False
  | a :: rest => b.opens a ∧ b.Ends rest

variable {b}

theorem Ends.head {a : α} {rest : List α} (h : b.Ends (a :: rest)) : ¬ b.opens a := by
  cases rest with
  | nil => exact fun ha => b.apart a ha h
  | cons c rest => exact h.1

theorem Ends.tail {a c : α} {rest : List α} (h : b.Ends (a :: c :: rest)) : b.Ends (c :: rest) :=
  h.2.2

/-- Nothing opens behind the first letter. -/
theorem Ends.right {a : α} : ∀ (front : List α) {back : List α}, b.Ends (front ++ a :: back) →
    ¬ b.opens a
  | [], _, h => h.head
  | [_], _, h => Ends.right [] h.tail
  | _ :: c :: front, _, h => Ends.right (c :: front) h.tail

/-- Nothing closes before the last letter. -/
theorem Ends.left {a c : α} : ∀ (front : List α) {back : List α},
    b.Ends (front ++ a :: c :: back) → ¬ b.closes a
  | [], _, h => h.2.1
  | [_], _, h => Ends.left [] h.tail
  | _ :: d :: front, _, h => Ends.left (d :: front) h.tail

theorem Ends.closed {a : α} : ∀ (front : List α), b.Ends (front ++ [a]) → b.closes a
  | [], h => h
  | [_], h => Ends.closed [] h.tail
  | _ :: d :: front, h => Ends.closed (d :: front) h.tail

theorem Word.ne_nil {w : List α} (h : b.Word w) : w ≠ [] := by
  rintro rfl
  exact h

theorem Word.right {a c : α} {front back : List α} (h : b.Word (c :: front ++ a :: back)) :
    ¬ b.opens a :=
  h.2.right front

theorem Word.left {a c : α} {front back : List α} (h : b.Word (front ++ a :: c :: back)) :
    ¬ b.closes a := by
  cases front with
  | nil => exact b.apart a h.1
  | cons d front => exact h.2.left front

theorem Word.closed {a : α} {front : List α} (h : b.Word (front ++ [a])) : b.closes a := by
  cases front with
  | nil => exact h.2.elim
  | cons c front => exact h.2.closed front

end Brackets

/-! ### Letters with stretches between -/

/-- The letters of a word with a stretch behind each, as far as there are stretches. -/
def weave : List α → List (List α) → List α
  | [], _ => []
  | w, [] => w
  | a :: w, g :: gs => a :: (g ++ weave w gs)

@[simp] theorem weave_nil (w : List α) : weave w [] = w := by cases w <;> rfl

@[simp] theorem weave_cons (a : α) (w g : List α) (gs : List (List α)) :
    weave (a :: w) (g :: gs) = a :: (g ++ weave w gs) := rfl

theorem append_mem_star {l : Language α} {x y : List α} (hx : x ∈ l∗) (hy : y ∈ l∗) : x ++ y ∈ l∗ := by
  rw [← kstar_mul_kstar l]
  exact Language.append_mem_mul hx hy

theorem mem_star {l : Language α} {x : List α} (hx : x ∈ l) : x ∈ l∗ :=
  ⟨[x], (List.append_nil x).symm, List.forall_mem_singleton.mpr hx⟩

theorem star_mono {l m : Language α} (h : ∀ x ∈ l, x ∈ m) : ∀ x ∈ l∗, x ∈ m∗ := by
  rintro x ⟨xs, rfl, hxs⟩
  exact ⟨xs, rfl, fun y hy => h y (hxs y hy)⟩

/-- The texts in which a word stands spread out, every stretch between its letters being of `gaps`. -/
def spread (gaps : Language α) (w : List α) : Language α :=
  {text | ∃ gs : List (List α), gs.length < w.length ∧ (∀ g ∈ gs, g ∈ gaps) ∧ text = weave w gs}

theorem self_mem_spread (gaps : Language α) {w : List α} (h : w ≠ []) : w ∈ spread gaps w :=
  ⟨[], List.length_pos_iff.mpr h, fun _ hg => absurd hg List.not_mem_nil, (weave_nil w).symm⟩

theorem length_le_weave : ∀ {w : List α} {gs : List (List α)}, w.length ≤ (weave w gs).length
  | [], _ => Nat.zero_le _
  | a :: w, [] => le_of_eq (by rw [weave_nil])
  | a :: w, g :: gs => by
    have hrest : w.length ≤ (weave w gs).length := length_le_weave
    rw [weave_cons, List.length_cons, List.length_cons, List.length_append]
    omega

/-- A word stands spread as itself only without any stretch. -/
theorem gaps_of_weave_eq : ∀ {w : List α} {gs : List (List α)}, gs.length ≤ w.length →
    weave w gs = w → ∀ g ∈ gs, g = []
  | _, [], _, _ => fun _ hg => absurd hg List.not_mem_nil
  | a :: w, g :: gs, hlength, h => by
    rw [weave_cons, List.cons.injEq] at h
    have hsizes := congrArg List.length h.2
    rw [List.length_append] at hsizes
    have hg : g = [] := List.length_eq_zero_iff.mp (by
      have hrest : w.length ≤ (weave w gs).length := length_le_weave
      omega)
    rw [hg, List.nil_append] at h
    have hgs := gaps_of_weave_eq (Nat.le_of_succ_le_succ hlength) h.2
    intro g' hg'
    rcases List.mem_cons.mp hg' with heq | hmem
    · exact heq.trans hg
    · exact hgs g' hmem

theorem weave_of_gaps : ∀ {w : List α} {gs : List (List α)}, (∀ g ∈ gs, g = []) → weave w gs = w
  | [], _, _ => rfl
  | _ :: _, [], _ => rfl
  | a :: w, g :: gs, h => by
    rw [weave_cons, h g List.mem_cons_self, List.nil_append,
      weave_of_gaps fun g' hg' => h g' (List.mem_cons_of_mem g hg')]

/-! ### One sweep -/

theorem prefix_append_cases {w x y : List α} (h : w <+: x ++ y) :
    w <+: x ∨ ∃ back, w = x ++ back ∧ back <+: y := by
  rcases List.prefix_or_prefix_of_prefix h (List.prefix_append x y) with hpre | ⟨back, rfl⟩
  · exact Or.inl hpre
  · exact Or.inr ⟨back, rfl, (List.prefix_append_right_inj x).mp h⟩

/-- A sweep takes its words out of a text from the left; a letter at which none starts stays. -/
structure Sweep (b : Brackets α) where
  word : List α → Prop
  del : List α → List α
  bracketed : ∀ w, word w → b.Word w
  del_nil : del [] = []
  del_word : ∀ w text, word w → del (w ++ text) = del text
  del_letter : ∀ a text, (∀ w, word w → ¬ w <+: a :: text) → del (a :: text) = a :: del text

attribute [simp] Sweep.del_nil

namespace Sweep

variable {b : Brackets α} (q : Sweep b)

/-- SWEEP RULE: a text is empty, or a word and the rest, or a letter at which no word starts. -/
@[elab_as_elim]
theorem induction {motive : List α → Prop} (text : List α) (nil : motive [])
    (word : ∀ w text, q.word w → motive text → motive (w ++ text))
    (letter : ∀ a text, (∀ w, q.word w → ¬ w <+: a :: text) → motive text → motive (a :: text)) :
    motive text := by
  induction hn : text.length using Nat.strong_induction_on generalizing text with
  | _ n ih =>
    subst hn
    cases text with
    | nil => exact nil
    | cons a text =>
      by_cases hword : ∃ w, q.word w ∧ w <+: a :: text
      · obtain ⟨w, hw, rest, hrest⟩ := hword
        rw [← hrest]
        have hpos : 0 < w.length := List.length_pos_iff.mpr (q.bracketed w hw).ne_nil
        refine word w rest hw (ih rest.length ?_ rest rfl)
        rw [← hrest, List.length_append]
        exact Nat.lt_add_of_pos_left hpos
      · have hnone : ∀ w, q.word w → ¬ w <+: a :: text := fun w hw h => hword ⟨w, hw, h⟩
        exact letter a text hnone (ih text.length (Nat.lt_succ_self _) text rfl)

def words : Language α := {w | q.word w}

/-- No word reaches from `x` into `y`. -/
def Apart (x y : List α) : Prop :=
  ∀ front back, q.word (front ++ back) → front ≠ [] → back ≠ [] → front <:+ x → ¬ back <+: y

variable {q}

/-- FRAME: texts that no word reaches across are swept each on its own. -/
theorem del_append {x y : List α} (h : q.Apart x y) : q.del (x ++ y) = q.del x ++ q.del y := by
  induction x using q.induction with
  | nil => rw [q.del_nil, List.nil_append, List.nil_append]
  | word w text hw ih =>
    rw [List.append_assoc, q.del_word w _ hw, q.del_word w _ hw]
    exact ih fun front back hf hne hne' hs => h front back hf hne hne' (hs.trans (List.suffix_append w text))
  | letter a text hnone ih =>
    have hnone' : ∀ w, q.word w → ¬ w <+: a :: (text ++ y) := by
      intro w hw hpre
      rcases prefix_append_cases (x := a :: text) hpre with hpre | ⟨back, rfl, hback⟩
      · exact hnone w hw hpre
      · rcases eq_or_ne back [] with rfl | hne
        · exact hnone _ hw (by rw [List.append_nil])
        · exact h _ back hw (List.cons_ne_nil a text) hne List.suffix_rfl hback
    rw [List.cons_append, q.del_letter a _ hnone', q.del_letter a _ hnone, List.cons_append]
    exact congrArg _ (ih fun front back hf hne hne' hs =>
      h front back hf hne hne' (hs.trans (List.suffix_cons a text)))

/-- Behind a letter that closes no word goes on. -/
theorem del_append_closed {x : List α} (h : ∀ front a, x = front ++ [a] → b.closes a)
    (y : List α) : q.del (x ++ y) = q.del x ++ q.del y := by
  refine del_append fun front back hword hne hne' hs _ => ?_
  obtain ⟨init, a, rfl⟩ := (List.eq_nil_or_concat' front).resolve_left hne
  obtain ⟨c, back, rfl⟩ := List.exists_cons_of_ne_nil hne'
  obtain ⟨before, rfl⟩ := hs
  have hword' := q.bracketed _ hword
  rw [List.append_assoc, List.singleton_append] at hword'
  exact hword'.left (h (before ++ init) a (by rw [List.append_assoc]))

/-- A letter that opens is not inside a word that starts before it. -/
theorem del_append_opened (x : List α) {y : List α} (h : ∀ a back, y = a :: back → b.opens a) :
    q.del (x ++ y) = q.del x ++ q.del y := by
  refine del_append fun front back hword hne hne' _ hp => ?_
  obtain ⟨c, front, rfl⟩ := List.exists_cons_of_ne_nil hne
  obtain ⟨a, back, rfl⟩ := List.exists_cons_of_ne_nil hne'
  obtain ⟨rest, rfl⟩ := hp
  exact (q.bracketed _ hword).right (h a (back ++ rest) rfl)

/-- A letter of no word stays, and nothing reaches across it. -/
theorem del_wall (x : List α) {c : α} (h : ∀ w, q.word w → c ∉ w) (y : List α) :
    q.del (x ++ c :: y) = q.del x ++ c :: q.del y := by
  have hnone : ∀ w, q.word w → ¬ w <+: c :: y := by
    rintro w hw ⟨rest, hrest⟩
    obtain ⟨d, w, rfl⟩ := List.exists_cons_of_ne_nil (q.bracketed w hw).ne_nil
    obtain rfl := (List.cons.inj hrest).1
    exact h _ hw List.mem_cons_self
  rw [del_append, q.del_letter c y hnone]
  rintro front back hword - hne hs ⟨rest, hrest⟩
  obtain ⟨d, back, rfl⟩ := List.exists_cons_of_ne_nil hne
  obtain rfl := (List.cons.inj hrest).1
  exact h _ hword (List.mem_append_right front List.mem_cons_self)

/-- Where a letter of what is left comes from: no word starts at it. -/
theorem del_keep {text : List α} : ∀ {x y : List α} {c : α}, q.del text = x ++ c :: y →
    ∃ x' y', text = x' ++ c :: y' ∧ q.del x' = x ∧ q.del y' = y ∧
      ∀ w, q.word w → ¬ w <+: c :: y' := by
  induction text using q.induction with
  | nil =>
    intro x y c h
    rw [q.del_nil] at h
    exact absurd h.symm (List.append_ne_nil_of_right_ne_nil x (List.cons_ne_nil c y))
  | word w text hw ih =>
    intro x y c h
    rw [q.del_word w _ hw] at h
    obtain ⟨x', y', rfl, hx, hy, hnone⟩ := ih h
    exact ⟨w ++ x', y', (List.append_assoc ..).symm, by rw [q.del_word w _ hw, hx], hy, hnone⟩
  | letter a text hnone ih =>
    intro x y c h
    rw [q.del_letter a text hnone] at h
    cases x with
    | nil =>
      obtain ⟨rfl, rfl⟩ := List.cons.inj h
      exact ⟨[], text, rfl, q.del_nil, rfl, hnone⟩
    | cons d x =>
      obtain ⟨rfl, hrest⟩ := List.cons.inj h
      obtain ⟨x', y', rfl, hx, hy, hnone'⟩ := ih hrest
      refine ⟨a :: x', y', rfl, ?_, hy, hnone'⟩
      rw [q.del_letter a x' fun w hw hpre => hnone w hw (hpre.trans (List.prefix_append (a :: x') _)),
        hx]

/-- What goes without rest is one word behind the other. -/
theorem mem_kstar_of_del {text : List α} (h : q.del text = []) :
    text ∈ q.words∗ := by
  induction text using q.induction with
  | nil => exact Language.nil_mem_kstar _
  | word w text hw ih =>
    rw [q.del_word w _ hw] at h
    rw [← Language.one_add_self_mul_kstar_eq_kstar]
    exact Or.inr (Language.append_mem_mul hw (ih h))
  | letter a text hnone ih =>
    rw [q.del_letter a text hnone] at h
    exact absurd h (List.cons_ne_nil _ _)

/-- Letters are left out, and none is moved. -/
theorem del_sublist (text : List α) : (q.del text).Sublist text := by
  induction text using q.induction with
  | nil => rw [q.del_nil]
  | word w text hw ih =>
    rw [q.del_word w _ hw]
    exact ih.trans (List.sublist_append_right w text)
  | letter a text hnone ih =>
    rw [q.del_letter a text hnone]
    exact ih.cons_cons a

/-- A text without any of its words is left as it is, and no other. -/
theorem del_eq_self_iff {text : List α} : q.del text = text ↔ ∀ w, q.word w → ¬ w <:+: text := by
  constructor
  · rintro h w hw ⟨x, y, rfl⟩
    obtain ⟨o, w, rfl⟩ := List.exists_cons_of_ne_nil (q.bracketed w hw).ne_nil
    have hopened := del_append_opened (q := q) x (y := o :: w ++ y)
      fun a back heq => (List.cons.inj heq).1 ▸ (q.bracketed _ hw).1
    rw [List.append_assoc, hopened, q.del_word _ _ hw] at h
    have hlength := congrArg List.length h
    have hx := (del_sublist (q := q) x).length_le
    have hy := (del_sublist (q := q) y).length_le
    rw [List.length_append, List.length_append, List.length_append, List.length_cons] at hlength
    omega
  · induction text using q.induction with
    | nil => exact fun _ => q.del_nil
    | word w text hw ih =>
      intro h
      exact absurd (List.infix_append' [] w text) (h w hw)
    | letter a text hnone ih =>
      intro h
      rw [q.del_letter a text hnone, ih fun w hw hin => h w hw (hin.trans (List.suffix_cons a text).isInfix)]

/-- What stands behind a last word is not longer than what stands behind another. -/
theorem length_behind_le {x w y x' w' y' : List α} (hw : q.word w) (hw' : q.word w')
    (heq : x ++ (w ++ y) = x' ++ (w' ++ y')) (hlast : ∀ v, q.word v → ¬ v <:+: y') :
    y'.length ≤ y.length := by
  by_contra hlt
  have hy : y <:+ x ++ (w ++ y) := (List.suffix_append w y).trans (List.suffix_append x _)
  have hy' : y' <:+ x ++ (w ++ y) := by
    rw [heq]
    exact (List.suffix_append w' y').trans (List.suffix_append x' _)
  obtain ⟨z, rfl⟩ := List.suffix_of_suffix_length_le hy hy' (Nat.le_of_lt (not_le.mp hlt))
  have hz : z ≠ [] := by
    rintro rfl
    exact hlt le_rfl
  have hcut : x ++ w = x' ++ w' ++ z := by
    have hbehind : (x ++ w) ++ y = (x' ++ w' ++ z) ++ y := by
      simpa only [List.append_assoc] using heq
    exact List.append_cancel_right hbehind
  rcases List.suffix_or_suffix_of_suffix (List.suffix_append x w)
    (hcut ▸ List.suffix_append (x' ++ w') z) with hwz | ⟨u, rfl⟩
  · exact hlast w hw (hwz.isInfix.trans (List.infix_append' [] z y))
  · -- the other word would end inside this one
    rcases List.eq_nil_or_concat' u with rfl | ⟨init, a, rfl⟩
    · exact hlast z hw (List.infix_append' [] z y)
    · obtain ⟨c, z, rfl⟩ := List.exists_cons_of_ne_nil hz
      obtain ⟨init', a', rfl⟩ := (List.eq_nil_or_concat' w').resolve_left (q.bracketed w' hw').ne_nil
      have hends : (x ++ init) ++ [a] = (x' ++ init') ++ [a'] := by
        have hbehind : ((x ++ init) ++ [a]) ++ c :: z = ((x' ++ init') ++ [a']) ++ c :: z := by
          simpa only [List.append_assoc] using hcut
        exact List.append_cancel_right hbehind
      obtain rfl := List.singleton_inj.mp (List.append_inj' hends rfl).2
      have hword := q.bracketed _ hw
      rw [List.append_assoc, List.singleton_append] at hword
      exact hword.left (q.bracketed _ hw').closed

/-- There is one last word. -/
theorem behind_unique {x w y x' w' y' : List α} (hw : q.word w) (hw' : q.word w')
    (heq : x ++ (w ++ y) = x' ++ (w' ++ y')) (hlast : ∀ v, q.word v → ¬ v <:+: y)
    (hlast' : ∀ v, q.word v → ¬ v <:+: y') : y = y' := by
  have hlength := le_antisymm (length_behind_le hw' hw heq.symm hlast)
    (length_behind_le hw hw' heq hlast')
  rw [← List.append_assoc, ← List.append_assoc] at heq
  exact (List.append_inj' heq hlength).2

/-- No word starts at a letter that does not open. -/
theorem none_of_not_opens {a : α} (h : ¬ b.opens a) (text : List α) :
    ∀ w, q.word w → ¬ w <+: a :: text := by
  rintro w hw ⟨rest, hrest⟩
  have hword := q.bracketed w hw
  obtain ⟨o, w, rfl⟩ := List.exists_cons_of_ne_nil hword.ne_nil
  obtain rfl := (List.cons.inj hrest).1
  exact h hword.1

end Sweep

/-! ### Stretches that are whole -/

/-- Words spread out, one behind the other, the stretches in them being whole again. -/
inductive Brackets.Shut (b : Brackets α) : List α → Prop
  | nil : Shut b []
  | group {w : List α} {gs : List (List α)} {rest : List α} (hword : b.Word w)
      (hlength : gs.length < w.length) (hgs : ∀ g ∈ gs, Shut b g) (hrest : Shut b rest) :
      Shut b (weave w gs ++ rest)

variable {b : Brackets α}

theorem weave_head (a : α) (w : List α) (gs : List (List α)) :
    ∃ rest, weave (a :: w) gs = a :: rest := by
  cases gs with
  | nil => exact ⟨w, rfl⟩
  | cons g gs => exact ⟨_, rfl⟩

theorem weave_last : ∀ {w : List α} {gs : List (List α)}, b.Ends w → gs.length < w.length →
    ∃ front a, weave w gs = front ++ [a] ∧ b.closes a
  | [a], [], h, _ => ⟨[], a, rfl, h⟩
  | a :: c :: w, [], h, _ => by
    have hlast : ∃ front d, weave (c :: w) [] = front ++ [d] ∧ b.closes d :=
      weave_last h.tail (Nat.succ_pos _)
    obtain ⟨front, d, heq, hd⟩ := hlast
    rw [weave_nil] at heq
    exact ⟨a :: front, d, by rw [weave_nil, heq]; rfl, hd⟩
  | [_], _ :: _, _, hlength => absurd hlength (by simp)
  | a :: c :: w, g :: gs, h, hlength => by
    obtain ⟨front, d, heq, hd⟩ := weave_last h.tail (Nat.lt_of_succ_lt_succ hlength)
    exact ⟨a :: (g ++ front), d, by rw [weave_cons, heq, List.cons_append, List.append_assoc], hd⟩

namespace Brackets

theorem Word.weave_opened {w : List α} (h : b.Word w) (gs : List (List α)) (y : List α) :
    ∀ a back, weave w gs ++ y = a :: back → b.opens a := by
  obtain ⟨o, w, rfl⟩ := List.exists_cons_of_ne_nil h.ne_nil
  obtain ⟨rest, hrest⟩ := weave_head o w gs
  rintro a back heq
  rw [hrest, List.cons_append] at heq
  exact (List.cons.inj heq).1 ▸ h.1

theorem Word.weave_closed {w : List α} (h : b.Word w) {gs : List (List α)}
    (hlength : gs.length < w.length) : ∀ front a, weave w gs = front ++ [a] → b.closes a := by
  have hlast : ∃ front a, weave w gs = front ++ [a] ∧ b.closes a := by
    obtain ⟨o, w, rfl⟩ := List.exists_cons_of_ne_nil h.ne_nil
    cases gs with
    | nil =>
      have hlast : ∃ front a, weave w [] = front ++ [a] ∧ b.closes a :=
        weave_last h.2 (List.length_pos_iff.mpr fun hw => by rw [hw] at h; exact h.2)
      obtain ⟨front, a, heq, ha⟩ := hlast
      rw [weave_nil] at heq
      exact ⟨o :: front, a, by rw [weave_nil, heq]; rfl, ha⟩
    | cons g gs =>
      obtain ⟨front, a, heq, ha⟩ := weave_last h.2 (Nat.lt_of_succ_lt_succ hlength)
      exact ⟨o :: (g ++ front), a, by rw [weave_cons, heq, List.cons_append, List.append_assoc], ha⟩
  obtain ⟨front, a, heq, ha⟩ := hlast
  intro front' a' heq'
  rw [heq] at heq'
  exact (List.append_inj' heq' rfl).2 |> List.singleton_inj.mp |> (· ▸ ha)

theorem Shut.opened {g : List α} (h : b.Shut g) : ∀ a back, g = a :: back → b.opens a := by
  cases h with
  | nil => exact fun a back heq => absurd heq.symm (List.cons_ne_nil a back)
  | group hword hlength hgs hrest => exact hword.weave_opened _ _

theorem Shut.closed {g : List α} (h : b.Shut g) : ∀ front a, g = front ++ [a] → b.closes a := by
  induction h with
  | nil =>
    intro front a heq
    exact absurd heq.symm (List.append_ne_nil_of_right_ne_nil front (List.cons_ne_nil a []))
  | @group w gs rest hword hlength hgs hrest _ ih =>
    intro front a heq
    rcases List.eq_nil_or_concat' rest with rfl | ⟨init, c, rfl⟩
    · rw [List.append_nil] at heq
      exact hword.weave_closed hlength front a heq
    · rw [← List.append_assoc] at heq
      obtain rfl := List.singleton_inj.mp (List.append_inj' heq rfl).2
      exact ih init c rfl

theorem Shut.append {g g' : List α} (h : b.Shut g) (h' : b.Shut g') : b.Shut (g ++ g') := by
  induction h with
  | nil => exact h'
  | group hword hlength hgs hrest _ ih =>
    rw [List.append_assoc]
    exact .group hword hlength hgs ih

theorem Word.shut_weave {w : List α} (h : b.Word w) {gs : List (List α)}
    (hlength : gs.length < w.length) (hgs : ∀ g ∈ gs, b.Shut g) : b.Shut (weave w gs) := by
  have hgroup := Shut.group h hlength hgs .nil
  rwa [List.append_nil] at hgroup

theorem Ends.not_opens {w : List α} (h : b.Ends w) {a : α} (ha : a ∈ w) : ¬ b.opens a := by
  obtain ⟨front, back, rfl⟩ := List.append_of_mem ha
  exact h.right front

theorem Ends.exists_cons {w : List α} (h : b.Ends w) : ∃ a rest, w = a :: rest := by
  cases w with
  | nil => exact h.elim
  | cons a rest => exact ⟨a, rest, rfl⟩

/-- Where a letter goes on that does not open, there is no stretch. -/
theorem Shut.eq_nil_of_prefix {g : List α} (h : b.Shut g) {e : α} {t y : List α} (he : ¬ b.opens e)
    (hpre : e :: t <+: g ++ y) : g = [] := by
  cases g with
  | nil => rfl
  | cons o g =>
    rw [List.cons_append, List.cons_prefix_cons] at hpre
    obtain rfl := hpre.1
    exact absurd (h.opened e g rfl) he

/-- The letters behind the first of a spread word go on without a stretch, if none of them opens. -/
theorem prefix_weave_cons {a c e : α} {t w y : List α} {gs : List (List α)} (he : ¬ b.opens e)
    (hgs : ∀ g ∈ gs, b.Shut g) (hlength : gs.length < (c :: w).length) (hw : w ≠ [])
    (h : a :: e :: t <+: weave (c :: w) gs ++ y) :
    a = c ∧ ∃ gs', (∀ g ∈ gs', b.Shut g) ∧ gs'.length < w.length ∧
      weave (c :: w) gs = c :: weave w gs' ∧ e :: t <+: weave w gs' ++ y := by
  cases gs with
  | nil =>
    rw [weave_nil, List.cons_append, List.cons_prefix_cons] at h
    exact ⟨h.1, [], List.forall_mem_nil _, List.length_pos_iff.mpr hw, by rw [weave_nil, weave_nil],
      by rw [weave_nil]; exact h.2⟩
  | cons g gs =>
    obtain ⟨hg, hrest⟩ := List.forall_mem_cons.mp hgs
    rw [weave_cons, List.cons_append, List.cons_prefix_cons, List.append_assoc] at h
    obtain rfl := hg.eq_nil_of_prefix he h.2
    exact ⟨h.1, gs, hrest, Nat.lt_of_succ_lt_succ hlength, weave_cons .., h.2⟩

/-- A letter and what ends a word in front of a spread word: that word, without any stretch. -/
theorem Ends.prefix_weave : ∀ {t w : List α} {a c : α} {gs : List (List α)} {y : List α}, b.Ends t →
    b.Ends w → (∀ g ∈ gs, b.Shut g) → gs.length < (c :: w).length →
    a :: t <+: weave (c :: w) gs ++ y → a :: t = c :: w ∧ weave (c :: w) gs = c :: w
  | [], _, _, _, _, _, ht, _, _, _, _ => ht.elim
  | e :: t, w, a, c, gs, y, ht, hw, hgs, hlength, h => by
    obtain ⟨d, w, rfl⟩ := hw.exists_cons
    obtain ⟨rfl, gs', hgs', hlength', hweave, hrest⟩ :=
      prefix_weave_cons ht.head hgs hlength (List.cons_ne_nil d w) h
    have htail : e :: t = d :: w ∧ weave (d :: w) gs' = d :: w := by
      obtain ⟨rest, hhead⟩ := weave_head d w gs'
      have hed : e = d := by
        rw [hhead, List.cons_append, List.cons_prefix_cons] at hrest
        exact hrest.1
      subst hed
      cases t with
      | nil =>
        cases w with
        | nil =>
          obtain rfl : gs' = [] := List.length_eq_zero_iff.mp (Nat.lt_one_iff.mp hlength')
          exact ⟨rfl, rfl⟩
        | cons d w => exact absurd ht hw.2.1
      | cons e' t =>
        cases w with
        | nil => exact absurd hw ht.2.1
        | cons d w => exact Ends.prefix_weave ht.tail hw.tail hgs' hlength' hrest
    exact ⟨congrArg _ htail.1, by rw [hweave, htail.2]⟩

/-- A word in front of a spread one is that one, without any stretch. -/
theorem Word.prefix_weave {t w : List α} {gs : List (List α)} {y : List α} (ht : b.Word t)
    (hw : b.Word w) (hgs : ∀ g ∈ gs, b.Shut g) (hlength : gs.length < w.length)
    (h : t <+: weave w gs ++ y) : t = w ∧ weave w gs = w := by
  obtain ⟨a, t, rfl⟩ := List.exists_cons_of_ne_nil ht.ne_nil
  obtain ⟨c, w, rfl⟩ := List.exists_cons_of_ne_nil hw.ne_nil
  exact ht.2.prefix_weave hw.2 hgs hlength h

end Brackets

namespace Sweep

variable {q : Sweep b}

/-- Letters that do not open stay, and the stretches between them are swept each on its own. -/
theorem del_weave_rest : ∀ {w : List α} {gs : List (List α)} (y : List α), (∀ a ∈ w, ¬ b.opens a) →
    (∀ g ∈ gs, b.Shut g) → gs.length ≤ w.length →
    q.del (weave w gs ++ y) = weave w (gs.map q.del) ++ q.del y
  | [], [], _, _, _, _ => rfl
  | a :: w, [], y, hw, hgs, _ => by
    have hrest : q.del (weave w [] ++ y) = weave w [] ++ q.del y :=
      del_weave_rest y (fun c hc => hw c (List.mem_cons_of_mem a hc)) hgs (Nat.zero_le _)
    rw [weave_nil] at hrest
    rw [List.map_nil, weave_nil]
    rw [List.cons_append, q.del_letter a _ (none_of_not_opens (hw a List.mem_cons_self) _), hrest,
      List.cons_append]
  | a :: w, g :: gs, y, hw, hgs, hlength => by
    have hrest := del_weave_rest y (fun c hc => hw c (List.mem_cons_of_mem a hc))
      (fun g' hg' => hgs g' (List.mem_cons_of_mem g hg')) (Nat.le_of_succ_le_succ hlength)
    rw [weave_cons, List.cons_append,
      q.del_letter a _ (none_of_not_opens (hw a List.mem_cons_self) _), List.append_assoc,
      del_append_closed (hgs g List.mem_cons_self).closed, hrest, List.map_cons, weave_cons,
      List.cons_append, List.append_assoc]

/-- A spread word stays unless it is one of the sweep's and has no stretch. -/
theorem del_weave {w : List α} (hw : b.Word w) {gs : List (List α)} (hgs : ∀ g ∈ gs, b.Shut g)
    (hlength : gs.length < w.length) (h : ¬ (q.word w ∧ weave w gs = w)) :
    q.del (weave w gs) = weave w (gs.map q.del) := by
  have hnone : ∀ t, q.word t → ¬ t <+: weave w gs := by
    intro t ht hpre
    obtain ⟨rfl, hself⟩ := (q.bracketed t ht).prefix_weave hw hgs hlength
      (hpre.trans (List.prefix_append _ []))
    exact h ⟨ht, hself⟩
  obtain ⟨o, w, rfl⟩ := List.exists_cons_of_ne_nil hw.ne_nil
  have hrest : ∀ {gs' : List (List α)}, (∀ g ∈ gs', b.Shut g) → gs'.length ≤ w.length →
      q.del (weave w gs') = weave w (gs'.map q.del) := by
    intro gs' hgs' hlength'
    have hdel := del_weave_rest (q := q) [] (fun c hc => hw.2.not_opens hc) hgs' hlength'
    rwa [List.append_nil, q.del_nil, List.append_nil] at hdel
  cases gs with
  | nil =>
    have hdel : q.del (weave w []) = weave w [] :=
      hrest (fun _ hg => absurd hg List.not_mem_nil) (Nat.zero_le _)
    rw [weave_nil] at hdel hnone
    rw [List.map_nil, weave_nil]
    rw [q.del_letter o w hnone, hdel]
  | cons g gs =>
    rw [weave_cons] at hnone ⊢
    rw [q.del_letter o _ hnone, del_append_closed (hgs g List.mem_cons_self).closed,
      hrest (fun g' hg' => hgs g' (List.mem_cons_of_mem g hg')) (Nat.lt_of_succ_lt_succ hlength).le,
      List.map_cons, weave_cons]

/-- STEP: a sweep leaves a whole stretch whole. -/
theorem shut_del {g : List α} (h : b.Shut g) : b.Shut (q.del g) := by
  induction h with
  | nil => rw [q.del_nil]; exact .nil
  | @group w gs rest hw hlength hgs hrest ihgs ih =>
    rw [del_append_closed (hw.weave_closed hlength)]
    by_cases hself : q.word w ∧ weave w gs = w
    · have hnil := q.del_word w [] hself.1
      rw [List.append_nil, q.del_nil] at hnil
      rw [hself.2, hnil]
      exact ih
    · rw [del_weave hw hgs hlength hself]
      refine (hw.shut_weave ?_ ?_).append ih
      · rw [List.length_map]
        exact hlength
      · intro g' hg'
        obtain ⟨g, hg, rfl⟩ := List.mem_map.mp hg'
        exact ihgs g hg

end Sweep

/-! ### Sweep after sweep -/

/-- What is left of a text; the last sweep stands first in the list. -/
def after : List (Sweep b) → List α → List α
  | [], text => text
  | q :: earlier, text => q.del (after earlier text)

/-- A word of the sweep, spread out between such stretches. -/
def goesIn (q : Sweep b) (gaps : Language α) : Language α :=
  {text | ∃ w, q.word w ∧ text ∈ spread gaps∗ w}

/-- The stretches that go as one word each: a word of a sweep, spread out between stretches that go
    in the sweeps before. -/
def goes : List (Sweep b) → Language α
  | [] => 0
  | q :: earlier => goes earlier + goesIn q (goes earlier)

/-- No word is one of two sweeps. -/
def Distinct (sweeps : List (Sweep b)) : Prop :=
  sweeps.Pairwise fun q p => ∀ w, q.word w → ¬ p.word w

variable {sweeps : List (Sweep b)}

@[simp] theorem after_nil : ∀ sweeps : List (Sweep b), after sweeps [] = []
  | [] => rfl
  | q :: earlier => by rw [after, after_nil earlier, q.del_nil]

theorem shut_after {g : List α} (h : b.Shut g) : ∀ sweeps : List (Sweep b), b.Shut (after sweeps g)
  | [] => h
  | _ :: earlier => Sweep.shut_del (shut_after h earlier)

/-- FRAME: a whole stretch is swept on its own, and so is what stands behind it. -/
theorem after_shut_append {g : List α} (h : b.Shut g) (y : List α) : ∀ sweeps : List (Sweep b),
    after sweeps (g ++ y) = after sweeps g ++ after sweeps y
  | [] => rfl
  | q :: earlier => by
    rw [after, after_shut_append h y earlier, Sweep.del_append_closed (shut_after h earlier).closed]
    rfl

/-- FRAME: … and so is what stands before it, as long as something of it is left between. -/
theorem after_around (x : List α) {g : List α} (h : b.Shut g) (y : List α) :
    ∀ {sweeps : List (Sweep b)}, after sweeps g ≠ [] →
    after sweeps (x ++ (g ++ y)) = after sweeps x ++ (after sweeps g ++ after sweeps y)
  | [], _ => rfl
  | q :: earlier, hne => by
    have hshut := shut_after h earlier
    have hne' : after earlier g ≠ [] := by
      intro hnil
      rw [after, hnil, q.del_nil] at hne
      exact hne rfl
    obtain ⟨a, rest, hrest⟩ := List.exists_cons_of_ne_nil hne'
    rw [after, after_around x h y hne', Sweep.del_append_opened, Sweep.del_append_closed hshut.closed]
    · rfl
    · intro a' back heq
      rw [hrest, List.cons_append] at heq
      exact (List.cons.inj heq).1 ▸ hshut.opened a rest hrest

/-- A letter of no word stays, and parts the text. -/
theorem after_wall (x : List α) {c : α} (y : List α) : ∀ {sweeps : List (Sweep b)},
    (∀ q ∈ sweeps, ∀ w, q.word w → c ∉ w) →
    after sweeps (x ++ c :: y) = after sweeps x ++ c :: after sweeps y
  | [], _ => rfl
  | q :: earlier, h => by
    rw [after, after_wall x y fun p hp => h p (List.mem_cons_of_mem q hp),
      Sweep.del_wall _ (h q List.mem_cons_self)]
    rfl

theorem after_sublist (text : List α) : ∀ sweeps : List (Sweep b),
    (after sweeps text).Sublist text
  | [] => .refl text
  | _ :: earlier => (Sweep.del_sublist _).trans (after_sublist text earlier)

/-- Nothing is taken out of a text just when it holds no word of any sweep. -/
theorem after_eq_self_iff {text : List α} : ∀ {sweeps : List (Sweep b)},
    after sweeps text = text ↔ ∀ q ∈ sweeps, ∀ w, q.word w → ¬ w <:+: text
  | [] => ⟨fun _ _ hq => absurd hq List.not_mem_nil, fun _ => rfl⟩
  | q :: earlier => by
    rw [List.forall_mem_cons, ← after_eq_self_iff, ← Sweep.del_eq_self_iff, after]
    constructor
    · intro h
      have hback : text.Sublist (after earlier text) := by
        have hdel := Sweep.del_sublist (q := q) (after earlier text)
        rwa [h] at hdel
      have hself := (after_sublist text earlier).antisymm hback
      rw [hself] at h
      exact ⟨h, hself⟩
    · rintro ⟨hq, hearlier⟩
      rw [hearlier, hq]

/-! ### What goes -/

theorem goes_cons_of_goes (q : Sweep b) {earlier : List (Sweep b)} {v : List α}
    (h : v ∈ goes earlier) : v ∈ goes (q :: earlier) :=
  (Language.mem_add _ _ _).mpr (Or.inl h)

theorem goes_of_spread {q : Sweep b} {earlier : List (Sweep b)} {w : List α} (hw : q.word w)
    {v : List α} (h : v ∈ spread (goes earlier)∗ w) : v ∈ goes (q :: earlier) :=
  (Language.mem_add _ _ _).mpr (Or.inr ⟨w, hw, h⟩)

theorem shut_of_star {l : Language α} (h : ∀ g ∈ l, b.Shut g) : ∀ g ∈ l∗, b.Shut g := by
  rintro g ⟨gs, rfl, hgs⟩
  induction gs with
  | nil => exact .nil
  | cons g gs ih =>
    rw [List.flatten_cons]
    exact (h g (hgs g List.mem_cons_self)).append (ih fun g' hg' => hgs g' (List.mem_cons_of_mem g hg'))

/-- What goes is whole. -/
theorem shut_of_goes : ∀ {sweeps : List (Sweep b)}, ∀ g ∈ goes sweeps, b.Shut g
  | [], _, hg => hg.elim
  | q :: earlier, g, hg => by
    rcases (Language.mem_add _ _ _).mp hg with hg | ⟨w, hw, gs, hlength, hgs, rfl⟩
    · exact shut_of_goes g hg
    · exact (q.bracketed w hw).shut_weave hlength
        fun g' hg' => shut_of_star (l := goes earlier) shut_of_goes g' (hgs g' hg')

theorem shut_of_goes_star {g : List α} (h : g ∈ (goes sweeps)∗) : b.Shut g :=
  shut_of_star shut_of_goes g h

/-- A spread word of no sweep stays, its stretches swept each on its own. -/
theorem after_weave {w : List α} (hw : b.Word w) {gs : List (List α)} (hgs : ∀ g ∈ gs, b.Shut g)
    (hlength : gs.length < w.length) : ∀ {sweeps : List (Sweep b)}, (∀ q ∈ sweeps, ¬ q.word w) →
    after sweeps (weave w gs) = weave w (gs.map (after sweeps))
  | [], _ => by rw [show after ([] : List (Sweep b)) = id from rfl, List.map_id]; rfl
  | q :: earlier, h => by
    have hgs' : ∀ g ∈ gs.map (after earlier), b.Shut g := by
      intro g' hg'
      obtain ⟨g, hg, rfl⟩ := List.mem_map.mp hg'
      exact shut_after (hgs g hg) earlier
    rw [after, after_weave hw hgs hlength fun p hp => h p (List.mem_cons_of_mem q hp),
      Sweep.del_weave hw hgs' (by rwa [List.length_map]) fun hself => h q List.mem_cons_self hself.1,
      List.map_map]
    rfl

theorem after_star {l : Language α} (hshut : ∀ g ∈ l, b.Shut g)
    (h : ∀ g ∈ l, after sweeps g = []) : ∀ g ∈ l∗, after sweeps g = [] := by
  rintro g ⟨gs, rfl, hgs⟩
  induction gs with
  | nil => exact after_nil sweeps
  | cons g gs ih =>
    have hg := hgs g List.mem_cons_self
    rw [List.flatten_cons, after_shut_append (hshut g hg), h g hg,
      ih fun g' hg' => hgs g' (List.mem_cons_of_mem g hg')]
    rfl

theorem map_after_eq_nil {gs : List (List α)} (h : ∀ g ∈ gs, after sweeps g = []) :
    ∀ g ∈ gs.map (after sweeps), g = [] := by
  intro g' hg'
  obtain ⟨g, hg, rfl⟩ := List.mem_map.mp hg'
  exact h g hg

/-- What goes leaves nothing. -/
theorem after_goes : ∀ {sweeps : List (Sweep b)}, Distinct sweeps →
    ∀ g ∈ goes sweeps, after sweeps g = []
  | [], _, _, hg => hg.elim
  | q :: earlier, hsweeps, g, hg => by
    obtain ⟨hq, hearlier⟩ := List.pairwise_cons.mp hsweeps
    have hgoes := after_goes hearlier
    rcases (Language.mem_add _ _ _).mp hg with hg | ⟨w, hw, gs, hlength, hgs, rfl⟩
    · rw [after, hgoes g hg, q.del_nil]
    · have hgone := map_after_eq_nil fun g hg => after_star shut_of_goes hgoes g (hgs g hg)
      have hself := q.del_word w [] hw
      rw [List.append_nil, q.del_nil] at hself
      rw [after, after_weave (q.bracketed w hw) (fun g hg => shut_of_goes_star (hgs g hg)) hlength
        fun p hp => hq p hp w hw, weave_of_gaps hgone, hself]

theorem after_goes_star (hsweeps : Distinct sweeps) {g : List α} (h : g ∈ (goes sweeps)∗) :
    after sweeps g = [] :=
  after_star shut_of_goes (after_goes hsweeps) g h

/-- A word that stands spread out between stretches that go is left, when it is none of the sweeps'. -/
theorem after_spread (hsweeps : Distinct sweeps) {w text : List α} (hw : b.Word w)
    (hnone : ∀ q ∈ sweeps, ¬ q.word w) (h : text ∈ spread (goes sweeps)∗ w) :
    after sweeps text = w := by
  obtain ⟨gs, hlength, hgs, rfl⟩ := h
  rw [after_weave hw (fun g hg => shut_of_goes_star (hgs g hg)) hlength hnone,
    weave_of_gaps (map_after_eq_nil fun g hg => after_goes_star hsweeps (hgs g hg))]

/-- What goes ahead of everything else starts with one stretch that goes. -/
theorem exists_prefix_of_star {l : Language α} {g : List α} (h : g ∈ l∗) (hne : g ≠ []) :
    ∃ v ∈ l, v <+: g := by
  obtain ⟨vs, rfl, hvs⟩ := Language.mem_kstar_iff_exists_nonempty.mp h
  cases vs with
  | nil => exact absurd rfl hne
  | cons v vs => exact ⟨v, (hvs v List.mem_cons_self).1, by
      rw [List.flatten_cons]; exact List.prefix_append v _⟩

/-- ORIGIN: where a letter of what is left stood, no stretch that goes starts. -/
theorem after_keep : ∀ {sweeps : List (Sweep b)}, Distinct sweeps → ∀ {text x y : List α} {c : α},
    after sweeps text = x ++ c :: y → ∃ x' y', text = x' ++ c :: y' ∧ after sweeps x' = x ∧
      after sweeps y' = y ∧ after sweeps (c :: y') = c :: y ∧ ∀ v ∈ goes sweeps, ¬ v <+: c :: y'
  | [], _, _, x, y, _, h => ⟨x, y, h, rfl, rfl, rfl, fun _ hv => hv.elim⟩
  | q :: earlier, hsweeps, text, x, y, c, h => by
    obtain ⟨hq, hearlier⟩ := List.pairwise_cons.mp hsweeps
    obtain ⟨x₁, y₁, htext, hx, hy, hnone⟩ := Sweep.del_keep h
    obtain ⟨x', y', rfl, hx', hy', hc, hgoes⟩ := after_keep hearlier htext
    refine ⟨x', y', rfl, by rw [after, hx', hx], by rw [after, hy', hy], ?_, ?_⟩
    · rw [after, hc, q.del_letter c y₁ hnone, hy]
    · rintro v hv ⟨rest, hrest⟩
      rcases (Language.mem_add _ _ _).mp hv with hv | ⟨w, hw, hspread⟩
      · exact hgoes v hv ⟨rest, hrest⟩
      · -- behind its stretches the word would stand in front of the letter
        have hshut : b.Shut v := shut_of_goes v hv
        rw [← hrest, after_shut_append hshut,
          after_spread hearlier (q.bracketed w hw) (fun p hp => hq p hp w hw) hspread] at hc
        exact hnone w hw ⟨after earlier rest, hc⟩

/-- What is left in two parts comes from two parts. -/
theorem after_split (hsweeps : Distinct sweeps) {text x y : List α}
    (h : after sweeps text = x ++ y) :
    ∃ x' y', text = x' ++ y' ∧ after sweeps x' = x ∧ after sweeps y' = y := by
  cases y with
  | nil => exact ⟨text, [], (List.append_nil text).symm, by rw [h, List.append_nil], after_nil _⟩
  | cons c y =>
    obtain ⟨x', y', htext, hx, -, hc, -⟩ := after_keep hsweeps h
    exact ⟨x', c :: y', htext, hx, hc⟩

/-- Around a word that is left stands what goes. -/
theorem spread_of_after (hsweeps : Distinct sweeps)
    (hnil : ∀ g, after sweeps g = [] → g ∈ (goes sweeps)∗) :
    ∀ {w text : List α}, w ≠ [] → after sweeps text = w → ∃ front body back,
      text = front ++ (body ++ back) ∧ front ∈ (goes sweeps)∗ ∧ body ∈ spread (goes sweeps)∗ w ∧
        back ∈ (goes sweeps)∗
  | [], _, hne, _ => absurd rfl hne
  | [c], text, _, h => by
    obtain ⟨x, y, rfl, hx, hy, -, -⟩ := after_keep hsweeps (x := []) h
    exact ⟨x, [c], y, rfl, hnil x hx, self_mem_spread _ (List.cons_ne_nil c []), hnil y hy⟩
  | c :: d :: w, text, _, h => by
    obtain ⟨x, y, rfl, hx, hy, -, -⟩ := after_keep hsweeps (x := []) h
    obtain ⟨front, body, back, rfl, hfront, ⟨gs, hlength, hgs, rfl⟩, hback⟩ :=
      spread_of_after hsweeps hnil (List.cons_ne_nil d w) hy
    refine ⟨x, c :: (front ++ weave (d :: w) gs), back, ?_, hnil x hx,
      ⟨front :: gs, Nat.succ_lt_succ hlength, ?_, rfl⟩, hback⟩
    · rw [List.cons_append, List.append_assoc]
    · exact List.forall_mem_cons.mpr ⟨hfront, hgs⟩

/-- What leaves nothing is one stretch that goes behind the other. -/
theorem goes_of_after : ∀ {sweeps : List (Sweep b)}, Distinct sweeps → ∀ {text : List α},
    after sweeps text = [] → text ∈ (goes sweeps)∗
  | [], _, text, h => by
    obtain rfl : text = [] := h
    exact Language.nil_mem_kstar _
  | q :: earlier, hsweeps, text, h => by
    obtain ⟨-, hearlier⟩ := List.pairwise_cons.mp hsweeps
    have hle : ∀ v ∈ (goes earlier)∗, v ∈ (goes (q :: earlier))∗ :=
      star_mono fun v hv => goes_cons_of_goes q hv
    obtain ⟨ws, hws, hwords⟩ := Sweep.mem_kstar_of_del h
    clear h
    induction ws generalizing text with
    | nil => exact hle _ (goes_of_after hearlier hws)
    | cons w ws ih =>
      have hw : q.word w := hwords w List.mem_cons_self
      rw [List.flatten_cons] at hws
      obtain ⟨x, y, rfl, hx, hy⟩ := after_split hearlier hws
      obtain ⟨front, body, back, rfl, hfront, hbody, hback⟩ := spread_of_after hearlier
        (fun g hg => goes_of_after hearlier hg) (q.bracketed w hw).ne_nil hx
      have hrest := ih y hy fun w' hw' => hwords w' (List.mem_cons_of_mem w hw')
      have hbody' : body ∈ (goes (q :: earlier))∗ := mem_star (goes_of_spread hw hbody)
      exact append_mem_star (append_mem_star (hle _ hfront)
        (append_mem_star hbody' (hle _ hback))) hrest

/-! ### What is left -/

/-- A word of one sweep, spread out between whole stretches: it goes, or its letters stay. -/
theorem goes_or_after {w : List α} {gs : List (List α)} (hgs : ∀ g ∈ gs, b.Shut g)
    (hlength : gs.length < w.length) : ∀ {sweeps : List (Sweep b)}, Distinct sweeps →
    ∀ q ∈ sweeps, q.word w → weave w gs ∈ goes sweeps ∨
      after sweeps (weave w gs) = weave w (gs.map (after sweeps))
  | [], _, _, hq, _ => absurd hq List.not_mem_nil
  | p :: earlier, hsweeps, q, hq, hw => by
    obtain ⟨hp, hearlier⟩ := List.pairwise_cons.mp hsweeps
    have hword := q.bracketed w hw
    have hgs' : ∀ g ∈ gs.map (after earlier), b.Shut g := by
      intro g' hg'
      obtain ⟨g, hg, rfl⟩ := List.mem_map.mp hg'
      exact shut_after (hgs g hg) earlier
    have hstays : after earlier (weave w gs) = weave w (gs.map (after earlier)) →
        ¬ (p.word w ∧ weave w (gs.map (after earlier)) = w) →
        after (p :: earlier) (weave w gs) = weave w (gs.map (after (p :: earlier))) := by
      intro hafter hnot
      rw [after, hafter, Sweep.del_weave hword hgs' (by rwa [List.length_map]) hnot, List.map_map]
      rfl
    rcases List.mem_cons.mp hq with rfl | hq
    · have hafter := after_weave hword hgs hlength fun p' hp' => hp p' hp' w hw
      by_cases hself : weave w (gs.map (after earlier)) = w
      · left
        refine goes_of_spread hw ⟨gs, hlength, fun g hg => goes_of_after hearlier ?_, rfl⟩
        exact gaps_of_weave_eq (by rw [List.length_map]; exact hlength.le) hself _
          (List.mem_map_of_mem hg)
      · exact Or.inr (hstays hafter fun hnot => hself hnot.2)
    · rcases goes_or_after hgs hlength hearlier q hq hw with hgoes | hafter
      · exact Or.inl (goes_cons_of_goes p hgoes)
      · exact Or.inr (hstays hafter fun hnot => hp q hq w hnot.1 hw)

/-- EXACT CONDITION: no word is left just when every word that stands spread out between stretches
    that go is one that goes itself. -/
theorem after_clear_iff (hsweeps : Distinct sweeps) {text : List α} :
    (∀ q ∈ sweeps, ∀ w, q.word w → ¬ w <:+: after sweeps text) ↔
      ∀ q ∈ sweeps, ∀ w body, q.word w → body <:+: text → body ∈ spread (goes sweeps)∗ w →
        body ∈ goes sweeps := by
  constructor
  · rintro h q hq w body hw ⟨x, y, rfl⟩ ⟨gs, hlength, hgs, rfl⟩
    have hshut : ∀ g ∈ gs, b.Shut g := fun g hg => shut_of_goes_star (hgs g hg)
    refine (goes_or_after hshut hlength hsweeps q hq hw).resolve_right fun hafter => ?_
    rw [weave_of_gaps (map_after_eq_nil fun g hg => after_goes_star hsweeps (hgs g hg))] at hafter
    have hbody := (q.bracketed w hw).shut_weave hlength hshut
    refine h q hq w hw ⟨after sweeps x, after sweeps y, ?_⟩
    rw [List.append_assoc x, after_around x hbody y (hafter.trans_ne (q.bracketed w hw).ne_nil),
      hafter, List.append_assoc]
  · rintro h q hq w hw ⟨x, y, hxy⟩
    obtain ⟨text', y', rfl, hleft, -⟩ := after_split hsweeps hxy.symm
    obtain ⟨x', body, rfl, -, hbody⟩ := after_split hsweeps hleft
    obtain ⟨front, body, back, rfl, hfront, hspread, hback⟩ := spread_of_after hsweeps
      (fun g hg => goes_of_after hsweeps hg) (q.bracketed w hw).ne_nil hbody
    have hgoes := h q hq w body hw ⟨x' ++ front, back ++ y', by simp only [List.append_assoc]⟩ hspread
    rw [after_shut_append (shut_of_goes_star hfront), after_shut_append (shut_of_goes body hgoes),
      after_goes_star hsweeps hfront, after_goes hsweeps body hgoes,
      after_goes_star hsweeps hback] at hbody
    exact (q.bracketed w hw).ne_nil hbody.symm

/-- Letters that do not open are left with what their stretches leave, whatever stands behind. -/
theorem after_weave_rest {w : List α} (hw : ∀ a ∈ w, ¬ b.opens a) {gs : List (List α)}
    (hgs : ∀ g ∈ gs, b.Shut g) (hlength : gs.length ≤ w.length) (y : List α) :
    ∀ sweeps : List (Sweep b),
      after sweeps (weave w gs ++ y) = weave w (gs.map (after sweeps)) ++ after sweeps y
  | [] => by rw [show after ([] : List (Sweep b)) = id from rfl, List.map_id]; rfl
  | q :: earlier => by
    have hgs' : ∀ g ∈ gs.map (after earlier), b.Shut g := by
      intro g' hg'
      obtain ⟨g, hg, rfl⟩ := List.mem_map.mp hg'
      exact shut_after (hgs g hg) earlier
    rw [after, after_weave_rest hw hgs hlength y earlier,
      Sweep.del_weave_rest _ hw hgs' (by rwa [List.length_map]), List.map_map]
    rfl

/-- An opening letter at which nothing that goes starts stays, and nothing reaches across it. -/
theorem after_opened (x : List α) {o : α} (ho : b.opens o) (y : List α) :
    ∀ {sweeps : List (Sweep b)}, Distinct sweeps → (∀ v ∈ goes sweeps, ¬ v <+: o :: y) →
    after sweeps (x ++ o :: y) = after sweeps x ++ o :: after sweeps y
  | [], _, _ => rfl
  | q :: earlier, hsweeps, h => by
    obtain ⟨-, hearlier⟩ := List.pairwise_cons.mp hsweeps
    have h' : ∀ v ∈ goes earlier, ¬ v <+: o :: y := fun v hv => h v (goes_cons_of_goes q hv)
    have hnone : ∀ w, q.word w → ¬ w <+: o :: after earlier y := by
      rintro w hw ⟨rest, hrest⟩
      have hself := after_opened [] ho y hearlier h'
      rw [List.nil_append, after_nil, List.nil_append, ← hrest] at hself
      obtain ⟨text', z, htext, hword, -⟩ := after_split hearlier hself
      obtain ⟨front, body, back, rfl, hfront, hspread, -⟩ := spread_of_after hearlier
        (fun g hg => goes_of_after hearlier hg) (q.bracketed w hw).ne_nil hword
      have hpre : front ++ (body ++ back) <+: o :: y := ⟨z, htext.symm⟩
      rcases eq_or_ne front [] with rfl | hne
      · exact h body (goes_of_spread hw hspread) ((List.prefix_append body back).trans hpre)
      · obtain ⟨v, hv, hvpre⟩ := exists_prefix_of_star hfront hne
        exact h' v hv ((hvpre.trans (List.prefix_append front _)).trans hpre)
    rw [after, after_opened x ho y hearlier h', Sweep.del_append_opened, q.del_letter o _ hnone]
    · rfl
    · rintro a back heq
      exact (List.cons.inj heq).1 ▸ ho

/-- A text that opens once, at its front: where it is left, it stood spread out and not at the front
    of something that goes. -/
theorem spread_of_left (hsweeps : Distinct sweeps) {text x y w : List α} {o : α}
    (h : after sweeps text = x ++ (o :: w ++ y)) : ∃ x' body rest, text = x' ++ (body ++ rest) ∧
      after sweeps x' = x ∧ body ∈ spread (goes sweeps)∗ (o :: w) ∧
      ∀ v ∈ goes sweeps, ¬ v <+: body ++ rest := by
  obtain ⟨x', tail, rfl, hx, hy, -, hgoes⟩ := after_keep hsweeps h
  obtain ⟨text', z, rfl, hw, -⟩ := after_split hsweeps hy
  cases w with
  | nil => exact ⟨x', [o], text' ++ z, rfl, hx, self_mem_spread _ (List.cons_ne_nil o []), hgoes⟩
  | cons c w =>
    obtain ⟨front, body, back, rfl, hfront, ⟨gs, hlength, hgs, rfl⟩, -⟩ := spread_of_after hsweeps
      (fun g hg => goes_of_after hsweeps hg) (List.cons_ne_nil c w) hw
    refine ⟨x', weave (o :: c :: w) (front :: gs), back ++ z, ?_, hx,
      ⟨front :: gs, Nat.succ_lt_succ hlength, List.forall_mem_cons.mpr ⟨hfront, hgs⟩, rfl⟩, ?_⟩
    · simp only [weave_cons, List.cons_append, List.append_assoc]
    · simpa only [weave_cons, List.cons_append, List.append_assoc] using hgoes

/-- … and where it stands so, it is left. -/
theorem left_of_spread (hsweeps : Distinct sweeps) {o : α} {w : List α} (ho : b.opens o)
    (hw : ∀ a ∈ w, ¬ b.opens a) {body : List α} (hbody : body ∈ spread (goes sweeps)∗ (o :: w))
    (x : List α) {rest : List α} (hgoes : ∀ v ∈ goes sweeps, ¬ v <+: body ++ rest) :
    after sweeps (x ++ (body ++ rest)) = after sweeps x ++ (o :: w ++ after sweeps rest) := by
  obtain ⟨gs, hlength, hgs, rfl⟩ := hbody
  have hshut : ∀ g ∈ gs, b.Shut g := fun g hg => shut_of_goes_star (hgs g hg)
  have hnil := map_after_eq_nil fun g hg => after_goes_star hsweeps (hgs g hg)
  cases gs with
  | nil =>
    rw [weave_nil, List.cons_append] at hgoes ⊢
    have hrest : after sweeps (weave w [] ++ rest) = weave w [] ++ after sweeps rest :=
      after_weave_rest hw hshut (Nat.zero_le _) rest sweeps
    rw [weave_nil] at hrest
    rw [after_opened x ho _ hsweeps hgoes, hrest, List.cons_append]
  | cons g gs =>
    rw [weave_cons, List.cons_append] at hgoes ⊢
    rw [List.map_cons, List.forall_mem_cons] at hnil
    rw [after_opened x ho _ hsweeps hgoes, List.append_assoc,
      after_shut_append (hshut g List.mem_cons_self), hnil.1, List.nil_append,
      after_weave_rest hw (fun g' hg' => hshut g' (List.mem_cons_of_mem g hg'))
        (Nat.lt_of_succ_lt_succ hlength).le, weave_of_gaps hnil.2, List.cons_append]

end LunaCore.Schemes
