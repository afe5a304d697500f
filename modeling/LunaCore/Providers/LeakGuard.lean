import Mathlib.Data.List.TakeWhile
import LunaCore.Providers.LeakedTranscript
import LunaCore.Schemes.Sweeps

/-! The leak guard: what of the transcript's tags the reader of a reply can still meet.

        reply  </assis</answer>tant>
        sweep         ↓
        left   </assistant>            its sweep is the one that took </answer> out

    Each of the four patterns is a sweep. A tag is left when its letters stand around others that go
    no earlier than it would; a marker comes to stand at a line start when what stood before it on
    its line goes, or is stripped. -/

namespace LunaCore.Providers
open LunaCore.Values LunaCore.Schemes Computability

/-! ### The patterns as sweeps -/

def tagBrackets : Brackets Char where
  opens c := c = '<' ∨ c = '&'
  closes c := c = '>'
  apart := by
    rintro c (rfl | rfl) hclose
    · exact absurd hclose (by decide)
    · exact absurd hclose (by decide)

def Slash.spellings : Slash → List (List Char)
  | .closing => [['/']]
  | .opening => [[]]
  | .either => [['/'], []]

/-- What stands between the first and the last letter of a tag, in lower case. -/
def tagMiddles (slash : Slash) (names : List String) : List (List Char) :=
  slash.spellings.flatMap fun s => names.map fun name => s ++ name.toList

/-- The spellings of a pattern's tags. -/
def tagSpellings (slash : Slash) (names : List String) : List (List Char) :=
  ["<", "&lt;"].flatMap fun opening =>
    (tagMiddles slash names).map fun middle => opening.toList ++ (middle ++ ['>'])

/-- A tag of the pattern, in any case. -/
def TagWord (slash : Slash) (names : List String) (w : List Char) : Prop :=
  w.map foldCase ∈ tagSpellings slash names

theorem tagWord_iff {slash : Slash} {names : List String} {w : List Char} :
    TagWord slash names w ↔ ∃ opening ∈ ["<", "&lt;"], ∃ s ∈ slash.spellings, ∃ name ∈ names,
      w.map foldCase = opening.toList ++ ((s ++ name.toList) ++ ['>']) := by
  constructor
  · intro h
    obtain ⟨opening, hopening, h⟩ := List.mem_flatMap.mp h
    obtain ⟨middle, hmiddle, h⟩ := List.mem_map.mp h
    obtain ⟨s, hs, hmiddle⟩ := List.mem_flatMap.mp hmiddle
    obtain ⟨name, hname, rfl⟩ := List.mem_map.mp hmiddle
    exact ⟨opening, hopening, s, hs, name, hname, h.symm⟩
  · rintro ⟨opening, hopening, s, hs, name, hname, h⟩
    exact List.mem_flatMap.mpr ⟨opening, hopening, List.mem_map.mpr ⟨s ++ name.toList,
      List.mem_flatMap.mpr ⟨s, hs, List.mem_map.mpr ⟨name, hname, rfl⟩⟩, h.symm⟩⟩

theorem toLower_fixed {c d : Char} (hd : d.isLower = false) (h : c.toLower = d) : c = d := by
  subst h
  by_cases hc : c.val ≥ 'A'.val ∧ c.val ≤ 'Z'.val
  · exfalso
    have hval : c.toLower.val = c.val + ('a'.val - 'A'.val) := congrArg Char.val (dif_pos hc)
    change (decide (c.toLower.val ≥ 'a'.val) && decide (c.toLower.val ≤ 'z'.val)) = false at hd
    simp only [hval, decide_eq_false_iff_not, Bool.and_eq_false_iff, UInt32.le_iff_toNat_le,
      UInt32.toNat_add, ge_iff_le] at hd hc
    have hA : 'A'.val.toNat = 65 := rfl
    have hZ : 'Z'.val.toNat = 90 := rfl
    have ha : 'a'.val.toNat = 97 := rfl
    have hz : 'z'.val.toNat = 122 := rfl
    have hstep : ('a'.val - 'A'.val).toNat = 32 := rfl
    omega
  · exact (dif_neg hc : c.toLower = c).symm

/-- What folds to a letter that is not a lower-case one is that letter. -/
theorem foldCase_fixed {c d : Char} (hd : d.isLower = false) (h : foldCase c = d) : c = d := by
  unfold foldCase at h
  split at h
  · exact absurd hd (by rw [← h]; decide)
  split at h
  · exact absurd hd (by rw [← h]; decide)
  split at h
  · exact absurd hd (by rw [← h]; decide)
  · exact toLower_fixed hd h

theorem foldCase_space {c : Char} (h : isSpace c = true) : foldCase c = c := by
  have hn := of_decide_eq_true h
  have hupper : ¬ (c.val ≥ 'A'.val ∧ c.val ≤ 'Z'.val) := by
    rintro ⟨hA, hZ⟩
    have hA' : 65 ≤ c.toNat := UInt32.le_iff_toNat_le.mp hA
    have hZ' : c.toNat ≤ 90 := UInt32.le_iff_toNat_le.mp hZ
    omega
  have hlower : c.toLower = c := dif_neg hupper
  rw [foldCase, if_neg, if_neg, if_neg, hlower] <;> omega

variable {names : List String}

/-- None of these letters stands in the text. -/
def without (letters cs : List Char) : Bool := cs.all fun c => !letters.contains c

theorem notMem_of_without {letters cs : List Char} (h : without letters cs = true) {c : Char}
    (hc : c ∈ cs) : c ∉ letters := by
  intro hmem
  have hnot := List.all_eq_true.mp h c hc
  rw [List.contains_iff_mem.mpr hmem] at hnot
  exact Bool.noConfusion hnot

/-- Names are letters of no other use in a tag. -/
abbrev Plain (names : List String) : Prop :=
  (names.all fun name => without ['<', '&', '>', '/'] name.toList) = true

theorem Plain.letter (h : Plain names) {name : String} (hname : name ∈ names) {c : Char}
    (hc : c ∈ name.toList) : c ∉ ['<', '&', '>', '/'] :=
  notMem_of_without (List.all_eq_true.mp h name hname) hc

/-- A literal at the front of the text, in any case. -/
theorem afterLiteral_eq_some_iff {literal : String} {cs rest : List Char} :
    afterLiteral literal cs = some rest ↔
      ∃ w, cs = w ++ rest ∧ w.map foldCase = literal.toList := by
  unfold afterLiteral
  constructor
  · intro h
    split at h
    · obtain rfl := Option.some.inj h
      exact ⟨cs.take literal.length, (List.take_append_drop ..).symm, ‹_›⟩
    · exact absurd h (Option.some_ne_none rest).symm
  · rintro ⟨w, rfl, hw⟩
    have hlength : literal.length = w.length := by
      rw [← String.length_toList, ← hw, List.length_map]
    rw [hlength, List.take_left, List.drop_left, if_pos hw]

theorem afterLiteral_append {literal : String} {w : List Char} (hw : w.map foldCase = literal.toList)
    (rest : List Char) : afterLiteral literal (w ++ rest) = some rest :=
  afterLiteral_eq_some_iff.mpr ⟨w, rfl, hw⟩

/-- A slash, or none, as the pattern asks for. -/
theorem afterSlash_eq_some {slash : Slash} {cs rest : List Char}
    (h : afterSlash slash cs = some rest) : ∃ s ∈ slash.spellings, cs = s ++ rest := by
  unfold afterSlash at h
  split at h
  · exact ⟨['/'], List.mem_singleton_self _, congrArg _ (Option.some.inj h)⟩
  · exact absurd h (Option.some_ne_none rest).symm
  · exact ⟨[], List.mem_singleton_self _, Option.some.inj h⟩
  · exact ⟨['/'], List.mem_cons_self, congrArg _ (Option.some.inj h)⟩
  · exact ⟨[], List.mem_cons_of_mem _ (List.mem_singleton_self _), Option.some.inj h⟩

theorem fold_fixed : ∀ {w s : List Char}, (∀ d ∈ s, d.isLower = false) → w.map foldCase = s → w = s
  | [], _, _, h => h
  | c :: w, s, hs, h => by
    subst h
    rw [List.map_cons, List.forall_mem_cons] at hs
    rw [List.map_cons, ← foldCase_fixed hs.1 rfl, ← fold_fixed hs.2 rfl]

theorem spelling_cases {slash : Slash} {s : List Char} (hs : s ∈ slash.spellings) :
    s ∈ [['/'], []] := by
  cases slash with
  | closing => exact List.mem_cons.mpr (Or.inl (List.mem_singleton.mp hs))
  | opening => exact List.mem_cons_of_mem _ hs
  | either => exact hs

theorem spelling_not_lower {slash : Slash} {s : List Char} (hs : s ∈ slash.spellings) :
    ∀ d ∈ s, d.isLower = false := by
  intro d hd
  rcases List.mem_cons.mp (spelling_cases hs) with rfl | hs
  · rw [List.mem_singleton.mp hd]
    rfl
  · rw [List.mem_singleton.mp hs] at hd
    exact absurd hd List.not_mem_nil

theorem afterLiteral_lt_none {c : Char} (h : foldCase c ≠ '<') (cs : List Char) :
    afterLiteral "<" (c :: cs) = none := by
  rw [afterLiteral, if_neg]
  intro heq
  exact h (List.cons.inj heq).1

theorem fold_spelling {slash : Slash} {s : List Char} (hs : s ∈ slash.spellings) :
    s.map foldCase = s := by
  rcases List.mem_cons.mp (spelling_cases hs) with rfl | hs
  · rfl
  · rw [List.mem_singleton.mp hs]
    rfl

theorem afterSlash_append {slash : Slash} {s : List Char} (hs : s ∈ slash.spellings)
    {c : Char} (hc : c ≠ '/') (rest : List Char) :
    afterSlash slash (s ++ c :: rest) = some (c :: rest) := by
  cases slash with
  | closing =>
    obtain rfl := List.mem_singleton.mp hs
    rfl
  | opening =>
    obtain rfl := List.mem_singleton.mp hs
    rfl
  | either =>
    rcases List.mem_cons.mp hs with rfl | hs
    · rfl
    · obtain rfl := List.mem_singleton.mp hs
      exact afterSlash.eq_5 (c :: rest) fun cs heq => hc (List.cons.inj heq).1

variable {slash : Slash}

/-- The scan finds tags only. -/
theorem tagLength_eq_some {cs : List Char} {n : ℕ} (h : tagLength slash names cs = some n) :
    ∃ w rest, cs = w ++ rest ∧ TagWord slash names w ∧ n = w.length := by
  obtain ⟨rest, hslash, h⟩ := Option.bind_eq_some_iff.mp h
  obtain ⟨behind, hopening, hslash⟩ := Option.bind_eq_some_iff.mp hslash
  obtain ⟨final, hname, rfl⟩ := Option.map_eq_some_iff.mp h
  obtain ⟨name, hmem, hname⟩ := List.exists_of_findSome?_eq_some hname
  obtain ⟨closing, hliteral, hclose⟩ := Option.bind_eq_some_iff.mp hname
  obtain ⟨s, hs, rfl⟩ := afterSlash_eq_some hslash
  obtain ⟨wn, rfl, hwn⟩ := afterLiteral_eq_some_iff.mp hliteral
  obtain ⟨wc, rfl, hwc⟩ := afterLiteral_eq_some_iff.mp hclose
  obtain ⟨opening, hopenings, wo, rfl, hwo⟩ : ∃ opening ∈ ["<", "&lt;"],
      ∃ wo, cs = wo ++ (s ++ (wn ++ (wc ++ final))) ∧ wo.map foldCase = opening.toList := by
    cases hlt : afterLiteral "<" cs with
    | some behind =>
      rw [hlt] at hopening
      obtain rfl := Option.some.inj hopening
      exact ⟨"<", List.mem_cons_self, afterLiteral_eq_some_iff.mp hlt⟩
    | none =>
      rw [hlt] at hopening
      exact ⟨"&lt;", List.mem_cons_of_mem _ (List.mem_singleton_self _),
        afterLiteral_eq_some_iff.mp hopening⟩
  refine ⟨wo ++ (s ++ (wn ++ wc)), final, by simp only [List.append_assoc], ?_, ?_⟩
  · rw [tagWord_iff]
    refine ⟨opening, hopenings, s, hs, name, hmem, ?_⟩
    simp only [List.map_append, hwo, fold_spelling hs, hwn, hwc, List.append_assoc]
    rfl
  · simp only [List.length_append]
    omega

/-- … and every tag that stands at the front. -/
theorem tagLength_ne_none (hplain : Plain names) {w : List Char} (hw : TagWord slash names w)
    (rest : List Char) : tagLength slash names (w ++ rest) ≠ none := by
  obtain ⟨opening, hopening', s, hs, name, hname, hfold⟩ := tagWord_iff.mp hw
  obtain ⟨wo, tail, rfl, hwo, htail⟩ := List.map_eq_append_iff.mp hfold
  obtain ⟨middle, wc, rfl, hmiddle, hwc⟩ := List.map_eq_append_iff.mp htail
  obtain ⟨ws, wn, rfl, hws, hwn⟩ := List.map_eq_append_iff.mp hmiddle
  have hopened : (afterLiteral "<" ((wo ++ (ws ++ wn ++ wc)) ++ rest) <|>
      afterLiteral "&lt;" ((wo ++ (ws ++ wn ++ wc)) ++ rest)) = some (ws ++ (wn ++ (wc ++ rest))) := by
    have hopening := afterLiteral_append hwo (ws ++ (wn ++ (wc ++ rest)))
    simp only [List.append_assoc]
    rcases List.mem_cons.mp hopening' with rfl | hescaped
    · rw [hopening]
      rfl
    · obtain rfl := List.mem_singleton.mp hescaped
      obtain ⟨c, wo, rfl, hc, -⟩ := List.map_eq_cons_iff.mp hwo
      rw [List.cons_append, afterLiteral_lt_none (by rw [hc]; decide)]
      exact hopening
  have hslash : afterSlash slash (ws ++ (wn ++ (wc ++ rest))) = some (wn ++ (wc ++ rest)) := by
    rw [fold_fixed (spelling_not_lower hs) hws]
    cases wn with
    | nil =>
      obtain ⟨c, wc, rfl, hc, -⟩ := List.map_eq_cons_iff.mp hwc
      refine afterSlash_append hs ?_ _
      rintro rfl
      exact absurd hc (by decide)
    | cons c wn =>
      refine afterSlash_append hs ?_ _
      rintro rfl
      refine hplain.letter hname (c := '/') ?_ (by decide)
      rw [← hwn]
      exact List.mem_cons_self
  intro hnone
  rw [tagLength, hopened, Option.bind_some, hslash, Option.bind_some, Option.map_eq_none_iff,
    List.findSome?_eq_none_iff] at hnone
  have hclose := hnone name hname
  have hclosed : afterLiteral ">" (wc ++ rest) = some rest := afterLiteral_append hwc rest
  rw [afterLiteral_append hwn, Option.bind_some, hclosed] at hclose
  exact Option.some_ne_none _ hclose

/-- Behind its first letter nothing opens in a tag, and its last letter alone closes. -/
theorem ends_of_fold : ∀ {w middle : List Char}, w.map foldCase = middle ++ ['>'] →
    (∀ c ∈ middle, c ∉ ['<', '&', '>']) → tagBrackets.Ends w
  | [], middle, h, _ => absurd h.symm (List.append_ne_nil_of_right_ne_nil middle (List.cons_ne_nil _ _))
  | [c], middle, h, _ => by
    obtain ⟨rfl, hc⟩ : middle = [] ∧ foldCase c = '>' := by
      cases middle with
      | nil => exact ⟨rfl, (List.cons.inj h).1⟩
      | cons d middle =>
        exact absurd (List.cons.inj h).2.symm
          (List.append_ne_nil_of_right_ne_nil middle (List.cons_ne_nil _ _))
    exact foldCase_fixed (by decide) hc
  | c :: d :: w, middle, h, hmiddle => by
    cases middle with
    | nil => exact absurd (List.cons.inj h).2 (List.cons_ne_nil _ _)
    | cons e middle =>
      obtain ⟨rfl, hrest⟩ := List.cons.inj h
      rw [List.forall_mem_cons] at hmiddle
      refine ⟨?_, ?_, ends_of_fold hrest hmiddle.2⟩
      · rintro (rfl | rfl)
        · exact hmiddle.1 (by decide)
        · exact hmiddle.1 (by decide)
      · rintro rfl
        exact hmiddle.1 (by decide)

theorem tagWord_bracketed (hplain : Plain names) (w : List Char) (hw : TagWord slash names w) :
    tagBrackets.Word w := by
  obtain ⟨opening, hopening, s, hs, name, hname, hfold⟩ := tagWord_iff.mp hw
  have hletters : ∀ c ∈ s ++ name.toList, c ∉ ['<', '&', '>'] := by
    intro c hc
    rcases List.mem_append.mp hc with hc | hc
    · have hslash : ([['/'], []].all fun s => without ['<', '&', '>'] s) = true := rfl
      exact notMem_of_without (List.all_eq_true.mp hslash s (spelling_cases hs)) hc
    · intro hmem
      exact hplain.letter hname hc (List.mem_append_left ['/'] hmem)
  rcases List.mem_cons.mp hopening with rfl | hescaped
  · obtain ⟨c, w, rfl, hc, htail⟩ := List.map_eq_cons_iff.mp hfold
    exact ⟨Or.inl (foldCase_fixed (by decide) hc), ends_of_fold htail hletters⟩
  · obtain rfl := List.mem_singleton.mp hescaped
    obtain ⟨c, w, rfl, hc, htail⟩ := List.map_eq_cons_iff.mp hfold
    have hmiddle : w.map foldCase = ("lt;".toList ++ (s ++ name.toList)) ++ ['>'] := htail
    refine ⟨Or.inr (foldCase_fixed (by decide) hc), ends_of_fold hmiddle ?_⟩
    intro d hd
    rcases List.mem_append.mp hd with hd | hd
    · have hlt : without ['<', '&', '>'] "lt;".toList = true := by decide
      exact notMem_of_without hlt hd
    · exact hletters d hd

theorem removeTags_skip (tag : List Char → Option ℕ) : ∀ (w text : List Char),
    removeTags tag w.length (w ++ text) = removeTags tag 0 text
  | [], _ => rfl
  | _ :: w, text => removeTags_skip tag w text

/-- Two tags at the front of one text are one tag. -/
theorem tagLength_append (hplain : Plain names) {w : List Char} (hw : TagWord slash names w)
    (rest : List Char) : tagLength slash names (w ++ rest) = some w.length := by
  obtain ⟨n, hn⟩ := Option.ne_none_iff_exists'.mp (tagLength_ne_none hplain hw rest)
  obtain ⟨w', rest', heq, hw', rfl⟩ := tagLength_eq_some hn
  have hpre : w' <+: weave w [] ++ rest := by
    rw [weave_nil, heq]
    exact List.prefix_append w' rest'
  have hword := tagWord_bracketed hplain w hw
  obtain ⟨rfl, -⟩ := (tagWord_bracketed hplain w' hw').prefix_weave hword
    (fun _ hg => absurd hg List.not_mem_nil) (List.length_pos_iff.mpr hword.ne_nil) hpre
  exact hn

/-- The pattern's `sub("", text)` as a sweep. -/
def tagSweep (slash : Slash) (names : List String) (hplain : Plain names) : Sweep tagBrackets where
  word := TagWord slash names
  del := removeTags (tagLength slash names) 0
  bracketed := tagWord_bracketed hplain
  del_nil := rfl
  del_word := by
    intro w text hw
    have hlength := tagLength_append hplain hw text
    obtain ⟨c, w, rfl⟩ := List.exists_cons_of_ne_nil (tagWord_bracketed hplain w hw).ne_nil
    rw [List.cons_append] at hlength ⊢
    rw [removeTags, hlength]
    exact removeTags_skip _ w text
  del_letter := by
    intro c text hnone
    cases h : tagLength slash names (c :: text) with
    | none => rw [removeTags, h]
    | some n =>
      obtain ⟨w, rest, heq, hw, -⟩ := tagLength_eq_some h
      exact absurd (heq ▸ List.prefix_append w rest) (hnone w hw)

theorem afterLastTag_skip (tag : List Char → Option ℕ) : ∀ (w text : List Char),
    afterLastTag tag w.length (w ++ text) = afterLastTag tag 0 text
  | [], _ => rfl
  | _ :: w, text => afterLastTag_skip tag w text

/-- Behind the last tag of the pattern, when there is one. -/
theorem afterLastTag_word (hplain : Plain names) {w : List Char} (hw : TagWord slash names w)
    (text : List Char) : afterLastTag (tagLength slash names) 0 (w ++ text) =
      some ((afterLastTag (tagLength slash names) 0 text).getD text) := by
  have hlength := tagLength_append hplain hw text
  obtain ⟨c, w, rfl⟩ := List.exists_cons_of_ne_nil (tagWord_bracketed hplain w hw).ne_nil
  rw [List.cons_append] at hlength ⊢
  rw [afterLastTag, hlength]
  change some ((afterLastTag _ w.length (w ++ text)).getD ((w ++ text).drop w.length)) = _
  rw [afterLastTag_skip, List.drop_left]

theorem afterLastTag_letter {c : Char} {text : List Char}
    (hnone : ∀ w, TagWord slash names w → ¬ w <+: c :: text) :
    afterLastTag (tagLength slash names) 0 (c :: text) =
      afterLastTag (tagLength slash names) 0 text := by
  cases h : tagLength slash names (c :: text) with
  | none => rw [afterLastTag, h]
  | some n =>
    obtain ⟨w, rest, heq, hw, -⟩ := tagLength_eq_some h
    exact absurd (heq ▸ List.prefix_append w rest) (hnone w hw)

/-- CORRECT: `finditer`'s last match, or that there is none. -/
theorem afterLastTag_spec (hplain : Plain names) (text : List Char) :
    match afterLastTag (tagLength slash names) 0 text with
    | none => ∀ w, TagWord slash names w → ¬ w <:+: text
    | some back => ∃ front w, text = front ++ (w ++ back) ∧ TagWord slash names w ∧
        ∀ w', TagWord slash names w' → ¬ w' <:+: back := by
  induction text using (tagSweep slash names hplain).induction with
  | nil =>
    intro w hw hin
    exact (tagWord_bracketed hplain w hw).ne_nil (List.infix_nil.mp hin)
  | word w text hw ih =>
    rw [afterLastTag_word hplain hw]
    cases h : afterLastTag (tagLength slash names) 0 text with
    | none =>
      rw [h] at ih
      exact ⟨[], w, rfl, hw, ih⟩
    | some back =>
      rw [h] at ih
      obtain ⟨front, w', rfl, hw', hnone⟩ := ih
      exact ⟨w ++ front, w', (List.append_assoc ..).symm, hw', hnone⟩
  | letter c text hnone ih =>
    rw [afterLastTag_letter hnone]
    cases h : afterLastTag (tagLength slash names) 0 text with
    | none =>
      rw [h] at ih
      intro w hw hin
      rcases List.infix_cons_iff.mp hin with hpre | hin
      · exact hnone w hw hpre
      · exact ih w hw hin
    | some back =>
      rw [h] at ih
      obtain ⟨front, w', rfl, hw', hnone'⟩ := ih
      exact ⟨c :: front, w', rfl, hw', hnone'⟩

/-! ### What the guard is to keep out -/

theorem wrapper_plain : Plain ["assistant", "final_answer", "answer", "response", "reply"] := by
  decide +kernel

theorem reasoning_plain : Plain ["thinking", "reasoning"] := by decide +kernel

theorem history_plain :
    Plain ["user", "latest", "conversation_history", "tool_call", "tool_result"] := by
  decide +kernel

def wrapperSweep : Sweep tagBrackets := tagSweep .either _ wrapper_plain

def closeSweep : Sweep tagBrackets := tagSweep .closing _ reasoning_plain

def openSweep : Sweep tagBrackets := tagSweep .opening _ reasoning_plain

def historySweep : Sweep tagBrackets := tagSweep .closing _ history_plain

/-- The sweeps over a reply, the last one first. -/
def leakSweeps : List (Sweep tagBrackets) := [historySweep, wrapperSweep, openSweep, closeSweep]

/-- A tag the guard removes. -/
def LeakTag (w : List Char) : Prop := ∃ q ∈ leakSweeps, q.word w

/-- A marker at the start of a line, `front` standing before it. -/
def LeakAt (front back : List Char) : Prop :=
  (front = [] ∨ ∃ init, front = init ++ ['\n']) ∧ ∃ marker ∈ leakMarkers, marker.toList <+: back

def HasLeakLine (text : List Char) : Prop := ∃ front back, text = front ++ back ∧ LeakAt front back

/-- No line starts with a marker, and no tag stands anywhere. -/
def LeakFree (text : String) : Prop :=
  ¬ HasLeakLine text.toList ∧ ∀ w, LeakTag w → ¬ w <:+: text.toList

/-- What the guard promises for a text. -/
structure Guarded (text : String) : Prop where
  clean : LeakFree (stripLeakedTranscript text)
  again : stripLeakedTranscript (stripLeakedTranscript text) = stripLeakedTranscript text
  kept : LeakFree text → stripLeakedTranscript text = text

/-- The spellings of each sweep's tags. -/
def leakSpellings : List (List (List Char)) :=
  [tagSpellings .closing ["user", "latest", "conversation_history", "tool_call", "tool_result"],
    tagSpellings .either ["assistant", "final_answer", "answer", "response", "reply"],
    tagSpellings .opening ["thinking", "reasoning"],
    tagSpellings .closing ["thinking", "reasoning"]]

theorem leakSweeps_distinct : Distinct leakSweeps := by
  have hdisjoint : leakSpellings.Pairwise fun tags others =>
      (tags.all fun w => !others.contains w) = true := by decide +kernel
  have h : leakSpellings.Pairwise fun tags others => ∀ w ∈ tags, w ∉ others := by
    refine hdisjoint.imp fun {tags others} hall w hw hmem => ?_
    have hnot := List.all_eq_true.mp hall w hw
    rw [List.contains_iff_mem.mpr hmem] at hnot
    exact Bool.noConfusion hnot
  simp only [leakSpellings, List.pairwise_cons, List.forall_mem_cons, List.not_mem_nil,
    false_implies, implies_true, and_true, List.Pairwise.nil] at h
  obtain ⟨⟨hw, ho, hc⟩, ⟨ho', hc'⟩, hc''⟩ := h
  simp only [Distinct, leakSweeps, List.pairwise_cons, List.forall_mem_cons, List.not_mem_nil,
    false_implies, implies_true, and_true, List.Pairwise.nil]
  exact ⟨⟨fun w => hw _, fun w => ho _, fun w => hc _⟩, ⟨fun w => ho' _, fun w => hc' _⟩,
    fun w => hc'' _⟩

theorem fold_mem_leakSpellings {q : Sweep tagBrackets} (hq : q ∈ leakSweeps) {w : List Char}
    (hw : q.word w) : ∃ tags ∈ leakSpellings, w.map foldCase ∈ tags := by
  simp only [leakSweeps, List.mem_cons, List.not_mem_nil, or_false] at hq
  rcases hq with rfl | rfl | rfl | rfl
  · exact ⟨_, List.mem_cons_self, hw⟩
  · exact ⟨_, List.mem_cons_of_mem _ List.mem_cons_self, hw⟩
  · exact ⟨_, List.mem_cons_of_mem _ (List.mem_cons_of_mem _ List.mem_cons_self), hw⟩
  · exact ⟨_, List.mem_cons_of_mem _ (List.mem_cons_of_mem _ (List.mem_cons_of_mem _
      List.mem_cons_self)), hw⟩

/-- No letter of a tag is blank or a line break. -/
theorem space_notMem_leakTag {c : Char} (hc : isSpace c = true) :
    ∀ q ∈ leakSweeps, ∀ w, q.word w → c ∉ w := by
  have hletters : (leakSpellings.all fun tags => tags.all fun w => w.all fun c => !isSpace c) = true := by
    decide +kernel
  intro q hq w hw hmem
  obtain ⟨tags, htags, hfold⟩ := fold_mem_leakSpellings hq hw
  have hspace := List.all_eq_true.mp (List.all_eq_true.mp (List.all_eq_true.mp hletters tags htags)
    _ hfold) c (foldCase_space hc ▸ List.mem_map_of_mem hmem)
  rw [hc] at hspace
  exact Bool.noConfusion hspace

/-- A marker opens with its first letter, and nothing opens in it. -/
theorem marker_shape {marker : String} (h : marker ∈ leakMarkers) : ∃ w, marker.toList = '<' :: w ∧
    (∀ c ∈ w, ¬ tagBrackets.opens c) ∧ ∀ c ∈ '<' :: w, isSpace c = false := by
  have hletters : (leakMarkers.all fun marker => marker.toList.head? = some '<' &&
      without ['<', '&'] marker.toList.tail && marker.toList.all fun c => !isSpace c) = true := by
    decide +kernel
  have hmarker := List.all_eq_true.mp hletters marker h
  rw [Bool.and_eq_true, Bool.and_eq_true, decide_eq_true_iff] at hmarker
  obtain ⟨⟨hhead, hrest⟩, hspace⟩ := hmarker
  obtain ⟨w, hshape⟩ := List.head?_eq_some_iff.mp hhead
  rw [hshape] at hrest hspace
  refine ⟨w, hshape, fun c hc hopens => notMem_of_without hrest hc ?_, fun c hc => ?_⟩
  · rcases hopens with rfl | rfl
    · exact List.mem_cons_self
    · exact List.mem_cons_of_mem _ List.mem_cons_self
  · exact Bool.not_eq_true' _ ▸ List.all_eq_true.mp hspace c hc

/-! ### What the sweeps are given -/

/-- The text before the first line that starts with a marker. -/
def BeforeLeak (text front : List Char) : Prop :=
  ∃ back, text = front ++ back ∧ (back = [] ∨ LeakAt front back) ∧
    ∀ front' back', text = front' ++ back' → LeakAt front' back' → front.length ≤ front'.length

/-- A closed reasoning with something to read behind it, and no other close there. -/
def Reasoned (text reply : List Char) : Prop :=
  (∃ front tag, text = front ++ (tag ++ reply) ∧ closeSweep.word tag) ∧
    (∀ w, closeSweep.word w → ¬ w <:+: reply) ∧ reply.all isSpace = false

/-- The text before the leak, or of it what stands behind the last closed reasoning. -/
def Reply (text reply : List Char) : Prop :=
  ∃ front, BeforeLeak text front ∧ (Reasoned front reply ∨ reply = front ∧ ∀ r, ¬ Reasoned front r)

theorem beforeMarker_spec : ∀ (cs done : List Char) (lineStart : Bool),
    (lineStart = true ↔ done = [] ∨ ∃ init, done = init ++ ['\n']) →
    ∃ back, cs = beforeMarker lineStart cs ++ back ∧
      (back = [] ∨ LeakAt (done ++ beforeMarker lineStart cs) back) ∧
      ∀ front' back', cs = front' ++ back' → LeakAt (done ++ front') back' →
        (beforeMarker lineStart cs).length ≤ front'.length
  | [], done, lineStart, hline => ⟨[], rfl, Or.inl rfl, fun _ _ _ _ => Nat.zero_le _⟩
  | c :: cs, done, lineStart, hline => by
    rw [beforeMarker]
    split
    case isTrue h =>
      refine ⟨c :: cs, rfl, Or.inr ⟨?_, ?_⟩, fun _ _ _ _ => Nat.zero_le _⟩
      · rw [List.append_nil]
        exact hline.mp h.1
      · obtain ⟨marker, hmarker, hpre⟩ := List.any_eq_true.mp h.2
        exact ⟨marker, hmarker, List.isPrefixOf_iff_prefix.mp hpre⟩
    case isFalse h =>
      have hnext : decide (c = '\n') = true ↔ done ++ [c] = [] ∨ ∃ init, done ++ [c] = init ++ ['\n'] := by
        rw [decide_eq_true_iff]
        constructor
        · rintro rfl
          exact Or.inr ⟨done, rfl⟩
        · rintro (hnil | ⟨init, heq⟩)
          · exact absurd hnil (List.append_ne_nil_of_right_ne_nil done (List.cons_ne_nil c []))
          · exact List.singleton_inj.mp (List.append_inj' heq rfl).2
      obtain ⟨back, heq, hleak, hfirst⟩ := beforeMarker_spec cs (done ++ [c]) (decide (c = '\n')) hnext
      refine ⟨back, congrArg (c :: ·) heq, ?_, ?_⟩
      · rwa [List.append_assoc, List.singleton_append] at hleak
      · rintro (_ | ⟨d, front'⟩) back' hsplit hleak'
        · refine absurd ⟨?_, ?_⟩ h
          · rw [List.append_nil] at hleak'
            exact hline.mpr hleak'.1
          · obtain ⟨marker, hmarker, hpre⟩ := hleak'.2
            rw [List.nil_append] at hsplit
            exact List.any_eq_true.mpr ⟨marker, hmarker, List.isPrefixOf_iff_prefix.mpr (hsplit ▸ hpre)⟩
        · obtain ⟨rfl, hrest⟩ := List.cons.inj hsplit
          refine Nat.succ_le_succ (hfirst front' back' hrest ?_)
          rwa [List.append_assoc, List.singleton_append]

/-- CORRECT: the cut is at the first such line. -/
theorem beforeLeak_beforeMarker (text : List Char) : BeforeLeak text (beforeMarker true text) :=
  beforeMarker_spec text [] true ⟨fun _ => Or.inl rfl, fun _ => rfl⟩

theorem BeforeLeak.unique {text front front' : List Char} (h : BeforeLeak text front)
    (h' : BeforeLeak text front') : front = front' := by
  obtain ⟨back, htext, hleak, hfirst⟩ := h
  obtain ⟨back', htext', hleak', hfirst'⟩ := h'
  have hle : ∀ {a b a' : List Char}, text = a ++ b → (b = [] ∨ LeakAt a b) → a' <+: text →
      (∀ f k, text = f ++ k → LeakAt f k → a'.length ≤ f.length) → a'.length ≤ a.length := by
    intro a b a' hab hleak hpre hfirst
    rcases hleak with rfl | hleak
    · rw [← List.append_nil a, ← hab]
      exact hpre.length_le
    · exact hfirst a b hab hleak
  have hpre : front <+: text := ⟨back, htext.symm⟩
  have hpre' : front' <+: text := ⟨back', htext'.symm⟩
  have hlength := le_antisymm (hle htext' hleak' hpre hfirst) (hle htext hleak hpre' hfirst')
  exact (List.prefix_of_prefix_length_le hpre hpre' hlength.le).eq_of_length hlength

theorem Reasoned.unique {text reply : List Char} (h : Reasoned text reply) {front tag back : List Char}
    (htext : text = front ++ (tag ++ back)) (htag : closeSweep.word tag)
    (hlast : ∀ w, closeSweep.word w → ¬ w <:+: back) : reply = back := by
  obtain ⟨⟨front', tag', htext', htag'⟩, hlast', -⟩ := h
  exact Sweep.behind_unique htag' htag (htext'.symm.trans htext) hlast' hlast

theorem exists_reply (text : List Char) : ∃ reply, Reply text reply := by
  have hfront := beforeLeak_beforeMarker text
  by_cases h : ∃ r, Reasoned (beforeMarker true text) r
  · obtain ⟨r, hr⟩ := h
    exact ⟨r, _, hfront, Or.inl hr⟩
  · exact ⟨_, _, hfront, Or.inr ⟨rfl, fun r hr => h ⟨r, hr⟩⟩⟩

/-- STEP: the guard sweeps the reply, and strips it when anything was taken out. -/
theorem stripLeakedTranscript_eq {text : String} {reply : List Char} (h : Reply text.toList reply) :
    stripLeakedTranscript text =
      if String.ofList (after leakSweeps reply) = text then text
      else strip (String.ofList (after leakSweeps reply)) := by
  obtain ⟨front, hbefore, hreply⟩ := h
  obtain rfl := (beforeLeak_beforeMarker text.toList).unique hbefore
  have hself : ∀ {cs : List Char}, (∀ w, closeSweep.word w → ¬ w <:+: cs) →
      removeTags reasoningClose 0 cs = cs := fun h => (Sweep.del_eq_self_iff (q := closeSweep)).mpr h
  have hcleaned : removeTags historyClose 0 (removeTags wrapperTag 0 (removeTags reasoningOpen 0
      (removeTags reasoningClose 0 reply))) = after leakSweeps reply := rfl
  have hspec := @afterLastTag_spec _ .closing reasoning_plain (beforeMarker true text.toList)
  rw [← hcleaned, stripLeakedTranscript]
  cases hlast : afterLastTag reasoningClose 0 (beforeMarker true text.toList) with
  | none =>
    unfold reasoningClose at hlast
    rw [hlast] at hspec
    rcases hreply with hreasoned | ⟨rfl, -⟩
    · obtain ⟨⟨front, tag, htext, htag⟩, -⟩ := hreasoned
      refine absurd ?_ (hspec tag htag)
      rw [htext, ← List.append_assoc]
      exact List.infix_append front tag reply
    · rw [hself hspec]
  | some back =>
    unfold reasoningClose at hlast
    rw [hlast] at hspec
    obtain ⟨front, tag, htext, htag, hnone⟩ := hspec
    by_cases hblank : back.all isSpace = true
    · rcases hreply with hreasoned | ⟨rfl, -⟩
      · have hback := hreasoned.2.2
        rw [hreasoned.unique htext htag hnone, hblank] at hback
        exact Bool.noConfusion hback
      · simp only [hblank, if_true]
    · rcases hreply with hreasoned | ⟨rfl, hnot⟩
      · rw [hreasoned.unique htext htag hnone, hself hnone]
        simp only [hblank, Bool.false_eq_true, if_false]
      · exact absurd ⟨⟨front, tag, htext, htag⟩, hnone, Bool.not_eq_true _ ▸ hblank⟩ (hnot back)

/-! ### Stripping -/

/-- `strip` on the letters. -/
def stripLetters (cs : List Char) : List Char :=
  ((cs.dropWhile isSpace).reverse.dropWhile isSpace).reverse

theorem strip_ofList (cs : List Char) : (strip (String.ofList cs)).toList = stripLetters cs := by
  rw [strip, String.toList_ofList, String.toList_ofList]
  rfl

theorem dropWhile_stop {α : Type*} {p : α → Bool} {c : α} (hc : p c = false) (ys : List α) :
    ∀ xs : List α, (xs ++ c :: ys).dropWhile p = xs.dropWhile p ++ c :: ys
  | [] => by rw [List.nil_append, List.dropWhile_cons_of_neg (by rw [hc]; exact Bool.false_ne_true)]; rfl
  | d :: xs => by
    by_cases hd : p d = true
    · rw [List.cons_append, List.dropWhile_cons_of_pos hd, List.dropWhile_cons_of_pos hd]
      exact dropWhile_stop hc ys xs
    · rw [List.cons_append, List.dropWhile_cons_of_neg hd, List.dropWhile_cons_of_neg hd]
      rfl

/-- Stripping takes nothing of a stretch without blanks, nor what stands around it but blanks. -/
theorem stripLetters_around {body : List Char} (hne : body ≠ []) (hbody : ∀ c ∈ body, isSpace c = false)
    (front back : List Char) : stripLetters (front ++ (body ++ back)) =
      front.dropWhile isSpace ++ (body ++ (back.reverse.dropWhile isSpace).reverse) := by
  obtain ⟨c, rest, hfirst⟩ := List.exists_cons_of_ne_nil hne
  obtain ⟨init, d, hlast⟩ := (List.eq_nil_or_concat' body).resolve_left hne
  have hdrop : (front ++ (body ++ back)).dropWhile isSpace = front.dropWhile isSpace ++ (body ++ back) := by
    rw [hfirst, List.cons_append]
    exact dropWhile_stop (hbody c (hfirst ▸ List.mem_cons_self)) _ front
  have hreverse : (front.dropWhile isSpace ++ (body ++ back)).reverse =
      back.reverse ++ d :: (init.reverse ++ (front.dropWhile isSpace).reverse) := by
    simp only [hlast, List.reverse_append, List.append_assoc, List.reverse_cons, List.nil_append,
      List.cons_append]
  have hd : isSpace d = false := hbody d (hlast ▸ List.mem_append_right init (List.mem_singleton_self d))
  rw [stripLetters, hdrop, hreverse, dropWhile_stop hd]
  simp only [hlast, List.reverse_append, List.reverse_cons, List.reverse_reverse, List.append_assoc]

theorem stripLetters_infix (cs : List Char) :
    ∃ lead trail, cs = lead ++ (stripLetters cs ++ trail) ∧ lead.all isSpace = true := by
  refine ⟨cs.takeWhile isSpace, ((cs.dropWhile isSpace).reverse.takeWhile isSpace).reverse, ?_, ?_⟩
  · rw [stripLetters, ← List.reverse_append, List.takeWhile_append_dropWhile, List.reverse_reverse,
      List.takeWhile_append_dropWhile]
  · exact List.all_takeWhile

/-- A tag stays through the stripping. -/
theorem infix_stripLetters_iff {w : List Char} (hw : LeakTag w) (cs : List Char) :
    w <:+: stripLetters cs ↔ w <:+: cs := by
  obtain ⟨q, hq, hword⟩ := hw
  constructor
  · intro h
    obtain ⟨lead, trail, hsplit, -⟩ := stripLetters_infix cs
    rw [hsplit, ← List.append_assoc]
    exact h.trans (List.infix_append lead _ trail)
  · rintro ⟨x, y, rfl⟩
    have hspace : ∀ c ∈ w, isSpace c = false := fun c hc => by
      rw [← Bool.not_eq_true]
      exact fun h => space_notMem_leakTag h q hq w hword hc
    rw [List.append_assoc, stripLetters_around (q.bracketed w hword).ne_nil hspace, ← List.append_assoc]
    exact List.infix_append _ w _

/-- A marker starts a line of the stripped text when only blanks, or a line break, stand before it. -/
theorem hasLeakLine_stripLetters_iff {cs : List Char} : HasLeakLine (stripLetters cs) ↔
    ∃ front back, cs = front ++ back ∧ (front.all isSpace = true ∨ ∃ init, front = init ++ ['\n']) ∧
      ∃ marker ∈ leakMarkers, marker.toList <+: back := by
  constructor
  · rintro ⟨front, back, hsplit, hline, marker, hmarker, hpre⟩
    obtain ⟨lead, trail, hcs, hlead⟩ := stripLetters_infix cs
    refine ⟨lead ++ front, back ++ trail, ?_, ?_, marker, hmarker,
      hpre.trans (List.prefix_append back trail)⟩
    · rw [hcs, hsplit]
      simp only [List.append_assoc]
    · rcases hline with rfl | ⟨init, rfl⟩
      · rw [List.append_nil]
        exact Or.inl hlead
      · exact Or.inr ⟨lead ++ init, (List.append_assoc ..).symm⟩
  · rintro ⟨front, back, rfl, hline, marker, hmarker, back, rfl⟩
    obtain ⟨w, hshape, -, hspace⟩ := marker_shape hmarker
    rw [hshape, stripLetters_around (List.cons_ne_nil _ w) hspace, ← hshape]
    refine ⟨_, _, rfl, ?_, marker, hmarker, List.prefix_append _ _⟩
    rcases hline with hall | ⟨init, rfl⟩
    · exact Or.inl (List.dropWhile_eq_nil_iff.mpr (List.all_eq_true.mp hall))
    · rcases eq_or_ne ((init ++ ['\n']).dropWhile isSpace) [] with hnil | hne
      · exact Or.inl hnil
      · obtain ⟨pre, c, hlast⟩ := (List.eq_nil_or_concat' _).resolve_left hne
        have hsuffix : pre ++ [c] <:+ init ++ ['\n'] := hlast ▸ List.dropWhile_suffix isSpace
        obtain ⟨lead, hlead⟩ := hsuffix
        rw [← List.append_assoc] at hlead
        obtain rfl := List.singleton_inj.mp (List.append_inj' hlead rfl).2
        exact Or.inr ⟨pre, hlast⟩

/-! ### When the guard keeps its promise -/

/-- A text the guard has nothing to take out of is the reply itself. -/
theorem leakFree_iff {text : String} {reply : List Char} (h : Reply text.toList reply) :
    LeakFree text ↔ String.ofList (after leakSweeps reply) = text := by
  have hfree : (∀ w, LeakTag w → ¬ w <:+: text.toList) ↔
      ∀ q ∈ leakSweeps, ∀ w, q.word w → ¬ w <:+: text.toList :=
    ⟨fun h q hq w hw => h w ⟨q, hq, hw⟩, fun h w ⟨q, hq, hw⟩ => h q hq w hw⟩
  obtain ⟨front, ⟨back, htext, hback, hfirst⟩, hreply⟩ := h
  constructor
  · rintro ⟨hline, htags⟩
    have hback : back = [] := hback.resolve_right fun hleak => hline ⟨front, back, htext, hleak⟩
    rw [hback, List.append_nil] at htext
    have hself : reply = front := by
      rcases hreply with ⟨⟨x, tag, hsplit, htag⟩, -⟩ | ⟨hself, -⟩
      · refine absurd ?_ (htags tag ⟨closeSweep, by simp [leakSweeps], htag⟩)
        rw [htext, hsplit, ← List.append_assoc]
        exact List.infix_append x tag reply
      · exact hself
    rw [hself, ← htext, after_eq_self_iff.mpr (hfree.mp htags), String.ofList_toList]
  · intro hswept
    have hlist : after leakSweeps reply = text.toList := by
      rw [← hswept, String.toList_ofList]
    have hsub := after_sublist reply leakSweeps
    rw [hlist] at hsub
    have hfrontSub : front.Sublist text.toList := htext ▸ List.sublist_append_left front back
    have hreplySub : reply.Sublist front := by
      rcases hreply with ⟨⟨x, tag, hsplit, -⟩, -⟩ | ⟨rfl, -⟩
      · rw [hsplit]
        exact (List.sublist_append_right tag reply).trans (List.sublist_append_right x _)
      · exact .refl _
    have hfront : front = text.toList := hfrontSub.antisymm (hsub.trans hreplySub)
    have hself : reply = text.toList := (hreplySub.trans hfrontSub).antisymm hsub
    rw [hself] at hlist
    refine ⟨?_, hfree.mpr (after_eq_self_iff.mp hlist)⟩
    rintro ⟨front', back', hsplit, hleak⟩
    have hlength := hfirst front' back' hsplit hleak
    rw [hfront, hsplit, List.length_append] at hlength
    obtain rfl : back' = [] := List.length_eq_zero_iff.mp (by omega)
    obtain ⟨-, marker, hmarker, hpre⟩ := hleak
    obtain ⟨w, hshape, -⟩ := marker_shape hmarker
    rw [hshape] at hpre
    exact List.cons_ne_nil _ _ (List.prefix_nil.mp hpre)

def blankLetter : Language Char := {cs | ∃ c, isSpace c = true ∧ cs = [c]}

/-- Stretches that leave nothing, and blanks. -/
def blanked : Language Char := goes leakSweeps + blankLetter

theorem blanked_of_goes {cs : List Char} (h : cs ∈ (goes leakSweeps)∗) : cs ∈ blanked∗ :=
  star_mono (fun _ hv => (Language.mem_add _ _ _).mpr (Or.inl hv)) cs h

/-- What stands before a marker that is to be at the start of a line: a line break or nothing, and
    behind it only what goes; or, in a text that something is taken out of, only that and blanks. -/
def AtFront (text : String) (front : List Char) : Prop :=
  (∃ init gone, front = init ++ gone ∧ (init = [] ∨ ∃ i, init = i ++ ['\n']) ∧
    gone ∈ (goes leakSweeps)∗) ∨ ¬ LeakFree text ∧ front ∈ blanked∗

/-- Where the letters of a tag stand around what goes, the whole goes as one tag; and where the
    letters of a marker stand so at the front of a line, they are the front of a tag that goes. -/
structure Mends (text : String) (reply : List Char) : Prop where
  tags : ∀ tag body, LeakTag tag → body <:+: reply → body ∈ spread (goes leakSweeps)∗ tag →
    body ∈ goes leakSweeps
  lines : ∀ front body back, ∀ marker ∈ leakMarkers, reply = front ++ (body ++ back) →
    AtFront text front → body ∈ spread (goes leakSweeps)∗ marker.toList →
    ∃ v ∈ goes leakSweeps, v <+: body ++ back

theorem after_blanked {front : List Char} (h : front ∈ blanked∗) (back : List Char) :
    ∃ blanks, after leakSweeps (front ++ back) = blanks ++ after leakSweeps back ∧
      blanks.all isSpace = true := by
  obtain ⟨parts, rfl, hparts⟩ := h
  induction parts with
  | nil => exact ⟨[], rfl, rfl⟩
  | cons part parts ih =>
    obtain ⟨blanks, heq, hblanks⟩ := ih fun p hp => hparts p (List.mem_cons_of_mem part hp)
    rw [List.flatten_cons, List.append_assoc]
    have hpart : part ∈ goes leakSweeps + blankLetter := hparts part List.mem_cons_self
    rcases (Language.mem_add _ _ _).mp hpart with hgoes | ⟨c, hc, rfl⟩
    · exact ⟨blanks, by rw [after_shut_append (shut_of_goes part hgoes),
        after_goes leakSweeps_distinct part hgoes, heq]; rfl, hblanks⟩
    · refine ⟨c :: blanks, ?_, by rw [List.all_cons, hc, hblanks]; rfl⟩
      have hwall := after_wall [] (parts.flatten ++ back) (space_notMem_leakTag hc)
      rw [List.singleton_append, ← List.nil_append (c :: _), hwall, after_nil, heq]
      rfl

theorem blanked_of_after : ∀ {blanks front : List Char}, after leakSweeps front = blanks →
    blanks.all isSpace = true → front ∈ blanked∗
  | [], _, h, _ => blanked_of_goes (goes_of_after leakSweeps_distinct h)
  | c :: blanks, front, h, hblanks => by
    rw [List.all_cons, Bool.and_eq_true] at hblanks
    obtain ⟨x, y, rfl, hx, hy, -, -⟩ := after_keep leakSweeps_distinct (x := []) h
    have hfront : x ∈ blanked∗ := blanked_of_goes (goes_of_after leakSweeps_distinct hx)
    have hc : [c] ∈ blanked∗ := mem_star ((Language.mem_add _ _ _).mpr (Or.inr ⟨c, hblanks.1, rfl⟩))
    exact append_mem_star hfront (append_mem_star hc (blanked_of_after hy hblanks.2))

/-- What stands before a marker of the swept reply comes from such a front, and no other. -/
theorem atFront_iff {text : String} {front : List Char} : AtFront text front ↔
    (after leakSweeps front = [] ∨ ∃ init, after leakSweeps front = init ++ ['\n']) ∨
      ¬ LeakFree text ∧ (after leakSweeps front).all isSpace = true := by
  have hbreak : isSpace '\n' = true := by decide
  constructor
  · rintro (⟨init, gone, rfl, hline, hgone⟩ | ⟨htouched, hblank⟩)
    · left
      have hnil := after_goes_star leakSweeps_distinct hgone
      rcases hline with rfl | ⟨i, rfl⟩
      · exact Or.inl hnil
      · right
        refine ⟨after leakSweeps i, ?_⟩
        rw [List.append_assoc, List.singleton_append, after_wall i gone (space_notMem_leakTag hbreak),
          hnil]
    · obtain ⟨blanks, heq, hblanks⟩ := after_blanked hblank []
      rw [List.append_nil, after_nil, List.append_nil] at heq
      exact Or.inr ⟨htouched, heq ▸ hblanks⟩
  · rintro ((hnil | ⟨init, heq⟩) | ⟨htouched, hblanks⟩)
    · exact Or.inl ⟨[], front, rfl, Or.inl rfl, goes_of_after leakSweeps_distinct hnil⟩
    · obtain ⟨x, y, rfl, -, hy, -, -⟩ := after_keep leakSweeps_distinct heq
      exact Or.inl ⟨x ++ ['\n'], y, by rw [List.append_assoc]; rfl, Or.inr ⟨x, rfl⟩,
        goes_of_after leakSweeps_distinct hy⟩
    · exact Or.inr ⟨htouched, blanked_of_after rfl hblanks⟩

/-- STEP: the guard's answer is free of tags and marker lines just when the reply mends. -/
theorem leakFree_stripLeakedTranscript_iff {text : String} {reply : List Char}
    (h : Reply text.toList reply) : LeakFree (stripLeakedTranscript text) ↔ Mends text reply := by
  have hfree := leakFree_iff h
  have hanswer : LeakFree (stripLeakedTranscript text) ↔
      (∀ w, LeakTag w → ¬ w <:+: after leakSweeps reply) ∧
      ∀ front back, after leakSweeps reply = front ++ back →
        (front = [] ∨ (∃ init, front = init ++ ['\n'])) ∨ ¬ LeakFree text ∧ front.all isSpace = true →
        ∀ marker ∈ leakMarkers, ¬ marker.toList <+: back := by
    rw [stripLeakedTranscript_eq h]
    by_cases hself : String.ofList (after leakSweeps reply) = text
    · have hlist : after leakSweeps reply = text.toList := by
        rw [← hself, String.toList_ofList]
      have hclean := hfree.mpr hself
      rw [if_pos hself, hlist]
      refine ⟨fun _ => ⟨hclean.2, ?_⟩, fun _ => hclean⟩
      rintro front back hsplit (hline | ⟨htouched, -⟩) marker hmarker hpre
      · exact hclean.1 ⟨front, back, hsplit, hline, marker, hmarker, hpre⟩
      · exact htouched hclean
    · have htouched : ¬ LeakFree text := fun hclean => hself (hfree.mp hclean)
      rw [if_neg hself, LeakFree, strip_ofList, hasLeakLine_stripLetters_iff, and_comm]
      refine and_congr ?_ ?_
      · exact forall₂_congr fun w hw => not_congr (infix_stripLetters_iff hw _)
      · constructor
        · rintro hnone front back hsplit hline marker hmarker hpre
          refine hnone ⟨front, back, hsplit, ?_, marker, hmarker, hpre⟩
          rcases hline with (rfl | hbreak) | ⟨-, hblank⟩
          · exact Or.inl rfl
          · exact Or.inr hbreak
          · exact Or.inl hblank
        · rintro hall ⟨front, back, hsplit, hline, marker, hmarker, hpre⟩
          refine hall front back hsplit ?_ marker hmarker hpre
          rcases hline with hblank | hbreak
          · exact Or.inr ⟨htouched, hblank⟩
          · exact Or.inl (Or.inr hbreak)
  rw [hanswer]
  constructor
  · rintro ⟨htags, hlines⟩
    refine ⟨?_, ?_⟩
    · rintro tag body ⟨q, hq, htag⟩ hbody hspread
      exact (after_clear_iff leakSweeps_distinct).mp (fun q hq w hw => htags w ⟨q, hq, hw⟩) q hq tag body
        htag hbody hspread
    · intro front body back marker hmarker hreply hfront hspread
      by_contra hnone
      obtain ⟨w, hshape, hopens, -⟩ := marker_shape hmarker
      rw [hshape] at hspread
      have hgoes : ∀ v ∈ goes leakSweeps, ¬ v <+: body ++ back := fun v hv hpre => hnone ⟨v, hv, hpre⟩
      have hleft := left_of_spread leakSweeps_distinct (Or.inl rfl) hopens hspread front hgoes
      rw [← hreply] at hleft
      refine hlines _ _ hleft (atFront_iff.mp hfront) marker hmarker ?_
      rw [hshape]
      exact List.prefix_append _ _
  · intro hmends
    refine ⟨?_, ?_⟩
    · rintro w ⟨q, hq, hw⟩
      exact (after_clear_iff leakSweeps_distinct).mpr
        (fun q hq w body hw hbody hspread => hmends.tags w body ⟨q, hq, hw⟩ hbody hspread) q hq w hw
    · rintro front back hsplit hline marker hmarker ⟨rest, rfl⟩
      obtain ⟨w, hshape, hopens, -⟩ := marker_shape hmarker
      rw [hshape] at hsplit
      obtain ⟨x, body, tail, hreply, hx, hspread, hnone⟩ := spread_of_left leakSweeps_distinct hsplit
      rw [← hshape] at hspread
      obtain ⟨v, hv, hpre⟩ := hmends.lines x body tail marker hmarker hreply
        (atFront_iff.mpr (hx ▸ hline)) hspread
      exact hnone v hv hpre

/-- A text without tags and marker lines comes back as it is. -/
theorem stripLeakedTranscript_leakFree {text : String} (h : LeakFree text) :
    stripLeakedTranscript text = text := by
  obtain ⟨reply, hreply⟩ := exists_reply text.toList
  rw [stripLeakedTranscript_eq hreply, if_pos ((leakFree_iff hreply).mp h)]

/-- EXACT CONDITION: the guard keeps its promise for a text just when its reply mends. -/
theorem guarded_iff (text : String) :
    Guarded text ↔ ∀ reply, Reply text.toList reply → Mends text reply := by
  constructor
  · intro h reply hreply
    exact (leakFree_stripLeakedTranscript_iff hreply).mp h.clean
  · intro h
    obtain ⟨reply, hreply⟩ := exists_reply text.toList
    have hclean := (leakFree_stripLeakedTranscript_iff hreply).mpr (h reply hreply)
    exact ⟨hclean, stripLeakedTranscript_leakFree hclean, stripLeakedTranscript_leakFree⟩

/-- Around a wrapper tag, the pieces of another: taking the one out leaves the other. -/
theorem not_guarded : ¬ ∀ text, Guarded text := by
  intro h
  have hanswer : (stripLeakedTranscript "</assis</answer>tant>").toList = "</assistant>".toList ∧
      "</assistant>".toList.map foldCase ∈
        tagSpellings .either ["assistant", "final_answer", "answer", "response", "reply"] := by
    decide +kernel
  have hclean := (h "</assis</answer>tant>").clean.2
  rw [hanswer.1] at hclean
  exact hclean _ ⟨wrapperSweep, by simp [leakSweeps], hanswer.2⟩ List.infix_rfl

end LunaCore.Providers
