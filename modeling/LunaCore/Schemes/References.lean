import Mathlib.Data.List.Basic
import Mathlib.Tactic.Common

/-! A reference (the text of a URL) and its components.

    https://api.test/v1/../users?limit=5#top
    segments      https:  ""  api.test  v1  ↑  users
    query         limit=5
    fragment      top

    The fragment is behind the first hash, the query behind the first question mark before it, and
    what is left is cut at its slashes. The scheme and the host are the first of the segments. The
    segments of one and of two dots are no names: they say where to go from the name before. The
    alphabet has four marks and is any type, so a template is a reference as well as a text is. -/

namespace LunaCore.Schemes

/-- The letters that give a reference its structure. -/
structure Marks (α : Type*) where
  slash : α
  question : α
  hash : α
  dot : α
  slash_ne_question : slash ≠ question
  slash_ne_hash : slash ≠ hash
  question_ne_hash : question ≠ hash
  slash_ne_dot : slash ≠ dot
  question_ne_dot : question ≠ dot
  hash_ne_dot : hash ≠ dot

inductive Segment (α : Type*) where
  | here
  | up
  | name (text : List α)
  deriving DecidableEq

structure Reference (α : Type*) where
  segments : List (Segment α)
  query : Option (List α)
  fragment : Option (List α)
  deriving DecidableEq

variable {α : Type*}

/-! ### Joining -/

theorem mem_intercalate {mark c : α} : ∀ {pieces : List (List α)},
    c ∈ [mark].intercalate pieces → c = mark ∨ ∃ piece ∈ pieces, c ∈ piece
  | [], h => by cases h
  | [piece], h => by
    rw [List.intercalate_singleton] at h
    exact .inr ⟨piece, List.mem_singleton_self _, h⟩
  | piece :: next :: pieces, h => by
    rw [List.intercalate_cons_cons, List.mem_append, List.mem_append, List.mem_singleton] at h
    rcases h with (hpiece | hmark) | hrest
    · exact .inr ⟨piece, List.mem_cons_self, hpiece⟩
    · exact .inl hmark
    · exact (mem_intercalate hrest).imp_right fun ⟨other, hother, hc⟩ =>
        ⟨other, List.mem_cons_of_mem _ hother, hc⟩

theorem mem_intercalate_of_mem {mark c : α} {piece : List α} (hc : c ∈ piece) :
    ∀ {pieces : List (List α)}, piece ∈ pieces → c ∈ [mark].intercalate pieces
  | [only], h => by
    rw [List.mem_singleton] at h
    rw [List.intercalate_singleton, ← h]
    exact hc
  | first :: next :: pieces, h => by
    rw [List.intercalate_cons_cons, List.mem_append, List.mem_append]
    rcases List.mem_cons.mp h with rfl | hrest
    · exact .inl (.inl hc)
    · exact .inr (mem_intercalate_of_mem hc hrest)

/-! ### Cutting at the first mark -/

variable [DecidableEq α]

/-- What is before the first mark and, where there is one, behind it. -/
def cutAt (mark : α) : List α → List α × Option (List α)
  | [] => ([], none)
  | c :: rest =>
    if c = mark then ([], some rest) else (c :: (cutAt mark rest).1, (cutAt mark rest).2)

/-- The two sides with the mark between them. -/
def glueAt (mark : α) (before : List α) : Option (List α) → List α
  | none => before
  | some after => before ++ mark :: after

theorem glueAt_cutAt (mark : α) : ∀ text : List α,
    glueAt mark (cutAt mark text).1 (cutAt mark text).2 = text
  | [] => rfl
  | c :: rest => by
    have ih := glueAt_cutAt mark rest
    rw [cutAt]
    split
    case isTrue h => simp [glueAt, h]
    case isFalse =>
      cases hafter : (cutAt mark rest).2 with
      | none =>
        rw [hafter] at ih
        exact congrArg (c :: ·) ih
      | some after =>
        rw [hafter] at ih
        exact congrArg (c :: ·) ih

theorem not_mem_cutAt (mark : α) : ∀ text : List α, mark ∉ (cutAt mark text).1
  | [] => List.not_mem_nil
  | c :: rest => by
    rw [cutAt]
    split
    case isTrue => exact List.not_mem_nil
    case isFalse h => exact List.not_mem_cons_of_ne_of_not_mem (Ne.symm h) (not_mem_cutAt mark rest)

theorem cutAt_glueAt {mark : α} {before : List α} (h : mark ∉ before) (after : Option (List α)) :
    cutAt mark (glueAt mark before after) = (before, after) := by
  induction before with
  | nil => cases after <;> simp [glueAt, cutAt]
  | cons c before ih =>
    have hc : mark ≠ c := List.ne_of_not_mem_cons h
    have hrest := ih (List.not_mem_of_not_mem_cons h)
    cases after <;> simpa [glueAt, cutAt, Ne.symm hc, Prod.ext_iff] using hrest

theorem mem_of_mem_cutAt {mark c : α} {text : List α} (h : c ∈ (cutAt mark text).1) : c ∈ text := by
  rw [← glueAt_cutAt mark text]
  cases (cutAt mark text).2 with
  | none => exact h
  | some after => exact List.mem_append_left _ h

theorem mem_of_mem_behind {mark c : α} {text after : List α}
    (hafter : (cutAt mark text).2 = some after) (h : c ∈ after) : c ∈ text := by
  rw [← glueAt_cutAt mark text, hafter]
  exact List.mem_append_right _ (List.mem_cons_of_mem _ h)

theorem cutAt_append {mark : α} {front : List α} (h : mark ∉ front) (text : List α) :
    cutAt mark (front ++ text) = (front ++ (cutAt mark text).1, (cutAt mark text).2) := by
  induction front with
  | nil => rfl
  | cons c front ih =>
    have hc : mark ≠ c := List.ne_of_not_mem_cons h
    rw [List.cons_append, cutAt, if_neg (Ne.symm hc), ih (List.not_mem_of_not_mem_cons h)]
    rfl

/-! ### Cutting at every mark -/

theorem not_mem_of_mem_splitOn {mark : α} : ∀ {text : List α}, ∀ piece ∈ text.splitOn mark,
    mark ∉ piece
  | [], piece, h => by
    rw [List.splitOn_nil, List.mem_singleton] at h
    exact h ▸ List.not_mem_nil
  | c :: rest, piece, h => by
    rw [List.splitOn_cons_eq_if_modifyHead] at h
    have ih : ∀ piece ∈ rest.splitOn mark, mark ∉ piece := fun piece => not_mem_of_mem_splitOn piece
    split at h
    case isTrue =>
      rcases List.mem_cons.mp h with rfl | hpiece
      · exact List.not_mem_nil
      · exact ih piece hpiece
    case isFalse hc =>
      rw [beq_iff_eq] at hc
      cases hrest : rest.splitOn mark with
      | nil => exact absurd hrest (List.splitOn_ne_nil mark rest)
      | cons first others =>
        rw [hrest] at h ih
        rcases List.mem_cons.mp h with rfl | hpiece
        · exact List.not_mem_cons_of_ne_of_not_mem (Ne.symm hc) (ih first List.mem_cons_self)
        · exact ih piece (List.mem_cons_of_mem _ hpiece)

/-! ### The components of a reference -/

variable (m : Marks α)

def segmentOf (text : List α) : Segment α :=
  if text = [m.dot] then .here else if text = [m.dot, m.dot] then .up else .name text

def Segment.source : Segment α → List α
  | .here => [m.dot]
  | .up => [m.dot, m.dot]
  | .name text => text

/-- The components of a text. -/
def parse (text : List α) : Reference α :=
  let (before, fragment) := cutAt m.hash text
  let (path, query) := cutAt m.question before
  { segments := (path.splitOn m.slash).map (segmentOf m), query, fragment }

/-- The text of the components. -/
def Reference.source (r : Reference α) : List α :=
  glueAt m.hash
    (glueAt m.question ([m.slash].intercalate (r.segments.map (Segment.source m))) r.query)
    r.fragment

/-- A name has no letter that ends a segment, and is no step. -/
structure IsName (text : List α) : Prop where
  slash : m.slash ∉ text
  question : m.question ∉ text
  hash : m.hash ∉ text
  here : text ≠ [m.dot]
  up : text ≠ [m.dot, m.dot]

/-- The components can be told apart in the text. -/
structure Reference.Valid (r : Reference α) : Prop where
  nonempty : r.segments ≠ []
  names : ∀ text, .name text ∈ r.segments → IsName m text
  query : ∀ text, r.query = some text → m.hash ∉ text

variable {m}

theorem source_segmentOf (text : List α) : (segmentOf m text).source m = text := by
  unfold segmentOf
  split
  case isTrue h => exact h.symm
  case isFalse =>
    split
    case isTrue h => exact h.symm
    case isFalse => rfl

theorem segmentOf_source {segment : Segment α} (h : ∀ text, segment = .name text → IsName m text) :
    segmentOf m (segment.source m) = segment := by
  cases segment with
  | here => rw [Segment.source, segmentOf, if_pos rfl]
  | up => rw [Segment.source, segmentOf, if_neg (by simp), if_pos rfl]
  | name text =>
    have hname := h text rfl
    rw [Segment.source, segmentOf, if_neg hname.here, if_neg hname.up]

omit [DecidableEq α] in
theorem mem_source_of_segment {r : Reference α} (hr : r.Valid m) {piece : List α}
    (hpiece : piece ∈ r.segments.map (Segment.source m)) :
    m.slash ∉ piece ∧ m.question ∉ piece ∧ m.hash ∉ piece := by
  obtain ⟨segment, hsegment, rfl⟩ := List.mem_map.mp hpiece
  cases segment with
  | here => simp [Segment.source, m.slash_ne_dot, m.question_ne_dot, m.hash_ne_dot]
  | up => simp [Segment.source, m.slash_ne_dot, m.question_ne_dot, m.hash_ne_dot]
  | name text =>
    have hname := hr.names text hsegment
    exact ⟨hname.slash, hname.question, hname.hash⟩

/-- A text has the valid components it is the source of. -/
theorem parse_source {r : Reference α} (hr : r.Valid m) : parse m (r.source m) = r := by
  have hno {mark : α} (hslash : mark ≠ m.slash)
      (hpieces : ∀ piece ∈ r.segments.map (Segment.source m), mark ∉ piece) :
      mark ∉ [m.slash].intercalate (r.segments.map (Segment.source m)) := by
    intro hmem
    rcases mem_intercalate hmem with heq | ⟨piece, hpiece, hc⟩
    · exact hslash heq
    · exact hpieces piece hpiece hc
  have hquestion := hno m.slash_ne_question.symm fun piece h => (mem_source_of_segment hr h).2.1
  have hpath := hno m.slash_ne_hash.symm fun piece h => (mem_source_of_segment hr h).2.2
  have hhash : m.hash ∉ glueAt m.question
      ([m.slash].intercalate (r.segments.map (Segment.source m))) r.query := by
    cases hquery : r.query with
    | none => exact hpath
    | some query =>
      simp only [glueAt, List.mem_append, List.mem_cons, not_or]
      exact ⟨hpath, Ne.symm m.question_ne_hash, hr.query query hquery⟩
  have hsegments : ([m.slash].intercalate (r.segments.map (Segment.source m))).splitOn m.slash =
      r.segments.map (Segment.source m) :=
    List.splitOn_intercalate m.slash (fun piece h => (mem_source_of_segment hr h).1)
      (by simpa using hr.nonempty)
  have hback : (r.segments.map (Segment.source m)).map (segmentOf m) = r.segments := by
    rw [List.map_map]
    refine (List.map_congr_left fun segment h => ?_).trans (List.map_id _)
    exact segmentOf_source fun text heq => hr.names text (heq ▸ h)
  simp only [parse, Reference.source, cutAt_glueAt hhash, cutAt_glueAt hquestion, hsegments, hback]

theorem source_parse (text : List α) : (parse m text).source m = text := by
  have hback (pieces : List (List α)) :
      (pieces.map (segmentOf m)).map (Segment.source m) = pieces := by
    rw [List.map_map]
    exact (List.map_congr_left fun piece _ => source_segmentOf piece).trans (List.map_id _)
  simp only [parse, Reference.source, hback, List.intercalate_splitOn, glueAt_cutAt]

theorem valid_parse (text : List α) : (parse m text).Valid m := by
  refine ⟨?_, ?_, ?_⟩
  · simp [parse, List.splitOn_ne_nil]
  · intro name hname
    obtain ⟨piece, hpiece, hsegment⟩ := List.mem_map.mp hname
    have hpath {c : α} (hc : c ∈ piece) : c ∈ (cutAt m.question (cutAt m.hash text).1).1 := by
      have hmem : c ∈ [m.slash].intercalate
          ((cutAt m.question (cutAt m.hash text).1).1.splitOn m.slash) :=
        mem_intercalate_of_mem hc hpiece
      rwa [List.intercalate_splitOn] at hmem
    unfold segmentOf at hsegment
    split at hsegment
    case isTrue => cases hsegment
    case isFalse hhere =>
      split at hsegment
      case isTrue => cases hsegment
      case isFalse hup =>
        obtain rfl := Segment.name.inj hsegment
        exact ⟨not_mem_of_mem_splitOn piece hpiece, fun h => not_mem_cutAt _ _ (hpath h),
          fun h => not_mem_cutAt m.hash text (mem_of_mem_cutAt (hpath h)), hhere, hup⟩
  · intro query hquery hmem
    exact not_mem_cutAt m.hash text (mem_of_mem_behind hquery hmem)

/-- To parse is to find the valid components. -/
theorem parse_eq_iff {text : List α} {r : Reference α} :
    parse m text = r ↔ r.Valid m ∧ r.source m = text := by
  constructor
  · rintro rfl
    exact ⟨valid_parse text, source_parse text⟩
  · rintro ⟨hr, rfl⟩
    exact parse_source hr

/-- What is put behind a slash leaves the segments before it as they are. -/
theorem segments_prefix {base : List α} (hquestion : m.question ∉ base) (hhash : m.hash ∉ base)
    (rest : List α) :
    (parse m base).segments <+: (parse m (base ++ m.slash :: rest)).segments := by
  have hbase : (parse m base).segments = (base.splitOn m.slash).map (segmentOf m) := by
    have hcut := cutAt_append hhash []
    have hcut' := cutAt_append hquestion []
    simp only [List.append_nil, cutAt] at hcut hcut'
    simp only [parse, hcut, hcut']
  have hslash : cutAt m.hash (m.slash :: rest) =
      (m.slash :: (cutAt m.hash rest).1, (cutAt m.hash rest).2) := by
    rw [cutAt, if_neg m.slash_ne_hash]
  have hslash' (text : List α) : cutAt m.question (m.slash :: text) =
      (m.slash :: (cutAt m.question text).1, (cutAt m.question text).2) := by
    rw [cutAt, if_neg m.slash_ne_question]
  rw [hbase]
  simp only [parse, cutAt_append hhash, hslash, cutAt_append hquestion, hslash',
    List.splitOn_append_cons_self, List.map_append]
  exact List.prefix_append _ _

/-! ### Replacing letters by texts -/

def Segment.map {β : Type*} (f : List α → List β) : Segment α → Segment β
  | .here => .here
  | .up => .up
  | .name text => .name (f text)

/-- The components one by one. -/
def Reference.map {β : Type*} (f : List α → List β) (r : Reference α) : Reference β where
  segments := r.segments.map (Segment.map f)
  query := r.query.map f
  fragment := r.fragment.map f

variable {β : Type*} [DecidableEq β] {n : Marks β}

/-- The marks of one alphabet become those of the other. -/
structure Keeps (m : Marks α) (n : Marks β) (g : α → List β) : Prop where
  slash : g m.slash = [n.slash]
  question : g m.question = [n.question]
  hash : g m.hash = [n.hash]
  dot : g m.dot = [n.dot]

omit [DecidableEq α] [DecidableEq β] in
theorem flatMap_intercalate {g : α → List β} {mark : α} {mark' : β} (h : g mark = [mark']) :
    ∀ pieces : List (List α), ([mark].intercalate pieces).flatMap g =
      [mark'].intercalate (pieces.map (·.flatMap g))
  | [] => rfl
  | [piece] => by simp
  | piece :: next :: pieces => by
    have ih := flatMap_intercalate h (next :: pieces)
    rw [List.map_cons] at ih
    rw [List.intercalate_cons_cons, List.map_cons, List.map_cons, List.intercalate_cons_cons,
      ← ih, List.flatMap_append, List.flatMap_append, List.flatMap_singleton, h]

omit [DecidableEq α] [DecidableEq β] in
theorem flatMap_glueAt {g : α → List β} {mark : α} {mark' : β} (h : g mark = [mark'])
    (before : List α) (after : Option (List α)) : (glueAt mark before after).flatMap g =
      glueAt mark' (before.flatMap g) (after.map (·.flatMap g)) := by
  cases after with
  | none => rfl
  | some after => simp [glueAt, h]

omit [DecidableEq α] [DecidableEq β] in
/-- Replacing letters in the components replaces them in the text. -/
theorem source_map {g : α → List β} (hg : Keeps m n g) (r : Reference α) :
    (r.map (·.flatMap g)).source n = (r.source m).flatMap g := by
  have hsegments : (r.segments.map (Segment.map (·.flatMap g))).map (Segment.source n) =
      (r.segments.map (Segment.source m)).map (·.flatMap g) := by
    rw [List.map_map, List.map_map]
    refine List.map_congr_left fun segment _ => ?_
    cases segment <;> simp [Segment.map, Segment.source, hg.dot]
  simp only [Reference.source, Reference.map, hsegments, flatMap_glueAt hg.hash,
    flatMap_glueAt hg.question, flatMap_intercalate hg.slash]

/-- REPLACEMENT RULE: a text has the components of the one it is made from, replaced one by one,
    just when what replaces a name is a name and no query gets a hash. -/
theorem parse_flatMap_iff {g : α → List β} (hg : Keeps m n g) {text : List α} {text' : List β} :
    parse n text' = (parse m text).map (·.flatMap g) ↔
      text' = text.flatMap g ∧
        (∀ name, .name name ∈ (parse m text).segments → IsName n (name.flatMap g)) ∧
        ∀ query, (parse m text).query = some query → n.hash ∉ query.flatMap g := by
  rw [parse_eq_iff, source_map hg, source_parse, and_comm]
  refine and_congr eq_comm ⟨fun hvalid => ⟨fun name hname => ?_, fun query hquery => ?_⟩,
    fun ⟨hnames, hquery⟩ => ⟨?_, fun name hname => ?_, fun query hquery' => ?_⟩⟩
  · exact hvalid.names _ (List.mem_map_of_mem (f := Segment.map _) hname)
  · exact hvalid.query _ (by rw [Reference.map, hquery]; rfl)
  · simpa [Reference.map] using (valid_parse text).nonempty
  · obtain ⟨segment, hsegment, heq⟩ := List.mem_map.mp hname
    cases segment with
    | here => cases heq
    | up => cases heq
    | name source =>
      obtain rfl := Segment.name.inj heq
      exact hnames source hsegment
  · obtain ⟨source, hsource, rfl⟩ := Option.map_eq_some_iff.mp hquery'
    exact hquery source hsource

end LunaCore.Schemes
