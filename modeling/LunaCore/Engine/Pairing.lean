import LunaCore.Engine.ChatRunner

/-! Calls and results in a history: which calls are left to answer after each message.

    A history is read from the front: every message answers exactly the calls of the one before it,
    and leaves its own to the next. The rows of a table are read the same way, partial ones as
    empty messages; the history a turn loads from them leaves the same calls. -/

namespace LunaCore.Engine
open LunaCore.Values LunaCore.Chat

/-- The ids the tool results among blocks answer. -/
def resultIds (blocks : List Block) : List (Option String) :=
  blocks.filterMap fun
    | .toolResult id _ _ => some id
    | _ => none

/-- The ids of an assistant message's tool uses. -/
def callIds (message : Canonical) : List (Option String) :=
  if message.1 = .assistant then (toolUses message.2).map ToolUse.id else []

/-- Every id is answered by exactly one result, and no result answers anything else. -/
def Answers (ids results : List (Option String)) : Prop :=
  (∀ id ∈ ids, results.count id = 1) ∧ ∀ id ∈ results, id ∈ ids

/-- Where `ids` are to be answered first, the history answers every call in the message right after
    it, but for those of its last message: `left`. -/
def Leaves (ids : List (Option String)) : List Canonical → List (Option String) → Prop
  | [], left => ids = left
  | message :: rest, left => Answers ids (resultIds message.2) ∧ Leaves (callIds message) rest left

/-- Every tool use of the history is answered by exactly one tool result, in the message right after
    it, and every tool result answers a tool use of the message right before it. -/
def Paired (history : List Canonical) : Prop := Leaves [] history []

instance (ids results : List (Option String)) : Decidable (Answers ids results) :=
  inferInstanceAs (Decidable (_ ∧ _))

instance Leaves.decidable : ∀ ids history left, Decidable (Leaves ids history left)
  | ids, [], left => inferInstanceAs (Decidable (ids = left))
  | ids, message :: rest, left =>
    have := Leaves.decidable (callIds message) rest left
    inferInstanceAs (Decidable (Answers ids (resultIds message.2) ∧ Leaves _ rest left))

instance (history : List Canonical) : Decidable (Paired history) := Leaves.decidable ..

/-! ### Messages -/

theorem answers_nil {ids : List (Option String)} : Answers ids [] ↔ ids = [] := by
  constructor
  · intro h
    refine List.eq_nil_iff_forall_not_mem.mpr fun id hid => ?_
    simpa using h.1 id hid
  · rintro rfl
    exact ⟨by simp, by simp⟩

/-- Different ids answer themselves. -/
theorem answers_self {ids : List (Option String)} (h : ids.Nodup) : Answers ids ids :=
  ⟨fun _ hid => List.count_eq_one_of_mem h hid, fun _ hid => hid⟩

@[simp] theorem callIds_assistant (content : List Block) :
    callIds (.assistant, content) = (toolUses content).map ToolUse.id := rfl

theorem leaves_append {ids left : List (Option String)} {xs ys : List Canonical} :
    Leaves ids (xs ++ ys) left ↔ ∃ mid, Leaves ids xs mid ∧ Leaves mid ys left := by
  induction xs generalizing ids with
  | nil => simp [Leaves]
  | cons x xs ih => simp only [List.cons_append, Leaves, ih, and_assoc, exists_and_left]

theorem leaves_concat {ids left : List (Option String)} {xs : List Canonical} {y : Canonical} :
    Leaves ids (xs ++ [y]) left ↔
      ∃ mid, Leaves ids xs mid ∧ Answers mid (resultIds y.2) ∧ callIds y = left :=
  leaves_append

/-- What a history leaves are the calls of its last message. -/
theorem Leaves.last {history : List Canonical} {left : List (Option String)}
    (h : Leaves [] history left) (hleft : left ≠ []) :
    ∃ message, history.getLast? = some message ∧ callIds message = left := by
  rcases List.eq_nil_or_concat' history with rfl | ⟨init, message, rfl⟩
  · exact absurd h.symm hleft
  · obtain ⟨_, _, _, hcalls⟩ := leaves_concat.mp h
    exact ⟨message, List.getLast?_concat, hcalls⟩

theorem Leaves.last_assistant {history : List Canonical} {left : List (Option String)}
    {content : List Block} (h : Leaves [] history left)
    (hlast : history.getLast? = some (Role.assistant, content)) :
    left = (toolUses content).map ToolUse.id := by
  obtain ⟨init, rfl⟩ := List.getLast?_eq_some_iff.mp hlast
  obtain ⟨_, _, _, hcalls⟩ := leaves_concat.mp h
  exact hcalls.symm

/-- A history that starts by answering nothing has nothing to answer first. -/
theorem Leaves.quiet {ids : List (Option String)} {history : List Canonical}
    (h : Leaves ids history []) (hquiet : ∀ m ∈ history, resultIds m.2 = []) : ids = [] := by
  cases history with
  | nil => exact h
  | cons m rest =>
    have hanswers := h.1
    rw [hquiet m List.mem_cons_self] at hanswers
    exact answers_nil.mp hanswers

/-- Without its last message, which answers nothing, a paired history is paired. -/
theorem Leaves.dropLast {ids : List (Option String)} {init : List Canonical} {m : Canonical}
    (h : Leaves ids (init ++ [m]) []) (hquiet : resultIds m.2 = []) : Leaves ids init [] := by
  obtain ⟨mid, hinit, hanswers, -⟩ := leaves_concat.mp h
  rw [hquiet] at hanswers
  rwa [answers_nil.mp hanswers] at hinit

/-! ### Rows -/

/-- A row as the pairing sees it: a partial one holds nothing. -/
def shown (row : ConversationMessage) : Canonical :=
  if row.isPartial then (row.role, []) else canonical row

/-- What the runner and the providers store: results in user rows only, a marker under the system
    role, partial rows under the assistant's. -/
structure Tidy (row : ConversationMessage) : Prop where
  results : row.role ≠ .user → resultIds row.content = []
  marker : isMarker row = true → row.role = .system
  partially : row.isPartial = true → row.role = .assistant

/-- The rows above the sequence covered by the marker in force. -/
def liveRows (rows : List ConversationMessage) : List ConversationMessage :=
  rows.filter fun row => decide (coveredThrough rows < row.sequence)

/-- The calls the rows leave to answer. -/
def Stands (rows : List ConversationMessage) (left : List (Option String)) : Prop :=
  Leaves [] ((liveRows rows).map shown) left

theorem shown_final {row : ConversationMessage} (h : row.isPartial = false) :
    shown row = canonical row := by simp [shown, h]

theorem shown_streamed {row : ConversationMessage} (h : row.isPartial = true) :
    shown row = (row.role, []) := by simp [shown, h]

/-- A partial row and a marker hold neither calls nor results. -/
theorem Tidy.silent {row : ConversationMessage} (h : Tidy row)
    (hrow : row.isPartial = true ∨ isMarker row = true) :
    callIds (shown row) = [] ∧ resultIds (shown row).2 = [] := by
  cases hp : row.isPartial with
  | true =>
    rw [shown_streamed hp]
    exact ⟨by simp [callIds, toolUses], rfl⟩
  | false =>
    have hsystem := h.marker (hrow.resolve_left (by simp [hp]))
    rw [shown_final hp]
    exact ⟨by simp [callIds, canonical, hsystem], h.results (by simp [hsystem])⟩

/-- Rows that differ in neither calls nor results leave the same. -/
theorem leaves_congr {f g : ConversationMessage → Canonical} {rows : List ConversationMessage}
    {ids left : List (Option String)}
    (hsame : ∀ row ∈ rows,
      callIds (f row) = callIds (g row) ∧ resultIds (f row).2 = resultIds (g row).2)
    (h : Leaves ids (rows.map f) left) : Leaves ids (rows.map g) left := by
  induction rows generalizing ids with
  | nil => exact h
  | cons row rows ih =>
    obtain ⟨hcalls, hresults⟩ := hsame row List.mem_cons_self
    have hrest := ih (fun r hr => hsame r (List.mem_cons_of_mem _ hr)) h.2
    exact ⟨hresults ▸ h.1, hcalls ▸ hrest⟩

/-- Leaving silent rows out leaves the same calls. -/
theorem leaves_filter {keep : ConversationMessage → Bool} {rows : List ConversationMessage}
    {ids left : List (Option String)}
    (hsilent : ∀ row ∈ rows, keep row = false →
      callIds (shown row) = [] ∧ resultIds (shown row).2 = [])
    (h : Leaves ids (rows.map shown) left) :
    Leaves ids ((rows.filter keep).map shown) left := by
  induction rows generalizing ids with
  | nil => exact h
  | cons row rows ih =>
    have hrest : ∀ r ∈ rows, keep r = false →
        callIds (shown r) = [] ∧ resultIds (shown r).2 = [] :=
      fun r hr => hsilent r (List.mem_cons_of_mem row hr)
    cases hkeep : keep row with
    | true =>
      rw [List.filter_cons_of_pos hkeep]
      exact ⟨h.1, ih hrest h.2⟩
    | false =>
      obtain ⟨hcalls, hresults⟩ := hsilent row List.mem_cons_self hkeep
      have hanswers := h.1
      rw [hresults, answers_nil] at hanswers
      rw [List.filter_cons_of_neg (by simp [hkeep]), hanswers]
      exact ih hrest (hcalls ▸ h.2)

/-- The history loaded from the table leaves what the rows leave. -/
theorem leaves_loadHistory {rows : List ConversationMessage} (ht : Table rows)
    (htidy : ∀ row ∈ rows, Tidy row) {left : List (Option String)} (h : Stands rows left) :
    Leaves [] (loadHistory rows) left := by
  have hsent : sentRows (coveredThrough rows) rows =
      (liveRows rows).filter fun row => !row.isPartial && !isMarker row := by
    rw [sentRows, liveRows, List.filter_filter]
  have hshown : ((sentRows (coveredThrough rows) rows).map shown) =
      (sentRows (coveredThrough rows) rows).map canonical :=
    List.map_congr_left fun row hrow => shown_final (mem_sentRows.mp hrow).2.1
  have hrest : Leaves [] ((sentRows (coveredThrough rows) rows).map canonical) left := by
    rw [← hshown, hsent]
    refine leaves_filter (fun row hrow hkeep => ?_) h
    refine (htidy row (List.mem_filter.mp hrow).1).silent ?_
    cases hp : row.isPartial with
    | true => exact .inl rfl
    | false => exact .inr (by simpa [hp] using hkeep)
  rw [loadHistory]
  rw [historyRows_eq ht.ordered ht.markersFinal]
  cases hm : markerInForce rows with
  | none => simpa using hrest
  | some marker =>
    obtain ⟨hmem, hmarker⟩ := markerInForce_mem ht.ordered ht.markersFinal hm
    obtain ⟨hcalls, hresults⟩ := (htidy marker hmem).silent (.inr hmarker)
    rw [shown_final (ht.markersFinal marker hmem hmarker)] at hcalls hresults
    refine ⟨?_, ?_⟩
    · rw [hresults]
      exact answers_nil.mpr rfl
    · rw [hcalls]
      exact hrest

/-- A row is stored that answers what the rows left, and leaves its own calls. -/
theorem Stands.save {rows : List ConversationMessage} (ht : Table rows)
    {row : ConversationMessage} (hseq : row.sequence = nextMessageSequence rows)
    (hrow : isMarker row = false) {left : List (Option String)} (h : Stands rows left)
    (hanswers : Answers left (resultIds (shown row).2)) :
    Stands (rows ++ [row]) (callIds (shown row)) := by
  have habove : coveredThrough rows < row.sequence := hseq ▸ ht.coveredThrough_lt
  have hlive : liveRows (rows ++ [row]) = liveRows rows ++ [row] := by
    unfold liveRows
    rw [ht.coveredThrough_save hseq hrow, List.filter_append, List.filter_singleton]
    simp [habove]
  rw [Stands, hlive, List.map_append, List.map_singleton]
  exact leaves_concat.mpr ⟨left, h, hanswers, rfl⟩

/-- Edits in place that change neither calls nor results leave the same. -/
theorem Stands.edit {rows : List ConversationMessage} (ht : Table rows)
    {f : ConversationMessage → ConversationMessage} (hf : Edit f) {left : List (Option String)}
    (hsame : ∀ row ∈ liveRows rows, callIds (shown row) = callIds (shown (f row)) ∧
      resultIds (shown row).2 = resultIds (shown (f row)).2)
    (h : Stands rows left) : Stands (rows.map f) left := by
  have hlive : liveRows (rows.map f) = (liveRows rows).map f := by
    rw [liveRows]
    rw [hf.coveredThrough ht, List.filter_map]
    refine congrArg (List.map f) (List.filter_congr fun row _ => ?_)
    simp [hf.sequence]
  rw [Stands, hlive, List.map_map]
  exact leaves_congr hsame h

/-- Rows in order are those up to a sequence and then those above it. -/
theorem filter_le_append_gt (through : ℕ) {rows : List ConversationMessage}
    (h : rows.Pairwise (fun a b => a.sequence < b.sequence)) :
    rows.filter (fun row => !decide (through < row.sequence)) ++
      rows.filter (fun row => decide (through < row.sequence)) = rows := by
  induction rows with
  | nil => rfl
  | cons row rows ih =>
    obtain ⟨hhead, htail⟩ := List.pairwise_cons.mp h
    by_cases hlt : through < row.sequence
    · have hall : ∀ r ∈ rows, through < r.sequence := fun r hr => lt_trans hlt (hhead r hr)
      have hnone : rows.filter (fun r => !decide (through < r.sequence)) = [] :=
        List.filter_eq_nil_iff.mpr fun r hr => by simp [hall r hr]
      have hself : rows.filter (fun r => decide (through < r.sequence)) = rows :=
        List.filter_eq_self.mpr fun r hr => by simp [hall r hr]
      simp [hlt, hnone, hself]
    · rw [List.filter_cons_of_pos (by simp [hlt]), List.filter_cons_of_neg (by simp [hlt]),
        List.cons_append, ih htail]

theorem keptRows_assistant {rows : List ConversationMessage} {row : ConversationMessage}
    (h : row ∈ keptRows rows) : row.role = .assistant := by
  rw [keptRows, summarizedRows] at h
  split at h
  case isTrue hlast =>
    rcases List.eq_nil_or_concat' rows with rfl | ⟨init, last, rfl⟩
    · simp at h
    · rw [List.dropLast_concat, List.drop_left, List.mem_singleton] at h
      simpa [h] using hlast
  case isFalse => simp at h

section

variable {rows : List ConversationMessage} {marker : ConversationMessage}
  {init : List ConversationMessage}

/-- The rows above what a new marker covers, and the marker itself. -/
theorem liveRows_marker (ht : Table rows) (cut : Cut ⟨rows, [], []⟩ marker init) :
    liveRows (rows ++ [marker]) =
      (liveRows rows).filter (fun row => decide (compactedThrough marker < row.sequence)) ++
        [marker] := by
  have hthrough : coveredThrough (rows ++ [marker]) = compactedThrough marker := by
    rw [coveredThrough, cut.inForce ht]
    rfl
  unfold liveRows
  rw [hthrough, List.filter_append, List.filter_singleton, List.filter_filter]
  simp only [decide_eq_true cut.below]
  refine congrArg (· ++ [marker]) (List.filter_congr fun row _ => ?_)
  have habove : coveredThrough rows < compactedThrough marker := cut.above
  by_cases hlt : compactedThrough marker < row.sequence
  · simp [hlt, lt_trans habove hlt]
  · simp [hlt]

/-- What a compaction does not cover answers nothing: a kept reply, partial rows and markers. -/
theorem uncovered_quiet (cut : Cut ⟨rows, [], []⟩ marker init)
    (htidy : ∀ row ∈ rows, Tidy row) {row : ConversationMessage} (hrow : row ∈ liveRows rows)
    (hlt : compactedThrough marker < row.sequence) : resultIds (shown row).2 = [] := by
  obtain ⟨hmem, habove⟩ := List.mem_filter.mp hrow
  by_cases hsilent : row.isPartial = true ∨ isMarker row = true
  · exact ((htidy row hmem).silent hsilent).2
  · obtain ⟨hp, hmark⟩ := not_or.mp hsilent
    rw [Bool.not_eq_true] at hp hmark
    have hsent : row ∈ init ++ keptRows (historyRows rows) :=
      cut.sent ▸ mem_sentRows.mpr ⟨hmem, hp, hmark, by simpa using habove⟩
    rcases List.mem_append.mp hsent with hinit | hkept
    · exact absurd hlt (not_lt.mpr (cut.covered row hinit))
    · rw [shown_final hp]
      exact (htidy row hmem).results (by simp [keptRows_assistant hkept])

/-- A compaction of a conversation without open calls leaves none open. -/
theorem Stands.compact (ht : Table rows) (cut : Cut ⟨rows, [], []⟩ marker init)
    (htidy : ∀ row ∈ rows, Tidy row) (hmarker : Tidy marker) (h : Stands rows []) :
    Stands (rows ++ [marker]) [] := by
  -- the live rows above what the new marker covers come last, and answer nothing
  have hsplit := filter_le_append_gt (compactedThrough marker)
    (show (liveRows rows).Pairwise _ from ht.ordered.increasing.filter _)
  unfold Stands at h ⊢
  rw [← hsplit, List.map_append] at h
  obtain ⟨mid, -, hlast⟩ := leaves_append.mp h
  obtain rfl : mid = [] := hlast.quiet fun m hm => by
    obtain ⟨row, hrow, rfl⟩ := List.mem_map.mp hm
    obtain ⟨hlive, hlt⟩ := List.mem_filter.mp hrow
    exact uncovered_quiet cut htidy hlive (by simpa using hlt)
  obtain ⟨hcalls, hresults⟩ := hmarker.silent (.inr cut.marks)
  rw [liveRows_marker ht cut, List.map_append, List.map_singleton]
  exact leaves_concat.mpr ⟨[], hlast, by rw [hresults]; exact answers_nil.mpr rfl, hcalls⟩

end

/-- The rows a compaction would summarize are paired where the history is. -/
theorem paired_summarized {rows : List ConversationMessage} (htidy : ∀ row ∈ rows, Tidy row)
    (h : Paired (rows.map canonical)) : Paired ((summarizedRows rows).map canonical) := by
  rw [summarizedRows]
  split
  case isTrue hlast =>
    rcases List.eq_nil_or_concat' rows with rfl | ⟨init, last, rfl⟩
    · simp at hlast
    · have hrole : last.role = .assistant := by simpa using hlast
      rw [List.map_append, List.map_singleton] at h
      rw [List.dropLast_concat]
      exact h.dropLast ((htidy last (by simp)).results (by simp [hrole]))
  case isFalse => exact h

end LunaCore.Engine
