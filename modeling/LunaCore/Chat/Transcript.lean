import LunaCore.Chat.Compaction

/-! The table of a conversation as the turns find it: what its three writes keep.

    A row is stored under the next sequence, rows are edited in place (a promotion, words put into
    a reply), and a compaction stores its marker. Each keeps the table in order and says what it
    does to the sequence covered so far. -/

namespace LunaCore.Chat
open LunaCore.Values

/-- A table in order, whatever was compacted before. -/
def Table (rows : List ConversationMessage) : Prop := Valid ⟨rows, [], []⟩

theorem Valid.table {c : Conversation} (hc : Valid c) : Table c.rows where
  ordered := hc.ordered
  markersFinal := hc.markersFinal
  final := by simp
  known := by simp
  unmarked := fun _ => rfl
  before := hc.before
  behind := by simp
  covers := by simp

theorem table_nil : Table [] := valid_created

/-- More rows take no sequence back. -/
theorem nextMessageSequence_le (rows more : List ConversationMessage) :
    nextMessageSequence rows ≤ nextMessageSequence (rows ++ more) := by
  unfold nextMessageSequence maxSequence
  refine Nat.succ_le_succ ?_
  induction rows with
  | nil => exact Nat.zero_le _
  | cons row rows ih =>
    simp only [List.cons_append, List.foldr_cons]
    omega

namespace Table

variable {rows : List ConversationMessage}

/-- A row that is no marker is stored. -/
theorem save (ht : Table rows) {row : ConversationMessage}
    (hseq : row.sequence = nextMessageSequence rows) (hrow : isMarker row = false) :
    Table (rows ++ [row]) := (valid_store ht hseq hrow).table

/-- What is covered stands before the next sequence. -/
theorem coveredThrough_lt (ht : Table rows) : coveredThrough rows < nextMessageSequence rows := by
  rw [coveredThrough]
  cases h : markerInForce rows with
  | none => exact Nat.succ_pos _
  | some marker =>
    have hmem := (markerInForce_mem ht.ordered ht.markersFinal h).1
    exact lt_trans (ht.before marker h) (lt_nextMessageSequence hmem)

theorem coveredThrough_save (ht : Table rows) {row : ConversationMessage}
    (hseq : row.sequence = nextMessageSequence rows) (hrow : isMarker row = false) :
    coveredThrough (rows ++ [row]) = coveredThrough rows := by
  have ht' := ht.save hseq hrow
  unfold coveredThrough
  rw [markerInForce_append ht'.ordered ht'.markersFinal, markerInForce_eq ht.ordered ht.markersFinal]
  simp [hrow]

end Table

/-- An edit in place: the sequence and the compaction block of a row stay, and a final row stays
    final. -/
structure Edit (f : ConversationMessage → ConversationMessage) : Prop where
  sequence : ∀ row, (f row).sequence = row.sequence
  block : ∀ row, compactionBlock (canonical (f row)) = compactionBlock (canonical row)
  final : ∀ row, row.isPartial = false → (f row).isPartial = false

namespace Edit

variable {f : ConversationMessage → ConversationMessage}

theorem isMarker (hf : Edit f) (row : ConversationMessage) :
    Chat.isMarker (f row) = Chat.isMarker row := by
  rw [Chat.isMarker, hf.block, Chat.isMarker]

theorem compactedThrough (hf : Edit f) (row : ConversationMessage) :
    Chat.compactedThrough (f row) = Chat.compactedThrough row := by
  rw [Chat.compactedThrough, hf.block, Chat.compactedThrough]

theorem maxSequence (hf : Edit f) (rows : List ConversationMessage) :
    Chat.maxSequence (rows.map f) = Chat.maxSequence rows := by
  induction rows with
  | nil => rfl
  | cons row rows ih =>
    simp only [Chat.maxSequence, List.map_cons, List.foldr_cons, hf.sequence] at ih ⊢
    rw [ih]

theorem nextMessageSequence (hf : Edit f) (rows : List ConversationMessage) :
    Chat.nextMessageSequence (rows.map f) = Chat.nextMessageSequence rows := by
  rw [Chat.nextMessageSequence, hf.maxSequence, Chat.nextMessageSequence]

variable {rows : List ConversationMessage}

theorem ordered (hf : Edit f) (ho : Ordered rows) : Ordered (rows.map f) := by
  refine ⟨List.pairwise_map.mpr ?_, ?_⟩
  · simpa only [hf.sequence] using ho.increasing
  · intro row hrow
    obtain ⟨r, hr, rfl⟩ := List.mem_map.mp hrow
    rw [hf.sequence]
    exact ho.positive r hr

theorem markersFinal (hf : Edit f) (hm : MarkersFinal rows) : MarkersFinal (rows.map f) := by
  intro row hrow hmark
  obtain ⟨r, hr, rfl⟩ := List.mem_map.mp hrow
  rw [hf.isMarker] at hmark
  exact hf.final r (hm r hr hmark)

theorem markerInForce (hf : Edit f) (ht : Table rows) :
    Chat.markerInForce (rows.map f) = (Chat.markerInForce rows).map f := by
  rw [markerInForce_eq (hf.ordered ht.ordered) (hf.markersFinal ht.markersFinal),
    markerInForce_eq ht.ordered ht.markersFinal, ← List.map_reverse, List.find?_map]
  refine congrArg (Option.map f) (congrArg (fun p => List.find? p rows.reverse) ?_)
  exact funext hf.isMarker

theorem coveredThrough (hf : Edit f) (ht : Table rows) :
    Chat.coveredThrough (rows.map f) = Chat.coveredThrough rows := by
  rw [Chat.coveredThrough]
  rw [hf.markerInForce ht, Option.map_map]
  exact congrArg (fun g => ((Chat.markerInForce rows).map g).getD 0) (funext hf.compactedThrough)

/-- Edits in place keep the table in order. -/
theorem table (hf : Edit f) (ht : Table rows) : Table (rows.map f) where
  ordered := hf.ordered ht.ordered
  markersFinal := hf.markersFinal ht.markersFinal
  final := by simp
  known := by simp
  unmarked := fun _ => rfl
  before := by
    intro marker hmarker
    simp only [hf.markerInForce ht, Option.map_eq_some_iff] at hmarker
    obtain ⟨m, hm, rfl⟩ := hmarker
    rw [hf.compactedThrough, hf.sequence]
    exact ht.before m hm
  behind := by simp
  covers := by simp

end Edit

/-- Promotion is an edit in place. -/
theorem edit_promote : Edit promote :=
  ⟨fun _ => rfl, fun _ => rfl, fun _ _ => rfl⟩

/-- The marker of a compaction: a final system row that holds its block and nothing else, with the
    counts of what was summarized. -/
theorem compactIfDue_marker {call : CompactionCall} {next : ℕ} {rows : List ConversationMessage}
    {marker : ConversationMessage} (h : (compactIfDue call next rows).2 = some marker) :
    marker.role = .system ∧ marker.isPartial = false ∧ ∃ block,
      marker.content = [.compaction block] ∧ block.media = mediaCounts (summarizedRows rows) := by
  rw [compactIfDue] at h
  split at h
  · cases h
  · split at h
    · cases h
    · split_ifs at h
      split at h
      · cases h
      · cases h
        exact ⟨rfl, rfl, _, rfl, rfl⟩

/-- The rows once a compaction, where one was due, has stored its marker. -/
def compactedRows (call : CompactionCall) (rows : List ConversationMessage) :
    List ConversationMessage :=
  rows ++ (compactIfDue call (nextMessageSequence rows) (historyRows rows)).2.toList

theorem compactedRows_eq (call : CompactionCall) (rows : List ConversationMessage) :
    compactedRows call rows = ((⟨rows, [], []⟩ : Conversation).compact call).rows := by
  rw [compactedRows, Conversation.compact]
  split
  case h_1 h => simp [h]
  case h_2 marker h => simp [h, Conversation.store]

/-- A compaction keeps the table in order. -/
theorem Table.compact {rows : List ConversationMessage} (ht : Table rows) (call : CompactionCall) :
    Table (compactedRows call rows) := by
  rw [compactedRows_eq]
  exact (valid_rowStep (a := .compactIfDue call) ht rfl).table

/-- The history a compaction returns is the one read back after it. -/
theorem Table.readback {rows : List ConversationMessage} (ht : Table rows) (call : CompactionCall) :
    (compactIfDue call (nextMessageSequence rows) (historyRows rows)).1 =
      historyRows (compactedRows call rows) := by
  rw [compactedRows_eq]
  exact compactIfDue_readback ht call

end LunaCore.Chat
