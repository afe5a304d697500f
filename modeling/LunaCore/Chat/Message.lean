import Mathlib.Data.List.Sort
import LunaCore.Values.Json

/-! The stored transcript of one conversation: the rows of `conversation_messages`.

    A row holds its sequence (unique in the conversation, allocated as MAX + 1), its role, the
    content blocks and whether it is partial. The table keeps rows in the order they were
    inserted; a read orders them by sequence. The module ends with the one fact the other chat
    modules need of the allocator: it keeps the table ordered. -/

namespace LunaCore.Chat
open LunaCore.Values

/-- `ConversationMessageRole`. -/
inductive Role where
  | user
  | assistant
  | system
  deriving DecidableEq

/-- The attachment kinds a provider labels (`_MEDIA_KINDS`). -/
inductive MediaKind where
  | image
  | video
  deriving DecidableEq

/-- How many labeled attachments of each kind. -/
structure MediaCounts where
  image : ℕ
  video : ℕ
  deriving DecidableEq

/-- The block a compaction leaves in the history; `recordedAt` is the source's `at`. -/
structure CompactionBlock where
  native : Json
  model : String
  media : MediaCounts
  compactedThroughSequence : Option ℕ
  recordedAt : String
  deriving DecidableEq

/-- A `tool_use` block. A provider may leave the id out. The input is an object to those who run the
    call; a provider may store any value. -/
structure ToolUse (Input : Type := Dict) where
  id : Option String
  name : String
  input : Input
  deriving DecidableEq

/-- A content block. -/
inductive Block (Input : Type := Dict) where
  | text (text : String)
  | thinking (text : String)
  | media (kind : MediaKind) (mediaId : String)
  | toolUse (use : ToolUse Input)
  | toolResult (toolUseId : Option String) (content : String) (isError : Bool)
  | compaction (block : CompactionBlock)
  deriving DecidableEq

/-- A row of `conversation_messages`; the sequence stands for its id too. -/
structure ConversationMessage where
  sequence : ℕ
  role : Role
  content : List Block
  isPartial : Bool
  deriving DecidableEq

/-- A message as a provider is handed it. -/
abbrev Canonical (Input : Type := Dict) := Role × List (Block Input)

/-- `_canonical`. -/
def canonical (row : ConversationMessage) : Canonical := (row.role, row.content)

/-- `compaction_block`: the compaction block a message carries, if any. -/
def compactionBlock {Input : Type} (message : Canonical Input) : Option CompactionBlock :=
  message.2.findSome? fun
    | .compaction block => some block
    | _ => none

/-- `ORDER BY sequence`. -/
def orderBySequence (rows : List ConversationMessage) : List ConversationMessage :=
  rows.insertionSort fun a b => a.sequence ≤ b.sequence

/-- `coalesce(max(sequence), 0)`. -/
def maxSequence (rows : List ConversationMessage) : ℕ :=
  rows.foldr (fun row acc => max row.sequence acc) 0

/-- `_next_message_sequence`. -/
def nextMessageSequence (rows : List ConversationMessage) : ℕ := maxSequence rows + 1

/-- The rows stand in strictly increasing sequence, from 1 on. -/
structure Ordered (rows : List ConversationMessage) : Prop where
  increasing : rows.Pairwise fun a b => a.sequence < b.sequence
  positive : ∀ row ∈ rows, 0 < row.sequence

theorem Ordered.nil : Ordered [] := ⟨List.Pairwise.nil, by simp⟩

theorem le_maxSequence : ∀ {rows : List ConversationMessage} {row : ConversationMessage},
    row ∈ rows → row.sequence ≤ maxSequence rows
  | r :: rows, row, h => by
      rcases List.mem_cons.mp h with rfl | h
      · exact le_max_left _ _
      · exact le_trans (le_maxSequence h) (le_max_right _ _)

theorem lt_nextMessageSequence {rows : List ConversationMessage} {row : ConversationMessage}
    (h : row ∈ rows) : row.sequence < nextMessageSequence rows :=
  Nat.lt_succ_of_le (le_maxSequence h)

/-- A row stored under the next sequence keeps the table ordered. -/
theorem Ordered.append {rows : List ConversationMessage} (h : Ordered rows)
    {row : ConversationMessage} (hseq : row.sequence = nextMessageSequence rows) :
    Ordered (rows ++ [row]) := by
  refine ⟨?_, ?_⟩
  · refine List.pairwise_append.mpr ⟨h.increasing, List.pairwise_singleton _ _, ?_⟩
    intro a ha b hb
    rw [List.mem_singleton.mp hb, hseq]
    exact lt_nextMessageSequence ha
  · intro r hr
    rcases List.mem_append.mp hr with hr | hr
    · exact h.positive r hr
    · rw [List.mem_singleton.mp hr, hseq]
      exact Nat.succ_pos _

/-- Reading an ordered table by sequence gives it back as it is. -/
theorem Ordered.orderBySequence_eq {rows : List ConversationMessage} (h : Ordered rows) :
    orderBySequence rows = rows :=
  (h.increasing.imp fun hab => le_of_lt hab).insertionSort_eq

/-- In an ordered table the sequence identifies the row. -/
theorem Ordered.eq_of_sequence {rows : List ConversationMessage} (h : Ordered rows)
    {a b : ConversationMessage} (ha : a ∈ rows) (hb : b ∈ rows)
    (hseq : a.sequence = b.sequence) : a = b := by
  have hnodup : (rows.map ConversationMessage.sequence).Nodup :=
    List.pairwise_map.mpr (h.increasing.imp fun hab => ne_of_lt hab)
  exact List.inj_on_of_nodup_map hnodup ha hb hseq

end LunaCore.Chat
