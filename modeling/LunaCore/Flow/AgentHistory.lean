import LunaCore.Engine.Pairing
import LunaCore.Schemes.Neighbours
import Mathlib.Data.List.Flatten

/-! The history an ai_agent node's turn is given: its own messages and those of the nodes it
    inherits from, as the run has them.

    Calls and results are matched by id over all the rows, wherever they stand:

        1  a  assistant  text  tool_use x ┐            what is left out: partial rows of the node,
        2  b  assistant        tool_use y ┼─┐          tool blocks of the others where these are
        3  a  user     tool_result x ─────┘ │          off, tool blocks whose id has no match, and
        4  b  user     tool_result y ───────┘          messages with nothing left

    So iterations that ran side by side leave their calls unanswered in the next message, and so
    does an id that comes again. The exact condition is on the rows: between a call that is kept and
    a result of its id there is none of which anything is kept. -/

namespace LunaCore.Flow.AgentHistory
open LunaCore.Values LunaCore.Schemes LunaCore.Chat LunaCore.Engine

/-- A row of `agent_messages` of one run. -/
structure AgentMessage where
  nodeId : String
  sequence : ℕ
  role : Role
  content : List Block
  isPartial : Bool
  deriving DecidableEq

/-- What `_load_history` is asked for. -/
structure HistoryQuery where
  ownNodeId : String
  inheritedNodeIds : List String
  includeToolInteractions : Bool
  includeOwn : Bool

namespace HistoryQuery

def nodeIds (q : HistoryQuery) : List String :=
  if q.includeOwn then q.ownNodeId :: q.inheritedNodeIds else q.inheritedNodeIds

/-- The rows of these nodes, in the order of their sequence. -/
def wanted (q : HistoryQuery) (table : List AgentMessage) : List AgentMessage :=
  (table.insertionSort fun a b => a.sequence ≤ b.sequence).filter fun m => m.nodeId ∈ q.nodeIds

/-- Without the node's own partial ones. -/
def loadedRows (q : HistoryQuery) (table : List AgentMessage) : List AgentMessage :=
  (q.wanted table).filter fun m => ¬ (m.nodeId = q.ownNodeId ∧ m.isPartial)

end HistoryQuery

/-- The ids of the tool uses among blocks. -/
def useIds (blocks : List Block) : List (Option String) := (toolUses blocks).map ToolUse.id

/-- The ids that are in both sets; an empty one is put in neither. -/
def validPairIds (rows : List AgentMessage) : List String :=
  ((rows.flatMap fun m => useIds m.content).filterMap id).filter fun bid =>
    bid ≠ "" ∧ some bid ∈ rows.flatMap fun m => resultIds m.content

section
variable (q : HistoryQuery) (rows : List AgentMessage) (m : AgentMessage)

/-- The tool blocks of a message are looked at. -/
def showsTools : Bool := m.nodeId = q.ownNodeId ∨ q.includeToolInteractions

/-- A block that is kept. -/
def keepsBlock : Block → Bool
  | .toolUse use => showsTools q m && use.id.any (· ∈ validPairIds rows)
  | .toolResult id _ _ => showsTools q m && id.any (· ∈ validPairIds rows)
  | _ => true

/-- What is kept of a message, if anything is. -/
def keptMessage : Option Canonical :=
  if m.content.filter (keepsBlock q rows m) = [] then none
  else some (m.role, m.content.filter (keepsBlock q rows m))

end

/-- `_load_history`. -/
def loadHistory (q : HistoryQuery) (table : List AgentMessage) : List Canonical :=
  (q.loadedRows table).filterMap (keptMessage q (q.loadedRows table))

/-! ### A valid history -/

/-- The texts among blocks. -/
def texts (blocks : List Block) : List String :=
  blocks.filterMap fun
    | .text text => some text
    | _ => none

/-- Every tool use is answered in the next message, and every tool result answers a tool use of the
    previous one. -/
structure InPairs (history : List Canonical) : Prop where
  uses : MetNext (fun m id => id ∈ useIds m.2) (fun m id => id ∈ resultIds m.2) history
  results : MetLast (fun m id => id ∈ resultIds m.2) (fun m id => id ∈ useIds m.2) history

/-- A message comes from a row: some of its blocks, and of an inherited one no tool block where
    these are off. -/
structure Drawn (q : HistoryQuery) (row : AgentMessage) (message : Canonical) : Prop where
  role : message.1 = row.role
  blocks : message.2.Sublist row.content
  stripped : q.includeToolInteractions = false → row.nodeId ≠ q.ownNodeId →
    useIds message.2 = [] ∧ resultIds message.2 = []

/-- The messages are drawn from wanted rows in the order of their sequence, no text of a row that is
    not partial is lost, and calls and results are in pairs. -/
structure ValidHistory (q : HistoryQuery) (table : List AgentMessage) (history : List Canonical) :
    Prop where
  drawn : ∃ sources, sources.Sublist (q.wanted table) ∧ List.Forall₂ (Drawn q) sources history
  ordered : (q.wanted table).Pairwise fun a b => a.sequence ≤ b.sequence
  texts : List.Sublist
    (((q.wanted table).filter fun m => ¬ m.isPartial).flatMap fun m => texts m.content)
    (history.flatMap fun m => texts m.2)
  inPairs : InPairs history

/-! ### The condition on the rows -/

/-- An id that both a call and a result among the rows have. -/
def Matched (rows : List AgentMessage) (id : Option String) : Prop :=
  id ≠ none ∧ id ≠ some "" ∧ (∃ m ∈ rows, id ∈ useIds m.content) ∧
    ∃ m ∈ rows, id ∈ resultIds m.content

section
variable (q : HistoryQuery) (rows : List AgentMessage)

/-- A row keeps a call: its tool blocks are shown, and the id is matched somewhere. -/
def Calls (m : AgentMessage) (id : Option String) : Prop :=
  showsTools q m = true ∧ id ∈ useIds m.content ∧ Matched rows id

/-- It keeps a result. -/
def Results (m : AgentMessage) (id : Option String) : Prop :=
  showsTools q m = true ∧ id ∈ resultIds m.content ∧ Matched rows id

/-- It keeps nothing: every block of it is a tool block that is not kept. -/
def Silent (m : AgentMessage) : Prop := ∀ block ∈ m.content, keepsBlock q rows m block = false

/-- Between a call that is kept and a result of its id, which stands in a later row, and between a
    result that is kept and a call of its id, which stands in an earlier one, there are silent rows
    only. -/
structure SideBySide : Prop where
  calls : MetNextOver (Silent q rows) (Calls q rows) (Results q rows) rows
  results : MetLastOver (Silent q rows) (Results q rows) (Calls q rows) rows

end

/-! ### What is kept -/

theorem mem_useIds {blocks : List Block} {id : Option String} :
    id ∈ useIds blocks ↔ ∃ use, .toolUse use ∈ blocks ∧ use.id = id := by
  simp only [useIds, toolUses, List.mem_map, List.mem_filterMap]
  constructor
  · rintro ⟨use, ⟨block, hblock, huse⟩, rfl⟩
    cases block <;> cases huse
    exact ⟨use, hblock, rfl⟩
  · rintro ⟨use, hblock, rfl⟩
    exact ⟨use, ⟨_, hblock, rfl⟩, rfl⟩

theorem mem_resultIds {blocks : List Block} {id : Option String} :
    id ∈ resultIds blocks ↔ ∃ content isError, .toolResult id content isError ∈ blocks := by
  simp only [resultIds, List.mem_filterMap]
  constructor
  · rintro ⟨block, hblock, hid⟩
    cases block <;> cases hid
    exact ⟨_, _, hblock⟩
  · rintro ⟨content, isError, hblock⟩
    exact ⟨_, hblock, rfl⟩

theorem any_validPairIds {rows : List AgentMessage} {bid : Option String} :
    bid.any (· ∈ validPairIds rows) = true ↔ Matched rows bid := by
  cases bid with
  | none => simp [Matched]
  | some bid => simp [validPairIds, Matched, and_comm, and_assoc]

variable {q : HistoryQuery} {rows : List AgentMessage} {m : AgentMessage}

theorem mem_useIds_kept {id : Option String} :
    id ∈ useIds (m.content.filter (keepsBlock q rows m)) ↔ Calls q rows m id := by
  rw [mem_useIds, Calls, mem_useIds, ← any_validPairIds]
  constructor
  · rintro ⟨use, hblock, rfl⟩
    obtain ⟨hmem, hkeeps⟩ := List.mem_filter.mp hblock
    obtain ⟨hshows, hany⟩ := Bool.and_eq_true_iff.mp hkeeps
    exact ⟨hshows, ⟨use, hmem, rfl⟩, hany⟩
  · rintro ⟨hshows, ⟨use, hmem, rfl⟩, hany⟩
    exact ⟨use, List.mem_filter.mpr ⟨hmem, Bool.and_eq_true_iff.mpr ⟨hshows, hany⟩⟩, rfl⟩

theorem mem_resultIds_kept {id : Option String} :
    id ∈ resultIds (m.content.filter (keepsBlock q rows m)) ↔ Results q rows m id := by
  rw [mem_resultIds, Results, mem_resultIds, ← any_validPairIds]
  constructor
  · rintro ⟨content, isError, hblock⟩
    obtain ⟨hmem, hkeeps⟩ := List.mem_filter.mp hblock
    obtain ⟨hshows, hany⟩ := Bool.and_eq_true_iff.mp hkeeps
    exact ⟨hshows, ⟨content, isError, hmem⟩, hany⟩
  · rintro ⟨hshows, ⟨content, isError, hmem⟩, hany⟩
    exact ⟨content, isError, List.mem_filter.mpr ⟨hmem, Bool.and_eq_true_iff.mpr ⟨hshows, hany⟩⟩⟩

theorem keptMessage_eq_none_iff : keptMessage q rows m = none ↔ Silent q rows m := by
  unfold keptMessage
  split_ifs with h
  · refine ⟨fun _ block hblock => ?_, fun _ => rfl⟩
    simpa using List.filter_eq_nil_iff.mp h block hblock
  · refine ⟨fun hnone => (by cases hnone), fun hsilent => absurd ?_ h⟩
    exact List.filter_eq_nil_iff.mpr fun block hblock => by simp [hsilent block hblock]

theorem keptMessage_eq {message : Canonical} (h : keptMessage q rows m = some message) :
    message = (m.role, m.content.filter (keepsBlock q rows m)) := by
  unfold keptMessage at h
  split_ifs at h
  exact (Option.some.inj h).symm

theorem quiet_of_silent {id : Option String} (h : Silent q rows m) :
    ¬ Calls q rows m id ∧ ¬ Results q rows m id := by
  have hnone : m.content.filter (keepsBlock q rows m) = [] :=
    List.filter_eq_nil_iff.mpr fun block hblock => by simp [h block hblock]
  rw [← mem_useIds_kept, ← mem_resultIds_kept, hnone]
  exact ⟨List.not_mem_nil, List.not_mem_nil⟩

/-- Calls and results are in pairs in the messages just where they are side by side in the rows. -/
theorem inPairs_iff (q : HistoryQuery) (rows : List AgentMessage) :
    InPairs (rows.filterMap (keptMessage q rows)) ↔ SideBySide q rows := by
  have hcalls (m : AgentMessage) (message : Canonical) (h : keptMessage q rows m = some message)
      (id : Option String) : id ∈ useIds message.2 ↔ Calls q rows m id := by
    rw [keptMessage_eq h]
    exact mem_useIds_kept
  have hresults (m : AgentMessage) (message : Canonical) (h : keptMessage q rows m = some message)
      (id : Option String) : id ∈ resultIds message.2 ↔ Results q rows m id := by
    rw [keptMessage_eq h]
    exact mem_resultIds_kept
  have huses := metNext_filterMap (fun _ => keptMessage_eq_none_iff) hcalls hresults
    (fun _ _ hsilent => quiet_of_silent hsilent) rows
  have hback := metLast_filterMap (fun _ => keptMessage_eq_none_iff) hresults hcalls
    (fun _ _ hsilent => (quiet_of_silent hsilent).symm) rows
  exact ⟨fun h => ⟨huses.mp h.uses, hback.mp h.results⟩,
    fun h => ⟨huses.mpr h.calls, hback.mpr h.results⟩⟩

/-! ### What holds of every history -/

theorem texts_kept : texts (m.content.filter (keepsBlock q rows m)) = texts m.content := by
  rw [texts, texts, List.filterMap_filter]
  refine List.filterMap_congr fun block _ => ?_
  cases block <;> simp [keepsBlock]

/-- The texts of the messages are those of the rows. -/
theorem texts_filterMap (q : HistoryQuery) (rows ms : List AgentMessage) :
    (ms.filterMap (keptMessage q rows)).flatMap (fun m => texts m.2) =
      ms.flatMap fun m => texts m.content := by
  induction ms with
  | nil => rfl
  | cons m ms ih =>
    cases hkept : keptMessage q rows m with
    | none =>
      have hnone : m.content.filter (keepsBlock q rows m) = [] :=
        List.filter_eq_nil_iff.mpr fun block hblock => by
          simp [keptMessage_eq_none_iff.mp hkept block hblock]
      have htexts : texts m.content = [] := calc
        texts m.content = texts (m.content.filter (keepsBlock q rows m)) := texts_kept.symm
        _ = [] := by rw [hnone]; rfl
      rw [List.filterMap_cons_none hkept, List.flatMap_cons, htexts, List.nil_append, ih]
    | some message =>
      rw [List.filterMap_cons_some hkept, List.flatMap_cons, List.flatMap_cons, ih,
        keptMessage_eq hkept, texts_kept]

theorem drawn_keptMessage {message : Canonical} (h : keptMessage q rows m = some message) :
    Drawn q m message := by
  rw [keptMessage_eq h]
  refine ⟨rfl, List.filter_sublist, fun hoff hother => ?_⟩
  have hhidden : showsTools q m = false := by simp [showsTools, hoff, hother]
  constructor
  · refine List.eq_nil_iff_forall_not_mem.mpr fun id hid => ?_
    rw [(mem_useIds_kept.mp hid).1] at hhidden
    cases hhidden
  · refine List.eq_nil_iff_forall_not_mem.mpr fun id hid => ?_
    rw [(mem_resultIds_kept.mp hid).1] at hhidden
    cases hhidden

/-- Each message is drawn from the row it was made of. -/
theorem drawn_filterMap (q : HistoryQuery) (rows ms : List AgentMessage) :
    List.Forall₂ (Drawn q) (ms.filter fun m => (keptMessage q rows m).isSome)
      (ms.filterMap (keptMessage q rows)) := by
  induction ms with
  | nil => exact .nil
  | cons m ms ih =>
    cases hkept : keptMessage q rows m with
    | none =>
      rw [List.filterMap_cons_none hkept, List.filter_cons_of_neg (by simp [hkept])]
      exact ih
    | some message =>
      rw [List.filterMap_cons_some hkept, List.filter_cons_of_pos (by simp [hkept])]
      exact .cons (drawn_keptMessage hkept) ih

theorem wanted_ordered (q : HistoryQuery) (table : List AgentMessage) :
    (q.wanted table).Pairwise fun a b => a.sequence ≤ b.sequence := by
  let le : AgentMessage → AgentMessage → Prop := fun a b => a.sequence ≤ b.sequence
  have : Std.Total le := ⟨fun a b => Nat.le_total a.sequence b.sequence⟩
  have : IsTrans AgentMessage le := ⟨fun _ _ _ hab hbc => Nat.le_trans hab hbc⟩
  exact (List.pairwise_insertionSort le table).filter _

/-- CODE BUG (exact condition): the history loaded from a table is valid just where calls and
    results are side by side in the loaded rows. -/
theorem validHistory_iff (q : HistoryQuery) (table : List AgentMessage) :
    ValidHistory q table (loadHistory q table) ↔ SideBySide q (q.loadedRows table) := by
  rw [← inPairs_iff]
  refine ⟨fun h => h.inPairs, fun h =>
    ⟨⟨_, ?_, drawn_filterMap q _ _⟩, wanted_ordered q table, ?_, h⟩⟩
  · exact List.filter_sublist.trans List.filter_sublist
  · rw [loadHistory, texts_filterMap]
    refine List.Sublist.flatMap (List.monotone_filter_right _ fun m hm => ?_) _
    have hwhole : m.isPartial = false := by simpa using hm
    simp [hwhole]

/-- What two iterations that ran side by side stored, each a call and its result. -/
def scoredRows : List AgentMessage :=
  [⟨"score", 1, .assistant, [.toolUse ⟨some "call-a", "save", []⟩], false⟩,
   ⟨"score", 2, .assistant, [.toolUse ⟨some "call-b", "save", []⟩], false⟩,
   ⟨"score", 3, .user, [.toolResult (some "call-a") "saved" false], false⟩,
   ⟨"score", 4, .user, [.toolResult (some "call-b") "saved" false], false⟩]

/-- A later node reviews the scores. -/
def reviewQuery : HistoryQuery where
  ownNodeId := "review"
  inheritedNodeIds := ["score"]
  includeToolInteractions := true
  includeOwn := true

/-- Its history has the calls in one another's way. -/
theorem interleaved_calls_unanswered :
    ¬ ValidHistory reviewQuery scoredRows (loadHistory reviewQuery scoredRows) := by
  intro h
  have hhistory : loadHistory reviewQuery scoredRows =
      [] ++ (.assistant, [.toolUse ⟨some "call-a", "save", []⟩]) ::
        [(.assistant, [.toolUse ⟨some "call-b", "save", []⟩]),
         (.user, [.toolResult (some "call-a") "saved" false]),
         (.user, [.toolResult (some "call-b") "saved" false])] := by decide +kernel
  obtain ⟨next, rest, hafter, hmeets⟩ :=
    h.inPairs.uses [] _ _ hhistory (some "call-a") (by decide)
  obtain ⟨rfl, -⟩ := List.cons.inj hafter
  exact absurd hmeets (by decide)

end LunaCore.Flow.AgentHistory
