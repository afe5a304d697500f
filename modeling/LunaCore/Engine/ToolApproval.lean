import LunaCore.Chat.Message

/-! The tool-approval service: the rows of `tool_approvals` of one conversation.

    A row is keyed by the id of the tool call it is about, as text and unique in the conversation.
    `call` is a ghost: the call the row was created for, as the assistant row it stands in and its
    place among that row's calls. -/

namespace LunaCore.Engine
open LunaCore.Values LunaCore.Chat

inductive ToolApprovalStatus where
  | pending | approved | rejected
  deriving DecidableEq

/-- A call: the sequence of the assistant row and the place among its tool uses. -/
abbrev CallId := ℕ × ℕ

structure ToolApproval where
  id : ℕ
  toolUseId : String
  toolName : String
  toolInput : Dict
  agentName : String
  status : ToolApprovalStatus
  reason : Option String
  call : CallId
  deriving DecidableEq

/-- `str(tu.get("id", ""))`: a call without an id is stored under the text of `None`. -/
def storedId (use : ToolUse) : String := use.id.getD "None"

/-- The row `create_pending_approvals` makes for one gated call. -/
def pendingApproval (agentName : String) (id : ℕ) (call : CallId) (use : ToolUse) : ToolApproval :=
  ⟨id, storedId use, use.name, use.input, agentName, .pending, none, call⟩

/-- `create_pending_approvals`: one commit, refused whole when an id repeats (the unique constraint
    on conversation and tool-use id). -/
def createPendingApprovals (rows : List ToolApproval) (agentName : String)
    (gated : List (CallId × ToolUse)) : Option (List ToolApproval) :=
  let created := gated.mapIdx fun k entry =>
    pendingApproval agentName (rows.length + k) entry.1 entry.2
  if ((rows ++ created).map ToolApproval.toolUseId).Nodup then some (rows ++ created) else none

/-- `count_pending`. -/
def countPending (rows : List ToolApproval) : ℕ :=
  rows.countP fun row => row.status = .pending

/-- What a decision says. -/
structure Decision where
  status : ToolApprovalStatus
  reason : Option String
  toolInput : Option Dict
  deriving DecidableEq

/-- The values of `decide`'s UPDATE. -/
def resolve (d : Decision) (row : ToolApproval) : ToolApproval :=
  { row with status := d.status, reason := d.reason, toolInput := d.toolInput.getD row.toolInput }

/-- The service's `decide`: the row of that id, where it is pending; `none` for `ToolApprovalNotPending` and for
    a row that is not there. -/
def decideApproval (rows : List ToolApproval) (id : ℕ) (d : Decision) : Option (List ToolApproval) :=
  if rows.any fun row => row.id == id && row.status == .pending then
    some (rows.map fun row => if row.id = id ∧ row.status = .pending then resolve d row else row)
  else none

/-- `should_cascade_rejection`. -/
def shouldCascadeRejection (d : Decision) : Bool :=
  d.status == .rejected && match d.reason with
    | none => false
    | some reason => !(blank reason)

/-- `reject_pending_with_reason`. -/
def rejectPendingWithReason (rows : List ToolApproval) (reason : Option String) :
    List ToolApproval :=
  rows.map fun row =>
    if row.status = .pending then { row with status := .rejected, reason := reason } else row

/-- `decisions_by_tool_use`: the resolved rows; a later one of an id would replace an earlier. -/
def decisionsByToolUse (rows : List ToolApproval) : List ToolApproval :=
  rows.filter fun row => decide (row.status ≠ .pending)

/-- `decisions.get(tool_use["id"])`: an id that is `None` is no key. -/
def decisionFor (decisions : List ToolApproval) (use : ToolUse) : Option ToolApproval :=
  use.id.bind fun id => decisions.reverse.find? fun row => row.toolUseId == id

/-- An approval keeps the id and the call it was created for. -/
structure Keeps (f : ToolApproval → ToolApproval) : Prop where
  toolUseId : ∀ row, (f row).toolUseId = row.toolUseId
  call : ∀ row, (f row).call = row.call

/-- A decision is recorded on a pending row, and keeps what the rows are about. -/
theorem decideApproval_some {rows approvals : List ToolApproval} {id : ℕ} {d : Decision}
    (h : decideApproval rows id d = some approvals) :
    countPending rows ≠ 0 ∧ ∃ f, Keeps f ∧ approvals = rows.map f := by
  rw [decideApproval] at h
  split at h
  case isTrue hany =>
    obtain rfl := Option.some.inj h
    refine ⟨?_, _, ⟨fun row => ?_, fun row => ?_⟩, rfl⟩
    · obtain ⟨row, hrow, hpending⟩ := List.any_eq_true.mp hany
      rw [Bool.and_eq_true, beq_iff_eq, beq_iff_eq] at hpending
      exact Nat.ne_of_gt (List.countP_pos_iff.mpr ⟨row, hrow, by simpa using hpending.2⟩)
    · split <;> rfl
    · split <;> rfl
  case isFalse => cases h

theorem rejectPendingWithReason_keeps (rows : List ToolApproval) (reason : Option String) :
    ∃ f, Keeps f ∧ rejectPendingWithReason rows reason = rows.map f :=
  ⟨_, ⟨fun row => by split <;> rfl, fun row => by split <;> rfl⟩, rfl⟩

/-- The rows once a turn was suspended: those there were, and one for each gated call. -/
theorem createPendingApprovals_some {rows approvals : List ToolApproval} {name : String}
    {gated : List (CallId × ToolUse)}
    (h : createPendingApprovals rows name gated = some approvals) :
    (approvals.map ToolApproval.toolUseId).Nodup ∧ ∀ row ∈ approvals, row ∈ rows ∨
      ∃ entry ∈ gated, row.call = entry.1 ∧ row.toolUseId = storedId entry.2 := by
  unfold createPendingApprovals at h
  dsimp only at h
  split at h
  case isTrue hnodup =>
    obtain rfl := Option.some.inj h
    refine ⟨hnodup, fun row hrow => (List.mem_append.mp hrow).imp_right fun hnew => ?_⟩
    obtain ⟨k, hk, rfl⟩ := List.mem_mapIdx.mp hnew
    exact ⟨_, List.getElem_mem hk, rfl, rfl⟩
  case isFalse => cases h

/-- Every gated call has its row then, pending and under the call's id. -/
theorem pending_of_gated {rows approvals : List ToolApproval} {name : String}
    {gated : List (CallId × ToolUse)} {entry : CallId × ToolUse}
    (h : createPendingApprovals rows name gated = some approvals) (hentry : entry ∈ gated) :
    ∃ row ∈ approvals, row.status = .pending ∧ row.call = entry.1 ∧
      row.toolInput = entry.2.input := by
  unfold createPendingApprovals at h
  dsimp only at h
  split at h
  case isTrue =>
    obtain rfl := Option.some.inj h
    obtain ⟨k, hk, rfl⟩ := List.mem_iff_getElem.mp hentry
    exact ⟨_, List.mem_append_right _ (List.mem_mapIdx.mpr ⟨k, hk, rfl⟩), rfl, rfl, rfl⟩
  case isFalse => cases h

end LunaCore.Engine
