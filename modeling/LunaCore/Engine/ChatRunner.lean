import LunaCore.Chat.Transcript
import LunaCore.Engine.AgentRunner

/-! One conversation under its turn lock: the requests of the conversations router, and the turns
    `ChatRunner` runs for them.

        idle ─ send ─→ turn ─→ answered ─→ turn of the next agent … ─→ idle
                        ├─→ aborted ─ finalize ─→ idle
                        └─→ suspended: idle ─ decide ─→ decided ─→ idle (others still pending)
                                                           └─────→ turn (resume)

    The lock lets one request in at a time; `send` is refused while an approval is pending. Every
    write is committed on its own, so the process can be lost between any two steps: `lose`. -/

namespace LunaCore.Engine
open LunaCore.Values LunaCore.Chat LunaCore.Schemes

/-- `MAX_HANDOFF_HOPS`. -/
def maxHandoffHops : ℕ := 4

/-- The request a turn is run for: a send or a decision, and the hand-offs followed so far. -/
structure Path where
  viaSend : Bool
  hops : ℕ
  deriving DecidableEq

/-- The request that holds the turn lock, and where it stands. -/
inductive Request where
  | turn (t : Turn) (path : Path)
  | answered (path : Path)
  | aborted
  | decided (d : Decision)

/-- One conversation: what is stored, and the request that holds its lock. -/
structure Session where
  record : Record
  request : Option Request

inductive SessionAction where
  | send (agent : Agent) (box : Toolbox) (content : List Block) (call : CompactionCall)
  | work (a : TurnAction)
  | handOff (agent : Agent) (box : Toolbox)
  | finalize
  | respond
  | decide (id : ℕ) (d : Decision)
  | resume (agent : Agent) (box : Toolbox)
  | lose

/-- A conversation before its first turn. -/
def Session.created : Session := ⟨⟨[], [], []⟩, none⟩

/-- The turn at work, if one is. -/
def Session.turn (s : Session) : Option Turn :=
  match s.request with
  | some (.turn t _) => some t
  | _ => none

/-- What a user turn may hold: text and attachments. -/
def fromUser (content : List Block) : Bool :=
  content.all fun
    | .text _ | .media .. => true
    | _ => false

/-- A chat turn takes no context tools and asks for approvals. -/
def chatSetup (agent : Agent) (box : Toolbox) : Setup := ⟨agent, box, [], true⟩

/-- `_load_history`. -/
def loadHistory (rows : List ConversationMessage) : List Canonical := (historyRows rows).map canonical

/-- `ChatRunner.send` with a user turn, up to the runner: the history, compacted when it is due. -/
def send (s : Record) (agent : Agent) (box : Toolbox) (content : List Block)
    (call : CompactionCall) : Session :=
  let compacted := compactIfDue call (nextMessageSequence s.rows) (historyRows s.rows)
  ⟨{ s with rows := s.rows ++ compacted.2.toList },
    some (.turn (.run (chatSetup agent box) (compacted.1.map canonical) content) ⟨true, 0⟩)⟩

/-- `ChatRunner.send` without one, for the agent a hand-off chose. -/
def handOff (s : Record) (agent : Agent) (box : Toolbox) (path : Path) : Session :=
  ⟨s, some (.turn (.run (chatSetup agent box) (loadHistory s.rows) [])
    ⟨path.viaSend, path.hops + 1⟩)⟩

/-- The sequence of the last row of the history. -/
def lastSequence (rows : List ConversationMessage) : ℕ :=
  ((historyRows rows).getLast?.map ConversationMessage.sequence).getD 0

/-- What follows a decision: the cascade; then the turn resumes, unless others are pending. -/
def resume (s : Record) (agent : Agent) (box : Toolbox) (d : Decision) : Session :=
  let approvals :=
    if shouldCascadeRejection d then rejectPendingWithReason s.approvals (some (d.reason.getD ""))
    else s.approvals
  ⟨{ s with approvals := approvals },
    if 0 < countPending approvals then none
    else some (.turn (.resume (chatSetup agent box) (loadHistory s.rows) (lastSequence s.rows))
      ⟨false, 0⟩)⟩

/-- A turn went on, or its request goes on after it. Only a send handles the abort. -/
def afterTurn (path : Path) (after : After) : Session :=
  ⟨after.1, match after.2 with
    | .inl t => some (.turn t path)
    | .inr .output => some (.answered path)
    | .inr .aborted => if path.viaSend then some .aborted else none
    | .inr .suspended | .inr (.raised _) => none⟩

/-- A decision as the router validates it: inputs go with an approval only. -/
def Decision.admitted (d : Decision) : Bool :=
  d.status = .approved || (d.status = .rejected && d.toolInput.isNone)

/-- One step of the conversation. -/
def sessionStep (s : Session) : SessionAction → Option Session
  | .send agent box content call =>
    if s.request.isNone ∧ countPending s.record.approvals = 0 ∧ fromUser content then
      some (send s.record agent box content call)
    else none
  | .work a => match s.request with
    | some (.turn t path) => (turnStep s.record t a).map (afterTurn path)
    | _ => none
  | .handOff agent box => match s.request with
    | some (.answered path) =>
      if path.hops < maxHandoffHops then some (handOff s.record agent box path) else none
    | _ => none
  | .finalize => match s.request with
    | some .aborted => some ⟨{ s.record with rows := s.record.rows.map promote }, none⟩
    | _ => none
  | .respond => match s.request with
    | some (.answered _) => some { s with request := none }
    | _ => none
  | .decide id d =>
    if s.request.isNone ∧ d.admitted then
      (decideApproval s.record.approvals id d).map fun approvals =>
        ⟨{ s.record with approvals := approvals }, some (.decided d)⟩
    else none
  | .resume agent box => match s.request with
    | some (.decided d) => some (resume s.record agent box d)
    | _ => none
  | .lose => some { s with request := none }

/-! ### What a step can do -/

/-- What one step of the conversation can do, a constructor for each of its ways. -/
inductive SessionStep : Session → SessionAction → Session → Prop
  | sent {s : Record} {agent : Agent} {box : Toolbox} {content : List Block}
      {call : CompactionCall} (hpending : countPending s.approvals = 0)
      (hcontent : fromUser content = true) :
      SessionStep ⟨s, none⟩ (.send agent box content call) (send s agent box content call)
  | worked {s : Record} {t : Turn} {path : Path} {a : TurnAction} {after : After}
      (hafter : turnStep s t a = some after) :
      SessionStep ⟨s, some (.turn t path)⟩ (.work a) (afterTurn path after)
  | handedOff {s : Record} {path : Path} {agent : Agent} {box : Toolbox} :
      SessionStep ⟨s, some (.answered path)⟩ (.handOff agent box) (handOff s agent box path)
  | finalized {s : Record} :
      SessionStep ⟨s, some .aborted⟩ .finalize ⟨{ s with rows := s.rows.map promote }, none⟩
  | responded {s : Record} {path : Path} : SessionStep ⟨s, some (.answered path)⟩ .respond ⟨s, none⟩
  | decided {s : Record} {id : ℕ} {d : Decision} {f : ToolApproval → ToolApproval}
      (hpending : countPending s.approvals ≠ 0) (hf : Keeps f) :
      SessionStep ⟨s, none⟩ (.decide id d)
        ⟨{ s with approvals := s.approvals.map f }, some (.decided d)⟩
  | waits {s : Record} {d : Decision} {agent : Agent} {box : Toolbox}
      {f : ToolApproval → ToolApproval} (hf : Keeps f)
      (hpending : 0 < countPending (s.approvals.map f)) :
      SessionStep ⟨s, some (.decided d)⟩ (.resume agent box)
        ⟨{ s with approvals := s.approvals.map f }, none⟩
  | resumes {s : Record} {d : Decision} {agent : Agent} {box : Toolbox}
      {f : ToolApproval → ToolApproval} (hf : Keeps f)
      (hnone : countPending (s.approvals.map f) = 0) :
      SessionStep ⟨s, some (.decided d)⟩ (.resume agent box)
        ⟨{ s with approvals := s.approvals.map f }, some (.turn (.resume (chatSetup agent box)
          (loadHistory s.rows) (lastSequence s.rows)) ⟨false, 0⟩)⟩
  | lost {s : Session} : SessionStep s .lose { s with request := none }

theorem resume_step (s : Record) (agent : Agent) (box : Toolbox) (d : Decision) :
    SessionStep ⟨s, some (.decided d)⟩ (.resume agent box) (resume s agent box d) := by
  obtain ⟨f, hf, heq⟩ : ∃ f, Keeps f ∧
      (if shouldCascadeRejection d then
        rejectPendingWithReason s.approvals (some (d.reason.getD "")) else s.approvals) =
      s.approvals.map f := by
    split
    · exact rejectPendingWithReason_keeps _ _
    · exact ⟨id, ⟨fun _ => rfl, fun _ => rfl⟩, (List.map_id _).symm⟩
  unfold resume
  dsimp only
  rw [heq]
  by_cases hpending : 0 < countPending (s.approvals.map f)
  · rw [if_pos hpending]
    exact .waits hf hpending
  · rw [if_neg hpending]
    exact .resumes hf (Nat.eq_zero_of_not_pos hpending)

/-- A step does one of the things `SessionStep` lists. -/
theorem sessionStep_cases {s t : Session} {a : SessionAction} (h : sessionStep s a = some t) :
    SessionStep s a t := by
  obtain ⟨record, request⟩ := s
  cases a with
  | send agent box content call =>
    obtain ⟨⟨rfl, hpending, hcontent⟩, rfl⟩ := by simpa [sessionStep] using h
    exact .sent hpending hcontent
  | work a =>
    match request, h with
    | some (.turn t path), h =>
      obtain ⟨after, hafter, rfl⟩ := Option.map_eq_some_iff.mp h
      exact .worked hafter
  | handOff agent box =>
    match request, h with
    | some (.answered path), h =>
      obtain ⟨-, rfl⟩ := by simpa [sessionStep] using h
      exact .handedOff
  | finalize =>
    match request, h with
    | some .aborted, h =>
      obtain rfl := Option.some.inj h
      exact .finalized
  | respond =>
    match request, h with
    | some (.answered path), h =>
      obtain rfl := Option.some.inj h
      exact .responded
  | decide id d =>
    obtain ⟨⟨rfl, -⟩, approvals, hdecided, rfl⟩ := by simpa [sessionStep] using h
    obtain ⟨hpending, f, hf, rfl⟩ := decideApproval_some hdecided
    exact .decided hpending hf
  | resume agent box =>
    match request, h with
    | some (.decided d), h =>
      obtain rfl := Option.some.inj h
      exact resume_step record agent box d
  | lose =>
    obtain rfl := Option.some.inj h
    exact .lost

/-! ### What the writes keep -/

theorem compactionBlock_none {role : Role} {content : List Block}
    (h : ∀ block, .compaction block ∉ content) : compactionBlock (role, content) = none := by
  refine List.findSome?_eq_none_iff.mpr fun block hblock => ?_
  cases block with
  | compaction c => exact absurd hblock (h c)
  | _ => rfl

/-- A provider's reply is no marker. -/
theorem compactionBlock_fromProvider {role : Role} {blocks : List Block}
    (h : fromProvider blocks = true) : compactionBlock (role, blocks) = none :=
  compactionBlock_none fun _ hmem => by simpa using List.all_eq_true.mp h _ hmem

theorem compaction_not_fromUser {content : List Block} (h : fromUser content = true)
    (block : CompactionBlock) : .compaction block ∉ content :=
  fun hmem => by simpa using List.all_eq_true.mp h _ hmem

/-- A user's turn is no marker. -/
theorem compactionBlock_fromUser {role : Role} {content : List Block}
    (h : fromUser content = true) : compactionBlock (role, content) = none :=
  compactionBlock_none (compaction_not_fromUser h)

@[simp] theorem toolUses_insertText (text : String) (blocks : List Block) :
    toolUses (insertText text blocks) = toolUses blocks := by
  induction blocks with
  | nil => rfl
  | cons block blocks ih =>
    cases block with
    | thinking t => simpa [insertText, toolUses] using ih
    | _ => rfl

@[simp] theorem compactionBlock_insertText (role : Role) (text : String) (blocks : List Block) :
    compactionBlock (role, insertText text blocks) = compactionBlock (role, blocks) := by
  induction blocks with
  | nil => rfl
  | cons block blocks ih =>
    cases block with
    | thinking t => simpa [insertText, compactionBlock] using ih
    | _ => rfl

/-- Words put into the row of one sequence. -/
def addText (text : String) (last : ℕ) (row : ConversationMessage) : ConversationMessage :=
  if row.sequence = last then { row with content := insertText text row.content } else row

theorem addTextToLastAssistant_eq (rows : List ConversationMessage) (text : String) :
    addTextToLastAssistant rows text = rows ∨
      ∃ last, addTextToLastAssistant rows text = rows.map (addText text last) := by
  rw [addTextToLastAssistant]
  split
  case h_1 => exact .inl rfl
  case h_2 last _ => exact .inr ⟨last.sequence, rfl⟩

@[simp] theorem addText_isPartial (text : String) (last : ℕ) (row : ConversationMessage) :
    (addText text last row).isPartial = row.isPartial := by
  rw [addText]
  split <;> rfl

@[simp] theorem addText_role (text : String) (last : ℕ) (row : ConversationMessage) :
    (addText text last row).role = row.role := by
  rw [addText]
  split <;> rfl

@[simp] theorem toolUses_addText (text : String) (last : ℕ) (row : ConversationMessage) :
    toolUses (addText text last row).content = toolUses row.content := by
  rw [addText]
  split <;> simp

theorem edit_addText (text : String) (last : ℕ) : Edit (addText text last) where
  sequence := fun row => by
    rw [addText]
    split <;> rfl
  block := fun row => by
    rw [addText]
    split
    · exact compactionBlock_insertText row.role text row.content
    · rfl
  final := fun row h => by simpa using h

end LunaCore.Engine
