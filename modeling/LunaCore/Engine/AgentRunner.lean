import LunaCore.Schemes.Machine
import LunaCore.Engine.Tools
import LunaCore.Engine.ToolApproval

/-! `AgentRunner.run` and `resume`, one await at a time.

        run      save the user turn ─→ ┌ call the model ─→ run the calls ─→ save the results ┐
                                       └──────────────── at most 16 times ──────────────────┘
        gated    call the model ─→ (ask for words) ─→ create the approvals ─→ suspended
        resume   read the decisions ─→ run the calls ─→ save the results ─→ (loop of run)

    What the model, a tool or the user gives is an argument of the action. The provider stores the
    assistant row itself: a reply as final, what streamed before an exception as partial. Any await
    can raise, and the process can be lost at any: `fail`. -/

namespace LunaCore.Engine
open LunaCore.Values LunaCore.Chat LunaCore.Schemes

/-- `MAX_TOOL_ITERATIONS`. -/
def maxToolIterations : ℕ := 16

/-- What a turn is run with. -/
structure Setup where
  agent : Agent
  box : Toolbox
  contextToolNames : List String
  approvalEnabled : Bool
  deriving DecidableEq

/-- The names of the tools resolved for the agent. -/
def Setup.resolved (u : Setup) : List String :=
  (resolveTools u.agent u.box u.contextToolNames).1.map LLMToolDefinition.name

/-- `system_by_name`. -/
def Setup.systemByName (u : Setup) : List SystemTool :=
  (resolveTools u.agent u.box u.contextToolNames).2

/-- The names that need an approval in this turn. -/
def Setup.approvalNames (u : Setup) : List String :=
  if u.approvalEnabled then u.agent.approvalRequiredNames else []

/-- A call that was dispatched, and with which inputs. -/
structure Dispatch where
  call : CallId
  name : String
  input : Dict
  dispatcher : Dispatcher
  deriving DecidableEq

/-- The conversation's rows and approvals. `dispatched` is a ghost: the calls dispatched so far. -/
structure Record where
  rows : List ConversationMessage
  approvals : List ToolApproval
  dispatched : List Dispatch

/-- Where a turn stands. -/
inductive TurnPc where
  | beginning (content : List Block)
  | resuming
  | calling
  | wording
  | suspending
  | executing (pending : List (CallId × ToolUse)) (results : List Block) (terminal : Bool)
  deriving DecidableEq

/-- A turn in progress. `uses` are the calls of the last reply; `message` is a ghost, the sequence
    of the row they stand in. `decisions` are those a resume read. -/
structure Turn where
  setup : Setup
  messages : List Canonical
  iteration : ℕ
  message : ℕ
  uses : List ToolUse
  decisions : Option (List ToolApproval)
  pc : TurnPc

/-- How a turn ends. -/
inductive TurnEnd where
  | output
  | suspended
  | aborted
  | raised (error : String)
  deriving DecidableEq

/-- What a tool gives back: the text of its result, or an exception the runner lets through (a
    `RuntimeError` of a handler, a transport error of the MCP client). -/
inductive ToolOutcome where
  | result (content : String) (isError : Bool)
  | raised (error : String)
  deriving DecidableEq

inductive TurnAction where
  | saveUser
  | reply (blocks : List Block)
  | interrupt (streamed : List Block) (aborted : Bool)
  | exceed
  | words (text : String)
  | suspend
  | takeDecisions
  | runTool (outcome : ToolOutcome)
  | saveResults
  | fail (error : String)
  deriving DecidableEq

/-! ### Blocks -/

/-- The tool uses among blocks. -/
def toolUses (blocks : List Block) : List ToolUse :=
  blocks.filterMap fun
    | .toolUse use => some use
    | _ => none

/-- What a provider writes: neither tool results nor compactions. -/
def fromProvider (blocks : List Block) : Bool :=
  blocks.all fun
    | .toolResult .. | .compaction _ => false
    | _ => true

/-- `_has_words`. -/
def hasWords (blocks : List Block) : Bool :=
  blocks.any fun
    | .text text => !(blank text)
    | _ => false

/-- The calls of one row, numbered. -/
def numbered (message : ℕ) (uses : List ToolUse) : List (CallId × ToolUse) :=
  uses.mapIdx fun k use => ((message, k), use)

/-- Text after the thinking and before everything else. -/
def insertText (text : String) : List Block → List Block
  | .thinking t :: blocks => .thinking t :: insertText text blocks
  | blocks => .text text :: blocks

/-- `save_message`. -/
def saveMessage (s : Record) (role : Role) (content : List Block) (isPartial : Bool) : Record :=
  { s with rows := s.rows ++ [⟨nextMessageSequence s.rows, role, content, isPartial⟩] }

/-- `add_text_to_last_assistant`. -/
def addTextToLastAssistant (rows : List ConversationMessage) (text : String) :
    List ConversationMessage :=
  match (orderBySequence rows).reverse.find? fun row => row.role = .assistant with
  | none => rows
  | some last => rows.map fun row =>
      if row.sequence = last.sequence then { row with content := insertText text row.content }
      else row

/-! ### Calls -/

/-- A rejected decision. -/
def rejects (decision : Option ToolApproval) : Bool :=
  match decision with
  | some row => row.status = .rejected
  | none => false

/-- The result a rejected call gets in place of running. -/
def rejectionContent (decision : Option ToolApproval) : String :=
  match decision.bind ToolApproval.reason with
  | some reason => if reason = "" then "The user rejected this tool call and it was not run."
      else "The user rejected this tool call and it was not run. Reason: " ++ reason
  | none => "The user rejected this tool call and it was not run."

/-- `edited`: approved with inputs that are there and differ. -/
def edited (decision : Option ToolApproval) (use : ToolUse) : Option Dict :=
  match decision with
  | some row =>
    if row.status = .approved ∧ row.toolInput ≠ [] ∧ row.toolInput ≠ use.input then
      some row.toolInput
    else none
  | none => none

/-- The inputs a call runs with. -/
def effectiveInput (decision : Option ToolApproval) (use : ToolUse) : Dict :=
  (edited decision use).getD use.input

/-- `_should_reinvoke`. -/
def shouldReinvoke (uses : List ToolUse) (decisions : List ToolApproval) : Bool :=
  uses.any fun use => match decisionFor decisions use with
    | none => true
    | some row => row.status ≠ .rejected || (row.reason.getD "" ≠ "")

/-- The decision a turn has for a call. -/
def Turn.decision (t : Turn) (use : ToolUse) : Option ToolApproval :=
  t.decisions.bind fun decisions => decisionFor decisions use

/-- `system_tool.terminal and not is_error`. -/
def endsTurn (d : Dispatcher) (isError : Bool) : Bool :=
  match d with
  | .system tool => tool.terminal && !isError
  | .mcp => false

/-! ### Steps -/

/-- A turn goes on or has ended. -/
abbrev After := Record × (Turn ⊕ TurnEnd)

/-- The provider stored and returned a reply. -/
def reply (s : Record) (t : Turn) (blocks : List Block) : After :=
  let uses := toolUses blocks
  let t' := { t with
    messages := t.messages ++ [(Role.assistant, blocks)]
    message := nextMessageSequence s.rows
    uses := uses }
  (saveMessage s .assistant blocks false,
    if uses = [] then .inr .output
    else if uses.any fun use => decide (use.name ∈ t.setup.approvalNames) then
      .inl { t' with pc := if hasWords blocks then .suspending else .wording }
    else .inl { t' with pc := .executing (numbered t'.message uses) [] false })

/-- The calls of a suspended turn that need an approval. -/
def Turn.gated (t : Turn) : List (CallId × ToolUse) :=
  (numbered t.message t.uses).filter fun entry => decide (entry.2.name ∈ t.setup.approvalNames)

/-- `create_pending_approvals` and the end of the turn. -/
def suspend (s : Record) (t : Turn) : After :=
  match createPendingApprovals s.approvals t.setup.agent.name t.gated with
  | some approvals => ({ s with approvals := approvals }, .inr .suspended)
  | none => (s, .inr (.raised "IntegrityError"))

/-- `resume` up to its calls. -/
def takeDecisions (s : Record) (t : Turn) : After :=
  match t.messages.getLast? with
  | some (.assistant, content) =>
    if toolUses content = [] then
      (s, .inr (.raised "resume: last assistant message has no tool_use"))
    else (s, .inl { t with
      uses := toolUses content
      decisions := some (decisionsByToolUse s.approvals)
      pc := .executing (numbered t.message (toolUses content)) [] false })
  | _ => (s, .inr (.raised "resume: history must end with an assistant turn"))

/-- One call of `_execute_tool_uses`: rejected, or dispatched. -/
def runTool (s : Record) (t : Turn) (call : CallId) (use : ToolUse)
    (rest : List (CallId × ToolUse)) (results : List Block) (terminal : Bool)
    (outcome : ToolOutcome) : After :=
  let decision := t.decision use
  if rejects decision then
    let results := results ++ [.toolResult use.id (rejectionContent decision) true]
    (s, .inl { t with pc := .executing rest results terminal })
  else
    let dispatcher := dispatcherOf t.setup.systemByName use.name
    ({ s with dispatched := s.dispatched ++
        [⟨call, use.name, effectiveInput decision use, dispatcher⟩] },
      match outcome with
      | .raised error => .inr (.raised error)
      | .result content isError =>
        let results := results ++ [.toolResult use.id content isError]
        .inl { t with pc := .executing rest results (terminal || endsTurn dispatcher isError) })

/-- The results are saved; the loop goes round, or the turn is over. -/
def saveResults (s : Record) (t : Turn) (results : List Block) (terminal : Bool) : After :=
  let messages := t.messages ++ [(Role.user, results)]
  (saveMessage s .user results false,
    match t.decisions with
    | none =>
      if terminal then .inr .output
      else .inl { t with messages := messages, iteration := t.iteration + 1, pc := .calling }
    | some decisions =>
      if shouldReinvoke t.uses decisions then
        .inl { t with
          setup := { t.setup with approvalEnabled := true }
          messages := messages
          iteration := 0
          decisions := none
          pc := .calling }
      else .inr .output)

/-- One await of a turn. -/
def turnStep (s : Record) (t : Turn) : TurnAction → Option After
  | .saveUser => match t.pc with
    | .beginning content =>
      if content = [] then some (s, .inl { t with pc := .calling })
      else some (saveMessage s .user content false,
        .inl { t with messages := t.messages ++ [(Role.user, content)], pc := .calling })
    | _ => none
  | .reply blocks =>
    if t.pc = .calling ∧ t.iteration < maxToolIterations ∧ fromProvider blocks then
      some (reply s t blocks)
    else none
  | .interrupt streamed aborted =>
    if t.pc = .calling ∧ t.iteration < maxToolIterations ∧ fromProvider streamed then
      some (if streamed = [] then s else saveMessage s .assistant streamed true,
        .inr (if aborted then .aborted else .raised "provider"))
    else none
  | .exceed =>
    if t.pc = .calling ∧ maxToolIterations ≤ t.iteration then
      some (s, .inr (.raised "agent exceeded MAX_TOOL_ITERATIONS=16"))
    else none
  | .words text =>
    if t.pc = .wording then
      some (if text = "" then s else { s with rows := addTextToLastAssistant s.rows text },
        .inl { t with pc := .suspending })
    else none
  | .suspend => if t.pc = .suspending then some (suspend s t) else none
  | .takeDecisions => if t.pc = .resuming then some (takeDecisions s t) else none
  | .runTool outcome => match t.pc with
    | .executing ((call, use) :: rest) results terminal =>
      some (runTool s t call use rest results terminal outcome)
    | _ => none
  | .saveResults => match t.pc with
    | .executing [] results terminal => some (saveResults s t results terminal)
    | _ => none
  | .fail error => some (s, .inr (.raised error))

/-- `run`. -/
def Turn.run (setup : Setup) (history : List Canonical) (content : List Block) : Turn :=
  ⟨setup, history, 0, 0, [], none, .beginning content⟩

/-- `resume`. -/
def Turn.resume (setup : Setup) (history : List Canonical) (message : ℕ) : Turn :=
  ⟨setup, history, 0, message, [], none, .resuming⟩

/-! ### What a step can do -/

/-- What one await of a turn can do, a constructor for each of its ways. -/
inductive TurnStep (s : Record) (t : Turn) : TurnAction → After → Prop
  | userSaved {content : List Block} (hpc : t.pc = .beginning content) :
      TurnStep s t .saveUser (saveMessage s .user content false,
        .inl { t with messages := t.messages ++ [(Role.user, content)], pc := .calling })
  | nothingToSave (hpc : t.pc = .beginning []) :
      TurnStep s t .saveUser (s, .inl { t with pc := .calling })
  | answered {blocks : List Block} (hpc : t.pc = .calling) (hblocks : fromProvider blocks = true)
      (hnone : toolUses blocks = []) :
      TurnStep s t (.reply blocks) (saveMessage s .assistant blocks false, .inr .output)
  | called {blocks : List Block} {next : TurnPc} (hpc : t.pc = .calling)
      (hblocks : fromProvider blocks = true)
      (hnext : ((next = .suspending ∨ next = .wording) ∧
          ∃ use ∈ toolUses blocks, use.name ∈ t.setup.approvalNames) ∨
        next = .executing (numbered (nextMessageSequence s.rows) (toolUses blocks)) [] false) :
      TurnStep s t (.reply blocks) (saveMessage s .assistant blocks false,
        .inl { t with
          messages := t.messages ++ [(Role.assistant, blocks)]
          message := nextMessageSequence s.rows
          uses := toolUses blocks
          pc := next })
  | interrupted {streamed : List Block} {aborted : Bool} {rows : List ConversationMessage}
      {ended : TurnEnd} (hpc : t.pc = .calling) (hstreamed : fromProvider streamed = true)
      (hrows : rows = s.rows ∨ rows = (saveMessage s .assistant streamed true).rows)
      (hended : ended = .aborted ∨ ended = .raised "provider") :
      TurnStep s t (.interrupt streamed aborted) ({ s with rows := rows }, .inr ended)
  | exceeded {error : String} (hpc : t.pc = .calling) :
      TurnStep s t .exceed (s, .inr (.raised error))
  | worded {text : String} {rows : List ConversationMessage} (hpc : t.pc = .wording)
      (hrows : rows = s.rows ∨ rows = addTextToLastAssistant s.rows text) :
      TurnStep s t (.words text) ({ s with rows := rows }, .inl { t with pc := .suspending })
  | suspended {approvals : List ToolApproval} (hpc : t.pc = .suspending)
      (hcreated : createPendingApprovals s.approvals t.setup.agent.name t.gated = some approvals) :
      TurnStep s t .suspend ({ s with approvals := approvals }, .inr .suspended)
  | refused {error : String} (hpc : t.pc = .suspending)
      (hcreated : createPendingApprovals s.approvals t.setup.agent.name t.gated = none) :
      TurnStep s t .suspend (s, .inr (.raised error))
  | resumed {content : List Block} (hpc : t.pc = .resuming)
      (hlast : t.messages.getLast? = some (Role.assistant, content)) :
      TurnStep s t .takeDecisions (s, .inl { t with
        uses := toolUses content
        decisions := some (decisionsByToolUse s.approvals)
        pc := .executing (numbered t.message (toolUses content)) [] false })
  | notResumed {error : String} (hpc : t.pc = .resuming)
      (hlast : ∀ content, t.messages.getLast? = some (Role.assistant, content) →
        toolUses content = []) :
      TurnStep s t .takeDecisions (s, .inr (.raised error))
  | rejected {outcome : ToolOutcome} {call : CallId} {use : ToolUse}
      {rest : List (CallId × ToolUse)} {results : List Block} {terminal : Bool} {content : String}
      (hpc : t.pc = .executing ((call, use) :: rest) results terminal)
      (hrejects : rejects (t.decision use) = true) :
      TurnStep s t (.runTool outcome) (s, .inl { t with
        pc := .executing rest (results ++ [.toolResult use.id content true]) terminal })
  | ran {outcome : ToolOutcome} {call : CallId} {use : ToolUse}
      {rest : List (CallId × ToolUse)} {results : List Block} {terminal : Bool}
      {next : Turn ⊕ TurnEnd} (hpc : t.pc = .executing ((call, use) :: rest) results terminal)
      (hrejects : rejects (t.decision use) = false)
      (hnext : (∃ error, outcome = .raised error ∧ next = .inr (.raised error)) ∨
        ∃ content isError ends, next = .inl { t with
          pc := .executing rest (results ++ [.toolResult use.id content isError]) ends }) :
      TurnStep s t (.runTool outcome) ({ s with dispatched := s.dispatched ++
        [⟨call, use.name, effectiveInput (t.decision use) use,
          dispatcherOf t.setup.systemByName use.name⟩] }, next)
  | resultsSaved {results : List Block} {terminal : Bool} {next : Turn ⊕ TurnEnd}
      (hpc : t.pc = .executing [] results terminal)
      (hnext : next = .inr .output ∨ ∃ setup iteration, next = .inl { t with
        setup := setup
        messages := t.messages ++ [(Role.user, results)]
        iteration := iteration
        decisions := none
        pc := .calling }) :
      TurnStep s t .saveResults (saveMessage s .user results false, next)
  | failed {error : String} : TurnStep s t (.fail error) (s, .inr (.raised error))

theorem reply_step {s : Record} {t : Turn} {blocks : List Block} (hpc : t.pc = .calling)
    (hblocks : fromProvider blocks = true) :
    TurnStep s t (.reply blocks) (reply s t blocks) := by
  rw [reply]
  dsimp only
  split
  case isTrue hnone => exact .answered hpc hblocks hnone
  case isFalse hsome =>
    split
    case isTrue hgated =>
      refine .called hpc hblocks (.inl ⟨?_, by simpa using hgated⟩)
      split
      · exact .inl rfl
      · exact .inr rfl
    case isFalse => exact .called hpc hblocks (.inr rfl)

theorem takeDecisions_step {s : Record} {t : Turn} (hpc : t.pc = .resuming) :
    TurnStep s t .takeDecisions (takeDecisions s t) := by
  rw [takeDecisions]
  split
  case h_1 content hlast =>
    split
    case isTrue hnone =>
      refine .notResumed hpc fun content' hlast' => ?_
      rw [hlast] at hlast'
      cases hlast'
      exact hnone
    case isFalse => exact .resumed hpc hlast
  case h_2 hlast => exact .notResumed hpc fun content hlast' => absurd hlast' (hlast content)

theorem runTool_step {s : Record} {t : Turn} {call : CallId} {use : ToolUse}
    {rest : List (CallId × ToolUse)} {results : List Block} {terminal : Bool}
    (hpc : t.pc = .executing ((call, use) :: rest) results terminal) (outcome : ToolOutcome) :
    TurnStep s t (.runTool outcome) (runTool s t call use rest results terminal outcome) := by
  rw [runTool]
  dsimp only
  split
  case isTrue hrejects => exact .rejected hpc hrejects
  case isFalse hrejects =>
    refine .ran hpc (by simpa using hrejects) ?_
    cases outcome with
    | raised error => exact .inl ⟨error, rfl, rfl⟩
    | result content isError => exact .inr ⟨content, isError, _, rfl⟩

theorem saveResults_step {s : Record} {t : Turn} {results : List Block} {terminal : Bool}
    (hpc : t.pc = .executing [] results terminal) :
    TurnStep s t .saveResults (saveResults s t results terminal) := by
  refine .resultsSaved hpc ?_
  cases hd : t.decisions with
  | none =>
    dsimp only
    cases terminal with
    | true => exact .inl rfl
    | false => exact .inr ⟨t.setup, t.iteration + 1, by simp [← hd]⟩
  | some decisions =>
    dsimp only
    split
    · exact .inr ⟨_, _, rfl⟩
    · exact .inl rfl

/-- A step does one of the things `TurnStep` lists. -/
theorem turnStep_cases {s : Record} {t : Turn} {a : TurnAction} {after : After}
    (h : turnStep s t a = some after) : TurnStep s t a after := by
  cases a with
  | saveUser =>
    simp only [turnStep] at h
    split at h
    case h_1 content hpc =>
      split at h
      case isTrue hempty =>
        obtain rfl := Option.some.inj h
        exact .nothingToSave (hempty ▸ hpc)
      case isFalse =>
        obtain rfl := Option.some.inj h
        exact .userSaved hpc
    case h_2 => cases h
  | reply blocks =>
    obtain ⟨⟨hpc, _, hblocks⟩, rfl⟩ := by simpa [turnStep] using h
    exact reply_step hpc hblocks
  | interrupt streamed aborted =>
    obtain ⟨⟨hpc, _, hstreamed⟩, rfl⟩ := by simpa [turnStep] using h
    cases aborted <;> split <;> first
      | exact .interrupted hpc hstreamed (.inl rfl) (by simp)
      | exact .interrupted hpc hstreamed (.inr rfl) (by simp)
  | exceed =>
    obtain ⟨⟨hpc, _⟩, rfl⟩ := by simpa [turnStep] using h
    exact .exceeded hpc
  | words text =>
    obtain ⟨hpc, rfl⟩ := by simpa [turnStep] using h
    split
    · exact .worded hpc (.inl rfl)
    · exact .worded hpc (.inr rfl)
  | suspend =>
    obtain ⟨hpc, rfl⟩ := by simpa [turnStep] using h
    rw [suspend]
    split
    case h_1 hcreated => exact .suspended hpc hcreated
    case h_2 hcreated => exact .refused hpc hcreated
  | takeDecisions =>
    obtain ⟨hpc, rfl⟩ := by simpa [turnStep] using h
    exact takeDecisions_step hpc
  | runTool outcome =>
    simp only [turnStep] at h
    split at h
    case h_1 hpc =>
      obtain rfl := Option.some.inj h
      exact runTool_step hpc outcome
    case h_2 => cases h
  | saveResults =>
    simp only [turnStep] at h
    split at h
    case h_1 hpc =>
      obtain rfl := Option.some.inj h
      exact saveResults_step hpc
    case h_2 => cases h
  | fail error =>
    obtain rfl := Option.some.inj h
    exact .failed

end LunaCore.Engine
