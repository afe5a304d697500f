import LunaCore.Providers.LeakedTranscript
import LunaCore.Schemes.Machine

/-! One turn of `ClaudeCLIProvider`: a child process whose stdout is read line by line.

        feed stdin ─→ read lines ─→ end of file, or cut on a proposal ─→ wait ─→ judge ─→ row ─→ keys
                          │                                                       │
                          └─→ timeout: kill, wait ─→ partial ─→ keys ─→ raised ←──┘ aborted

    A watcher kills the child when it sees the abort key; it is cancelled once the child has been
    waited for, or the timeout handled. What the judge raises, a line that cannot be read, a failed
    write and a cancelled task end the turn where it stands. -/

namespace LunaCore.Providers.ClaudeCli
open LunaCore.Values LunaCore.Chat LunaCore.Schemes
open LunaCore.Stream (Kind)

/-- `stop_on_proposal`, `may_end_empty`, and whether the call has an output schema. -/
structure Setup where
  stopOnProposal : Bool
  mayEndEmpty : Bool
  outputSchema : Bool

/-- A block of an assistant event. -/
inductive CliBlock where
  | text (text : String)
  | thinking (thinking : String)
  | toolUse (id : Option String) (name : String) (input : Dict)
  | other
  deriving DecidableEq

/-- A `result` event; `text` is its result where that is a text, `structuredOutput` the dump of its
    structured output. -/
structure ResultEvent where
  subtype : String
  isError : Bool
  text : Option String
  structuredOutput : Option String
  permissionDenials : List ToolUse
  deriving DecidableEq

inductive CliEvent where
  | blockStart (webSearch : Bool)
  | delta (kind : Kind) (text : String)
  | streamOther
  | assistant (messageId : ℕ) (blocks : List CliBlock)
  | user (toolResults : List (Option String))
  | result (r : ResultEvent)
  | other
  deriving DecidableEq

/-- A line of stdout. A malformed one raises: JSON that is no object, or bytes that are no text. -/
inductive Line where
  | skipped
  | malformed
  | event (e : CliEvent)
  deriving DecidableEq

/-- How the turn ends. -/
inductive Ending where
  | returned (blocks : List TurnBlock)
  | aborted
  | timedOut
  | noResult
  | errored
  | empty
  | failed
  | unsaved
  | cancelled
  deriving DecidableEq

/-- What is done for an event, one thing at a time; `keep` is no await. -/
inductive CliOp where
  | stream (op : Op)
  | keep (messageId : ℕ) (block : TurnBlock)
  deriving DecidableEq

inductive Pc where
  | feeding
  | consuming (ops : List CliOp)
  | cutting
  | exiting
  | timedOut
  | savingPartial (e : Ending)
  | deletingKeys (e : Ending)
  | readingStderr
  | saving (blocks : List TurnBlock)
  | completing (blocks : List TurnBlock)
  | closing (blocks : List TurnBlock)
  | ended (e : Ending)
  deriving DecidableEq

inductive Child where
  | running
  | killed
  | exited
  deriving DecidableEq

/-- A turn: the lines the child writes if it is left to, those not read yet, `_TurnState`, and the
    keys and rows. `proposing` is a ghost: the message that made the first proposal. -/
structure CliTurn where
  script : List Line
  stdout : List Line
  child : Child
  aborted : Bool
  assistantBlocks : List TurnBlock
  webSearches : List String
  webFetches : List String
  resultEvent : Option ResultEvent
  proposalSeen : Bool
  proposalComplete : Bool
  proposing : Option ℕ
  turn : Streamed
  pc : Pc
  deriving DecidableEq

/-- The child is spawned. -/
def CliTurn.spawned (script : List Line) : CliTurn where
  script := script
  stdout := script
  child := .running
  aborted := false
  assistantBlocks := []
  webSearches := []
  webFetches := []
  resultEvent := none
  proposalSeen := false
  proposalComplete := false
  proposing := none
  turn := .fresh
  pc := .feeding

/-- `drainFailed`: the child is gone before it took its input. `readTail`: the child was killed in
    the middle of a line, and the bytes are no text. `gone`: the child has exited and its pipes are closed, so that
    `proc.kill()` raises `ProcessLookupError`. -/
inductive Action where
  | drained
  | drainFailed
  | readLine
  | readTail
  | run (sequence : Option ℕ)
  | endOfFile
  | kill (gone : Bool)
  | timeout (gone : Bool)
  | reap
  | savePartial
  | deleteKeys
  | readStderr
  | saveMessage
  | completed
  | observeAbort
  | childExits
  | cancel

/-! ### `_consume_stream` -/

def toolNamePrefix : String := "mcp__luna__"

/-- `_strip_tool_prefix`. -/
def stripToolPrefix (name : String) : String :=
  if toolNamePrefix.toList.isPrefixOf name.toList then
    String.ofList (name.toList.drop toolNamePrefix.length)
  else name

/-- A block as `_consume_stream` keeps it. -/
def kept : CliBlock → Option TurnBlock
  | .text text => some (.text text)
  | .thinking thinking => some (.thinking thinking)
  | .toolUse id "WebSearch" input => some (.webSearchCall id (match Dict.get input "query" with
    | some (.str query) => if query = "" then [] else [query]
    | _ => []))
  | .toolUse id "WebFetch" input => some (.webFetchCall id (match Dict.get input "url" with
    | some (.str url) => some url
    | _ => none))
  | .toolUse id name input => some (.toolUse ⟨id, name, input⟩)
  | .other => none

/-- A page read shows at once that it is under way. -/
def keepOps (messageId : ℕ) (block : TurnBlock) : List CliOp :=
  .keep messageId block :: match block with
    | .webFetchCall _ _ => publishBuiltin.map .stream
    | _ => []

/-- What is done for an event that is read on for. -/
def onEvent (s : CliTurn) : CliEvent → List CliOp
  | .blockStart true => (s.turn.ensureStarted ++ publishBuiltin).map .stream
  | .delta kind text =>
    if text = "" then [] else (s.turn.ensureStarted ++ publishDelta kind text).map .stream
  | .assistant messageId blocks => match blocks.filterMap kept with
    | [] => []
    | blocks => s.turn.ensureStarted.map .stream ++ blocks.flatMap (keepOps messageId)
  | .user toolResults => (toolResults.flatMap fun id =>
      if (∃ id' ∈ id, id' ∈ s.webFetches) ∨ ∃ id' ∈ id, id' ∈ s.webSearches then
        publishBuiltin ++ publishBuiltin
      else []).map .stream
  | .blockStart false | .streamOther | .result _ | .other => []

/-- The proposing message goes on while these come. -/
def CliEvent.readOn : CliEvent → Bool
  | .blockStart _ | .delta _ _ | .streamOther | .assistant _ _ => true
  | _ => false

def CliOp.awaits : CliOp → Bool
  | .stream op => op.awaits
  | .keep _ _ => false

def isToolUse : TurnBlock → Bool
  | .toolUse _ => true
  | _ => false

/-- One thing done. -/
def CliTurn.perform (cfg : Setup) (s : CliTurn) (sequence : Option ℕ) : CliOp → CliTurn
  | .stream op => { s with turn := s.turn.run sequence op }
  | .keep messageId block =>
    let proposes := cfg.stopOnProposal && isToolUse block
    { s with
      assistantBlocks := s.assistantBlocks ++ [block]
      webSearches := match block with
        | .webSearchCall id _ => id.getD "None" :: s.webSearches
        | _ => s.webSearches
      webFetches := match block with
        | .webFetchCall id _ => id.getD "None" :: s.webFetches
        | _ => s.webFetches
      proposalSeen := s.proposalSeen || proposes
      proposing := if proposes then s.proposing <|> some messageId else s.proposing }

/-! ### `to_canonical_blocks` and the judge -/

/-- A kept block as the row has it. -/
def canonicalBlock : TurnBlock → Option TurnBlock
  | .thinking thinking => if thinking = "" then none else some (.thinking thinking)
  | .text text =>
    if stripLeakedTranscript text = "" then none else some (.text (stripLeakedTranscript text))
  | .toolUse use => some (.toolUse { use with name := stripToolPrefix use.name })
  | .webSearchCall id queries => some (.webSearchCall id queries)
  | .webFetchCall id url => some (.webFetchCall id url)
  | .native _ => none

def isThinking : TurnBlock → Bool
  | .thinking _ => true
  | _ => false

/-- `to_canonical_blocks`. -/
def toCanonicalBlocks (cfg : Setup) (assistantBlocks : List TurnBlock) (r : ResultEvent) :
    List TurnBlock :=
  let said := assistantBlocks.filterMap canonicalBlock
  let blocks := if said.any isToolUse then said else said ++ r.permissionDenials.map fun use =>
    .toolUse { use with name := stripToolPrefix use.name }
  match cfg.outputSchema, r.structuredOutput with
  | true, some output => blocks.filter isThinking ++ [.text output]
  | _, _ => match blocks, r.text with
    | [], some text => if text = "" then [] else [.text text]
    | blocks, _ => blocks

/-- The turn was cut on a proposal: no result event came. -/
def CliTurn.cut (s : CliTurn) : Bool := s.resultEvent.isNone && s.proposalComplete

/-- The result the turn is judged by. -/
def CliTurn.result (s : CliTurn) : Option ResultEvent :=
  s.resultEvent <|> if s.proposalComplete then some ⟨"proposal", false, none, none, []⟩ else none

/-- The result is an error that ends the turn. -/
def ResultEvent.fails (r : ResultEvent) : Bool :=
  r.isError && r.subtype != "success" && r.subtype != "error_max_turns"

/-- Where the turn goes once the child has been waited for. -/
def CliTurn.judge (cfg : Setup) (s : CliTurn) : Pc :=
  if s.aborted then .savingPartial .aborted
  else match s.result with
    | none => .readingStderr
    | some r =>
      let blocks := toCanonicalBlocks cfg s.assistantBlocks r
      if r.fails then .ended .errored
      else if blocks = [] ∧ cfg.mayEndEmpty = false then .ended .empty
      else .saving blocks

/-! ### The machine -/

/-- The watcher runs. -/
def Pc.watched : Pc → Bool
  | .feeding | .consuming _ | .cutting | .exiting | .timedOut => true
  | .savingPartial e | .deletingKeys e => e = .timedOut
  | _ => false

/-- The task is at an await. -/
def Pc.awaits : Pc → Bool
  | .consuming (op :: _) => op.awaits
  | .ended _ => false
  | _ => true

def Child.kill : Child → Child
  | .running => .killed
  | child => child

/-- The final row's reasoning. -/
def CliTurn.thinking (s : CliTurn) : Option String := stripped (String.join s.turn.thinkingParts)

/-- A line is read. -/
def CliTurn.read (s : CliTurn) : Line → CliTurn
  | .skipped => s
  | .malformed => { s with pc := .ended .failed }
  | .event e =>
    if s.proposalSeen && !e.readOn then { s with proposalComplete := true, pc := .cutting }
    else match e with
      | .result r => { s with resultEvent := some r }
      | e => { s with pc := .consuming (onEvent s e) }

/-- One step of a turn, of its watcher or of the child. -/
def cliStep (cfg : Setup) (s : CliTurn) : Action → Option CliTurn
  | .drained => if s.pc = .feeding then some { s with pc := .consuming [] } else none
  | .drainFailed =>
    if s.pc = .feeding ∧ s.child ≠ .running then some { s with pc := .ended .failed } else none
  | .readLine => match s.pc, s.stdout with
    | .consuming [], line :: stdout => some ({ s with stdout := stdout }.read line)
    | _, _ => none
  | .readTail =>
    if s.pc = .consuming [] ∧ s.child = .killed then some { s with pc := .ended .failed } else none
  | .run sequence => match s.pc with
    | .consuming (op :: ops) => some { s.perform cfg sequence op with pc := .consuming ops }
    | _ => none
  | .endOfFile =>
    if s.pc = .consuming [] ∧ (s.stdout = [] ∨ s.child = .killed) then
      some { s with pc := .exiting }
    else none
  | .kill gone =>
    if s.pc = .cutting then
      if gone then if s.child = .running then none else some { s with pc := .ended .failed }
      else some { s with child := s.child.kill, pc := .exiting }
    else none
  | .timeout gone => match s.pc with
    | .consuming ops =>
      if (Pc.consuming ops).awaits then
        if gone then if s.child = .running then none else some { s with pc := .ended .failed }
        else some { s with child := s.child.kill, pc := .timedOut }
      else none
    | _ => none
  | .reap =>
    if s.child = .running then none
    else match s.pc with
      | .exiting => some { s with pc := s.judge cfg }
      | .timedOut => some { s with pc := .savingPartial .timedOut }
      | _ => none
  | .savePartial => match s.pc with
    | .savingPartial e => some { s with turn := s.turn.savePartial, pc := .deletingKeys e }
    | _ => none
  | .deleteKeys => match s.pc with
    | .deletingKeys e => some { s with turn := s.turn.deleteKeys, pc := .ended e }
    | .closing blocks => some { s with turn := s.turn.deleteKeys, pc := .ended (.returned blocks) }
    | _ => none
  | .readStderr => if s.pc = .readingStderr then some { s with pc := .ended .noResult } else none
  | .saveMessage => match s.pc with
    | .saving blocks => match s.turn.saveMessage ⟨blocks, s.thinking, false⟩ with
      | some turn => some { s with turn := turn, pc := .completing blocks }
      | none => some { s with pc := .ended .unsaved }
    | _ => none
  -- the completed event, the usage and the commit
  | .completed => match s.pc with
    | .completing blocks => some { s with pc := .closing blocks }
    | _ => none
  | .observeAbort =>
    if s.pc.watched then some { s with aborted := true, child := s.child.kill } else none
  | .childExits => if s.child = .running then some { s with child := .exited } else none
  | .cancel => if s.pc.awaits then some { s with pc := .ended .cancelled } else none

/-- What a step takes a turn from and leaves of it. -/
inductive CliStepped (cfg : Setup) (s : CliTurn) : Action → CliTurn → Prop where
  | drained (hpc : s.pc = .feeding) : CliStepped cfg s .drained { s with pc := .consuming [] }
  | drainFailed (hpc : s.pc = .feeding) (hchild : s.child ≠ .running) :
      CliStepped cfg s .drainFailed { s with pc := .ended .failed }
  | readLine (line : Line) (stdout : List Line) (hpc : s.pc = .consuming [])
      (hout : s.stdout = line :: stdout) :
      CliStepped cfg s .readLine ({ s with stdout := stdout }.read line)
  | readTail (hpc : s.pc = .consuming []) (hchild : s.child = .killed) :
      CliStepped cfg s .readTail { s with pc := .ended .failed }
  | run (sequence : Option ℕ) (op : CliOp) (ops : List CliOp) (hpc : s.pc = .consuming (op :: ops)) :
      CliStepped cfg s (.run sequence) { s.perform cfg sequence op with pc := .consuming ops }
  | endOfFile (hpc : s.pc = .consuming []) (hdone : s.stdout = [] ∨ s.child = .killed) :
      CliStepped cfg s .endOfFile { s with pc := .exiting }
  | killed (hpc : s.pc = .cutting) :
      CliStepped cfg s (.kill false) { s with child := s.child.kill, pc := .exiting }
  | killFailed (hpc : s.pc = .cutting) (hchild : s.child ≠ .running) :
      CliStepped cfg s (.kill true) { s with pc := .ended .failed }
  | timedOut (ops : List CliOp) (hpc : s.pc = .consuming ops)
      (hawaits : (Pc.consuming ops).awaits = true) :
      CliStepped cfg s (.timeout false) { s with child := s.child.kill, pc := .timedOut }
  | timeoutFailed (ops : List CliOp) (hpc : s.pc = .consuming ops)
      (hawaits : (Pc.consuming ops).awaits = true) (hchild : s.child ≠ .running) :
      CliStepped cfg s (.timeout true) { s with pc := .ended .failed }
  | judged (hpc : s.pc = .exiting) (hchild : s.child ≠ .running) :
      CliStepped cfg s .reap { s with pc := s.judge cfg }
  | reaped (hpc : s.pc = .timedOut) (hchild : s.child ≠ .running) :
      CliStepped cfg s .reap { s with pc := .savingPartial .timedOut }
  | savePartial (e : Ending) (hpc : s.pc = .savingPartial e) :
      CliStepped cfg s .savePartial { s with turn := s.turn.savePartial, pc := .deletingKeys e }
  | deleteKeys (e : Ending) (hpc : s.pc = .deletingKeys e) :
      CliStepped cfg s .deleteKeys { s with turn := s.turn.deleteKeys, pc := .ended e }
  | closed (blocks : List TurnBlock) (hpc : s.pc = .closing blocks) :
      CliStepped cfg s .deleteKeys
        { s with turn := s.turn.deleteKeys, pc := .ended (.returned blocks) }
  | readStderr (hpc : s.pc = .readingStderr) :
      CliStepped cfg s .readStderr { s with pc := .ended .noResult }
  | saved (blocks : List TurnBlock) (turn : Streamed) (hpc : s.pc = .saving blocks)
      (hsave : s.turn.saveMessage ⟨blocks, s.thinking, false⟩ = some turn) :
      CliStepped cfg s .saveMessage { s with turn := turn, pc := .completing blocks }
  | unsaved (blocks : List TurnBlock) (hpc : s.pc = .saving blocks)
      (hsave : s.turn.saveMessage ⟨blocks, s.thinking, false⟩ = none) :
      CliStepped cfg s .saveMessage { s with pc := .ended .unsaved }
  | completed (blocks : List TurnBlock) (hpc : s.pc = .completing blocks) :
      CliStepped cfg s .completed { s with pc := .closing blocks }
  | observeAbort (hwatched : s.pc.watched = true) :
      CliStepped cfg s .observeAbort { s with aborted := true, child := s.child.kill }
  | childExits (hchild : s.child = .running) :
      CliStepped cfg s .childExits { s with child := .exited }
  | cancel (hawaits : s.pc.awaits = true) : CliStepped cfg s .cancel { s with pc := .ended .cancelled }

/-- Every step is one of these. -/
theorem cliStep_cases {cfg : Setup} {s t : CliTurn} {a : Action} (h : cliStep cfg s a = some t) :
    CliStepped cfg s a t := by
  cases a with
  | drained =>
    simp only [cliStep, Option.ite_none_right_eq_some] at h
    obtain ⟨hpc, rfl⟩ := h.imp_right Option.some.inj
    exact .drained hpc
  | drainFailed =>
    simp only [cliStep, Option.ite_none_right_eq_some] at h
    obtain ⟨⟨hpc, hchild⟩, rfl⟩ := h.imp_right Option.some.inj
    exact .drainFailed hpc hchild
  | readLine =>
    simp only [cliStep] at h
    split at h
    case h_1 line stdout hpc hout =>
      obtain rfl := Option.some.inj h
      exact .readLine line stdout hpc hout
    case h_2 => cases h
  | readTail =>
    simp only [cliStep, Option.ite_none_right_eq_some] at h
    obtain ⟨⟨hpc, hchild⟩, rfl⟩ := h.imp_right Option.some.inj
    exact .readTail hpc hchild
  | run sequence =>
    simp only [cliStep] at h
    split at h
    case h_1 op ops hpc =>
      obtain rfl := Option.some.inj h
      exact .run sequence op ops hpc
    case h_2 => cases h
  | endOfFile =>
    simp only [cliStep, Option.ite_none_right_eq_some] at h
    obtain ⟨⟨hpc, hdone⟩, rfl⟩ := h.imp_right Option.some.inj
    exact .endOfFile hpc hdone
  | kill gone =>
    simp only [cliStep, Option.ite_none_right_eq_some] at h
    obtain ⟨hpc, h⟩ := h
    cases gone with
    | true =>
      simp only [if_true, Option.ite_none_left_eq_some] at h
      obtain ⟨hchild, rfl⟩ := h.imp_right Option.some.inj
      exact .killFailed hpc hchild
    | false =>
      obtain rfl := Option.some.inj h
      exact .killed hpc
  | timeout gone =>
    simp only [cliStep] at h
    split at h
    case h_1 ops hpc =>
      simp only [Option.ite_none_right_eq_some] at h
      obtain ⟨hawaits, h⟩ := h
      cases gone with
      | true =>
        simp only [if_true, Option.ite_none_left_eq_some] at h
        obtain ⟨hchild, rfl⟩ := h.imp_right Option.some.inj
        exact .timeoutFailed ops hpc hawaits hchild
      | false =>
        obtain rfl := Option.some.inj h
        exact .timedOut ops hpc hawaits
    case h_2 => cases h
  | reap =>
    simp only [cliStep, Option.ite_none_left_eq_some] at h
    obtain ⟨hchild, h⟩ := h
    split at h
    case h_1 hpc =>
      obtain rfl := Option.some.inj h
      exact .judged hpc hchild
    case h_2 hpc =>
      obtain rfl := Option.some.inj h
      exact .reaped hpc hchild
    case h_3 => cases h
  | savePartial =>
    simp only [cliStep] at h
    split at h
    case h_1 e hpc =>
      obtain rfl := Option.some.inj h
      exact .savePartial e hpc
    case h_2 => cases h
  | deleteKeys =>
    simp only [cliStep] at h
    split at h
    case h_1 e hpc =>
      obtain rfl := Option.some.inj h
      exact .deleteKeys e hpc
    case h_2 blocks hpc =>
      obtain rfl := Option.some.inj h
      exact .closed blocks hpc
    case h_3 => cases h
  | readStderr =>
    simp only [cliStep, Option.ite_none_right_eq_some] at h
    obtain ⟨hpc, rfl⟩ := h.imp_right Option.some.inj
    exact .readStderr hpc
  | saveMessage =>
    simp only [cliStep] at h
    split at h
    case h_1 blocks hpc =>
      split at h
      case h_1 turn hsave =>
        obtain rfl := Option.some.inj h
        exact .saved blocks turn hpc hsave
      case h_2 hsave =>
        obtain rfl := Option.some.inj h
        exact .unsaved blocks hpc hsave
    case h_2 => cases h
  | completed =>
    simp only [cliStep] at h
    split at h
    case h_1 blocks hpc =>
      obtain rfl := Option.some.inj h
      exact .completed blocks hpc
    case h_2 => cases h
  | observeAbort =>
    simp only [cliStep, Option.ite_none_right_eq_some] at h
    obtain ⟨hwatched, rfl⟩ := h.imp_right Option.some.inj
    exact .observeAbort hwatched
  | childExits =>
    simp only [cliStep, Option.ite_none_right_eq_some] at h
    obtain ⟨hchild, rfl⟩ := h.imp_right Option.some.inj
    exact .childExits hchild
  | cancel =>
    simp only [cliStep, Option.ite_none_right_eq_some] at h
    obtain ⟨hawaits, rfl⟩ := h.imp_right Option.some.inj
    exact .cancel hawaits

/-! ### The law and the condition under which it holds -/

def Ending.returns : Ending → Option (List TurnBlock)
  | .returned blocks => some blocks
  | _ => none

/-- The calls of a message among some lines, as a row has them. -/
def callsOf (messageId : ℕ) (lines : List Line) : List TurnBlock :=
  lines.flatMap fun
    | .event (.assistant id blocks) =>
      if id = messageId then ((blocks.filterMap kept).filter isToolUse).filterMap canonicalBlock
      else []
    | _ => []

/-- How a turn is to end: settled, its child gone, aborted if an abort was observed; and cut on a
    proposal it returns every call of the proposing message. -/
structure Finished (s : CliTurn) (e : Ending) : Prop where
  settled : s.turn.Settled e.returns
  child : s.child ≠ .running
  aborted : s.aborted = true → e = .aborted
  calls : ∀ blocks, e = .returned blocks → s.cut = true → ∀ m ∈ s.proposing,
    ∀ call ∈ callsOf m s.script, call ∈ blocks

/-- What each step must leave: at most one row, and of a turn that ended all it is due. -/
structure Lawful (_ : CliTurn) (_ : Action) (t : CliTurn) : Prop where
  single : t.turn.rows.length ≤ 1
  finished : ∀ e, t.pc = .ended e → Finished t e

/-- The turn has streamed nothing, its child is gone and no abort was observed. -/
structure CliTurn.Idle (s : CliTurn) : Prop where
  untouched : s.turn.Untouched
  child : s.child ≠ .running
  aborted : s.aborted = false

/-- The steps that keep the law. A turn that is cancelled, cannot read a line, cannot write its input
    or kill its child, or is given no result, an error or nothing, is idle; a turn that timed out
    observed no abort; and when a turn that was cut returns, what was not read has no other call of
    the proposing message. -/
def Clean (cfg : Setup) (s : CliTurn) : Action → Prop
  | .cancel | .drainFailed | .readTail | .readStderr | .kill true | .timeout true => s.Idle
  | .readLine => s.stdout.head? = some .malformed → s.Idle
  | .reap => s.pc = .exiting → s.aborted = false → ∀ r ∈ s.result,
      (r.fails = true ∨ toCanonicalBlocks cfg s.assistantBlocks r = [] ∧ cfg.mayEndEmpty = false) →
        s.Idle
  | .deleteKeys => (s.pc = .deletingKeys .timedOut → s.aborted = false) ∧
      ∀ blocks, s.pc = .closing blocks → s.cut = true → ∀ m ∈ s.proposing,
        ∀ call ∈ callsOf m s.stdout, call ∈ blocks
  | _ => True

/-! ### The invariant -/

/-- What is left of an event, for the turn and for its blocks. -/
def CliOp.op? : CliOp → Option Op
  | .stream op => some op
  | .keep _ _ => none

def CliOp.block? : CliOp → Option TurnBlock
  | .stream _ => none
  | .keep _ block => some block

/-- Every call of the lines read is kept, or about to be. -/
def Collected (s : CliTurn) (pending : List TurnBlock) : Prop :=
  ∃ read, s.script = read ++ s.stdout ∧ ∀ m, ∀ call ∈ callsOf m read,
    ∃ block ∈ s.assistantBlocks ++ pending, canonicalBlock block = some call

/-- Every call of the lines read is among the blocks of a turn that was cut. -/
def Answered (s : CliTurn) (blocks : List TurnBlock) : Prop :=
  s.cut = true → ∃ read, s.script = read ++ s.stdout ∧
    ∀ m, ∀ call ∈ callsOf m read, call ∈ blocks

/-- The ends that save a partial. -/
def Ending.cleansUp (e : Ending) : Prop := e = .aborted ∨ e = .timedOut

def AtPc (s : CliTurn) : Pc → Prop
  | .feeding => s.turn = .fresh ∧ Collected s []
  | .consuming ops => s.turn.rows = [] ∧ Pending s.turn (ops.filterMap CliOp.op?) ∧
      Collected s (ops.filterMap CliOp.block?)
  | .cutting | .exiting => s.turn.rows = [] ∧ Collected s []
  | .timedOut => s.turn.rows = []
  | .savingPartial e => s.turn.rows = [] ∧ s.child ≠ .running ∧ e.cleansUp
  | .deletingKeys e => ((s.turn.rows = [] ∧ s.turn.Silent) ∨ (¬ s.turn.Silent ∧
      ∃ row, s.turn.rows = [row] ∧ row.isPartial = true ∧ row.text = s.turn.text)) ∧
        s.child ≠ .running ∧ e.cleansUp
  | .readingStderr => s.turn.rows = [] ∧ s.child ≠ .running ∧ s.aborted = false
  | .saving blocks => s.turn.rows = [] ∧ s.child ≠ .running ∧ s.aborted = false ∧ Answered s blocks
  | .completing blocks | .closing blocks =>
      (∃ row, s.turn.rows = [row] ∧ row.isPartial = false ∧ row.content = blocks) ∧
        s.child ≠ .running ∧ s.aborted = false ∧ Answered s blocks
  | .ended _ => True

/-- The invariant: until it ends the turn is as its step has it, and then it is finished. -/
def Kept (s : CliTurn) : Prop :=
  match s.pc with
  | .ended e => Finished s e
  | pc => Going s.turn ∧ AtPc s pc

theorem kept_spawned (script : List Line) : Kept (.spawned script) :=
  ⟨going_fresh, rfl, [], rfl, by simp [callsOf]⟩

section
variable {cfg : Setup} {s t : CliTurn}

theorem kept_at (hs : Kept s) {pc : Pc} (hpc : s.pc = pc) (hnot : ∀ e, pc ≠ .ended e) :
    Going s.turn ∧ AtPc s pc := by
  rw [Kept] at hs
  rw [hpc] at hs
  cases pc with
  | ended e => exact absurd rfl (hnot e)
  | _ => exact hs

theorem callsOf_append (m : ℕ) (lines lines' : List Line) :
    callsOf m (lines ++ lines') = callsOf m lines ++ callsOf m lines' := by
  simp [callsOf]

/-- An end that raises where it stands is as due just when the turn is idle. -/
theorem finished_iff_idle (hrows : s.turn.rows = []) {e : Ending} (hreturns : e.returns = none)
    (he : e ≠ .aborted) : Finished { s with pc := .ended e } e ↔ s.Idle := by
  constructor
  · intro h
    refine ⟨(settled_iff_untouched hrows).mp (hreturns ▸ h.settled), h.child, ?_⟩
    rw [← Bool.not_eq_true]
    exact fun haborted => he (h.aborted haborted)
  · intro h
    refine ⟨hreturns ▸ h.untouched.settled, h.child, fun haborted => ?_, fun blocks heq => ?_⟩
    · rw [h.aborted] at haborted
      cases haborted
    · rw [heq] at hreturns
      cases hreturns

/-- A turn that raises where it stands. -/
theorem kept_raise (hidle : s.Idle) {e : Ending} (hreturns : e.returns = none) (he : e ≠ .aborted) :
    Kept { s with pc := .ended e } :=
  (finished_iff_idle hidle.untouched.rows hreturns he).mpr hidle

/-! #### Reading -/

theorem filterMap_stream (ops : List Op) :
    (ops.map CliOp.stream).filterMap CliOp.op? = ops ∧
      (ops.map CliOp.stream).filterMap CliOp.block? = [] := by
  induction ops with
  | nil => exact ⟨rfl, rfl⟩
  | cons op ops ih => simp [CliOp.op?, CliOp.block?, ih.1]

theorem blocks_keepOps (m : ℕ) (blocks : List TurnBlock) :
    (blocks.flatMap (keepOps m)).filterMap CliOp.block? = blocks := by
  induction blocks with
  | nil => rfl
  | cons block blocks ih =>
    rw [List.flatMap_cons, List.filterMap_append, ih]
    cases block <;>
      simp [keepOps, CliOp.block?, publishBuiltin]

/-- Of the blocks of an assistant event, the turn only publishes builtin frames. -/
theorem ops_keepOps (m : ℕ) (blocks : List TurnBlock) :
    ∀ op ∈ (blocks.flatMap (keepOps m)).filterMap CliOp.op?,
      op = .nextDeltaSequence ∨ op = .publish := by
  intro op h
  induction blocks with
  | nil => cases h
  | cons block blocks ih =>
    rw [List.flatMap_cons, List.filterMap_append] at h
    rcases List.mem_append.mp h with h | h
    · cases block <;> simp [keepOps, CliOp.op?, publishBuiltin] at h
      exact h.imp Eq.symm Eq.symm
    · exact ih h

/-- Builtin frames, of a turn that is announced first. -/
theorem pending_quiet {u : Streamed} (hu : u.started = true → u.inflightMeta = true) {ops : List Op}
    (hquiet : ∀ op ∈ ops, op = .nextDeltaSequence ∨ op = .publish) :
    Pending u (u.ensureStarted ++ ops) := by
  have honce : Op.emitStarted ∉ ops := fun h => by rcases hquiet _ h with h | h <;> cases h
  have happends : ∀ kind text, Op.append kind text ∉ ops :=
    fun kind text h => by rcases hquiet _ h with h | h <;> cases h
  rw [Streamed.ensureStarted]
  cases hstarted : u.started with
  | true => exact .ready hu honce fun kind text h => absurd h (happends kind text)
  | false => exact .starting hstarted honce fun kind text h => absurd h (happends kind text)

theorem pending_delta {u : Streamed} (hu : u.started = true → u.inflightMeta = true) (kind : Kind)
    {text : String} (htext : text ≠ "") :
    Pending u (u.ensureStarted ++ publishDelta kind text) := by
  have hmem : ∀ kind' text', Op.append kind' text' ∈ publishDelta kind text → text' ≠ "" := by
    intro kind' text' h
    obtain ⟨rfl, rfl⟩ : kind' = kind ∧ text' = text := by simpa [publishDelta] using h
    exact htext
  rw [Streamed.ensureStarted]
  cases hstarted : u.started with
  | true =>
    exact .ready hu (by simp [publishDelta]) fun kind' text' h => ⟨hmem kind' text' h, hu hstarted⟩
  | false => exact .starting hstarted (by simp [publishDelta]) hmem

/-- What an event leaves to do keeps to the order of a turn. -/
theorem pending_event (hs : s.turn.started = true → s.turn.inflightMeta = true) (e : CliEvent) :
    Pending s.turn ((onEvent s e).filterMap CliOp.op?) := by
  cases e with
  | blockStart webSearch =>
    cases webSearch with
    | true =>
      simp only [onEvent, (filterMap_stream _).1]
      exact pending_quiet hs (by simp [publishBuiltin])
    | false => exact pending_nil hs
  | delta kind text =>
    simp only [onEvent]
    split
    case isTrue => exact pending_nil hs
    case isFalse htext =>
      rw [(filterMap_stream _).1]
      exact pending_delta hs kind htext
  | assistant m blocks =>
    simp only [onEvent]
    split
    case h_1 => exact pending_nil hs
    case h_2 =>
      rw [List.filterMap_append, (filterMap_stream _).1]
      exact pending_quiet hs (ops_keepOps m _)
  | user toolResults =>
    simp only [onEvent, (filterMap_stream _).1]
    refine .ready hs (fun h => ?_) fun kind text h => ?_
    · obtain ⟨id, -, hop⟩ := List.mem_flatMap.mp h
      split at hop <;> simp [publishBuiltin] at hop
    · obtain ⟨id, -, hop⟩ := List.mem_flatMap.mp h
      split at hop <;> simp [publishBuiltin] at hop
  | streamOther | result r | other => exact pending_nil hs

/-- The blocks an event leaves to keep. -/
theorem blocks_onEvent (e : CliEvent) : (onEvent s e).filterMap CliOp.block? =
    match e with
    | .assistant _ blocks => blocks.filterMap kept
    | _ => [] := by
  cases e with
  | assistant m blocks =>
    simp only [onEvent]
    split
    case h_1 hnil => simp [hnil]
    case h_2 =>
      rw [List.filterMap_append, (filterMap_stream _).2, blocks_keepOps]
      rfl
  | blockStart webSearch =>
    cases webSearch with
    | true => exact (filterMap_stream _).2
    | false => rfl
  | delta kind text =>
    simp only [onEvent]
    split
    case isTrue => rfl
    case isFalse => exact (filterMap_stream _).2
  | user toolResults => exact (filterMap_stream _).2
  | streamOther | result r | other => rfl

/-- A line that brings no call. -/
theorem collected_quiet {line : Line} {stdout : List Line} (h : Collected s [])
    (hout : s.stdout = line :: stdout) (hquiet : ∀ m, callsOf m [line] = []) :
    Collected { s with stdout := stdout } [] := by
  obtain ⟨read, hread, hcalls⟩ := h
  refine ⟨read ++ [line], by simp [hread, hout], fun m call hcall => ?_⟩
  rw [callsOf_append, hquiet, List.append_nil] at hcall
  exact hcalls m call hcall

/-- An event that is read on for. -/
theorem collected_event {e : CliEvent} {stdout : List Line} (h : Collected s [])
    (hout : s.stdout = .event e :: stdout) :
    Collected { s with stdout := stdout } ((onEvent s e).filterMap CliOp.block?) := by
  obtain ⟨read, hread, hcalls⟩ := h
  refine ⟨read ++ [.event e], by simp [hread, hout], fun m call hcall => ?_⟩
  rw [callsOf_append] at hcall
  rcases List.mem_append.mp hcall with hcall | hcall
  · obtain ⟨block, hblock, hcanonical⟩ := hcalls m call hcall
    exact ⟨block, List.mem_append_left _ (by simpa using hblock), hcanonical⟩
  · rw [blocks_onEvent]
    cases e with
    | assistant id blocks =>
      by_cases hid : id = m
      · obtain ⟨block, hblock, hcanonical⟩ : ∃ block ∈ (blocks.filterMap kept).filter isToolUse,
            canonicalBlock block = some call := by
          simpa [callsOf, hid, List.mem_filterMap] using hcall
        exact ⟨block, List.mem_append_right _ (List.mem_of_mem_filter hblock), hcanonical⟩
      · simp [callsOf, hid] at hcall
    | _ => simp [callsOf] at hcall

/-- The rest of the fields do not matter. -/
theorem Collected.of_eq {pending : List TurnBlock} (h : Collected s pending)
    (hscript : t.script = s.script) (hout : t.stdout = s.stdout)
    (hblocks : t.assistantBlocks = s.assistantBlocks) : Collected t pending := by
  rw [Collected]
  rw [hscript, hout, hblocks]
  exact h

/-- A block is kept. -/
theorem collected_keep {block : TurnBlock} {pending : List TurnBlock}
    (h : Collected s (block :: pending)) (hscript : t.script = s.script)
    (hout : t.stdout = s.stdout) (hblocks : t.assistantBlocks = s.assistantBlocks ++ [block]) :
    Collected t pending := by
  rw [Collected]
  rw [hscript, hout, hblocks, List.append_assoc]
  exact h

/-- A line is read, of a turn that reads on. -/
theorem kept_read {line : Line} {stdout : List Line} (hs : Kept s) (hpc : s.pc = .consuming [])
    (hout : s.stdout = line :: stdout) (hidle : line = .malformed → s.Idle) :
    Kept ({ s with stdout := stdout }.read line) := by
  obtain ⟨hgoing, hrows, hpending, hcollected⟩ := kept_at hs hpc (by simp)
  have hquiet : (∀ m, callsOf m [line] = []) → Collected { s with stdout := stdout } [] :=
    collected_quiet hcollected hout
  cases line with
  | skipped =>
    rw [Kept, CliTurn.read]
    simp only [hpc]
    exact ⟨hgoing, hrows, hpending, hquiet fun m => rfl⟩
  | malformed =>
    obtain ⟨huntouched, hchild, haborted⟩ := hidle rfl
    exact kept_raise (s := { s with stdout := stdout }) ⟨huntouched, hchild, haborted⟩ rfl (by simp)
  | event e =>
    simp only [CliTurn.read]
    split
    case isTrue hcut =>
      refine ⟨hgoing, hrows, ?_⟩
      refine (hquiet fun m => ?_).of_eq rfl rfl rfl
      cases e with
      | assistant id blocks => simp [CliEvent.readOn] at hcut
      | _ => rfl
    case isFalse =>
      have hevent := collected_event hcollected hout
      split
      case h_1 r =>
        rw [Kept]
        simp only [hpc]
        exact ⟨hgoing, hrows, hpending, (hquiet fun m => rfl).of_eq rfl rfl rfl⟩
      case h_2 =>
        exact ⟨hgoing, hrows, pending_event (announced_of_pending hpending) e,
          hevent.of_eq rfl rfl rfl⟩

/-- One thing is done. -/
theorem kept_perform {op : CliOp} {ops : List CliOp} (hs : Kept s)
    (hpc : s.pc = .consuming (op :: ops)) (sequence : Option ℕ) :
    Kept { s.perform cfg sequence op with pc := .consuming ops } := by
  obtain ⟨hgoing, hrows, hpending, hcollected⟩ := kept_at hs hpc (by simp)
  cases op with
  | stream op =>
    obtain ⟨hgoing', hpending'⟩ := going_run hgoing hpending sequence
    exact ⟨hgoing', (run_rows sequence op).trans hrows, hpending', hcollected.of_eq rfl rfl rfl⟩
  | keep m block =>
    exact ⟨hgoing, hrows, hpending, collected_keep hcollected rfl rfl rfl⟩

/-! #### Ending -/

theorem toCanonicalBlocks_cut (blocks : List TurnBlock) :
    toCanonicalBlocks cfg blocks ⟨"proposal", false, none, none, []⟩ =
      blocks.filterMap canonicalBlock := by
  rw [toCanonicalBlocks]
  simp only [List.map_nil, List.append_nil, ite_self]
  split <;> simp_all

/-- A turn that was cut is judged by a result of its own. -/
theorem result_of_cut (hcut : s.cut = true) :
    s.result = some ⟨"proposal", false, none, none, []⟩ := by
  simp only [CliTurn.cut, Bool.and_eq_true, Option.isNone_iff_eq_none] at hcut
  simp [CliTurn.result, hcut.1, hcut.2]

theorem answered_judge (h : Collected s []) {r : ResultEvent} (hr : s.result = some r) :
    Answered s (toCanonicalBlocks cfg s.assistantBlocks r) := by
  intro hcut
  obtain ⟨read, hread, hcalls⟩ := h
  refine ⟨read, hread, fun m call hcall => ?_⟩
  obtain rfl := Option.some.inj (hr.symm.trans (result_of_cut hcut))
  rw [toCanonicalBlocks_cut]
  obtain ⟨block, hblock, hcanonical⟩ := hcalls m call hcall
  exact List.mem_filterMap.mpr ⟨block, by simpa using hblock, hcanonical⟩

/-- The child has been waited for. -/
theorem kept_judge (hs : Kept s) (hpc : s.pc = .exiting) (hchild : s.child ≠ .running)
    (hclean : Clean cfg s .reap) : Kept { s with pc := s.judge cfg } := by
  obtain ⟨hgoing, hrows, hcollected⟩ := kept_at hs hpc (by simp)
  rw [CliTurn.judge]
  split
  case isTrue => exact ⟨hgoing, hrows, hchild, .inl rfl⟩
  case isFalse haborted =>
    rw [Bool.not_eq_true] at haborted
    split
    case h_1 => exact ⟨hgoing, hrows, hchild, haborted⟩
    case h_2 r hr =>
      dsimp only
      split
      case isTrue hfails => exact kept_raise (hclean hpc haborted r hr (.inl hfails)) rfl (by simp)
      case isFalse =>
        split
        case isTrue hempty =>
          exact kept_raise (hclean hpc haborted r hr (.inr hempty)) rfl (by simp)
        case isFalse => exact ⟨hgoing, hrows, hchild, haborted, answered_judge hcollected hr⟩

theorem kept_savePartial (hs : Kept s) {e : Ending} (hpc : s.pc = .savingPartial e) :
    Kept { s with turn := s.turn.savePartial, pc := .deletingKeys e } := by
  obtain ⟨hgoing, hrows, hchild, he⟩ := kept_at hs hpc (by simp)
  rcases savePartial_row hrows with ⟨hsilent, hsame⟩ | ⟨hsilent, row, hrow, hpart, htext⟩
  · rw [hsame]
    exact ⟨hgoing, .inl ⟨hrows, hsilent⟩, hchild, he⟩
  · rw [hrow]
    exact ⟨going_rows hgoing _,
      .inr ⟨hsilent, row, rfl, hpart, htext⟩, hchild, he⟩

/-- The keys go, and the exception with them. -/
theorem kept_deleteKeys (hs : Kept s) {e : Ending} (hpc : s.pc = .deletingKeys e)
    (haborted : e = .timedOut → s.aborted = false) :
    Kept { s with turn := s.turn.deleteKeys, pc := .ended e } := by
  obtain ⟨-, hrow, hchild, he⟩ := kept_at hs hpc (by simp)
  refine ⟨⟨deleteKeys_cleared, ?_⟩, hchild, fun habort => ?_, fun blocks heq => ?_⟩
  · have hdue : (s.turn.rows = [] ∧ s.turn.Silent) ∨ ∃ row, s.turn.rows = [row] ∧
        row.isPartial = true ∧ row.text = s.turn.text := hrow.imp_right fun h => h.2
    rcases he with rfl | rfl <;> exact hdue
  · rcases he with he | he
    · exact he
    · have hnot : s.aborted = false := haborted he
      rw [show s.aborted = true from habort] at hnot
      cases hnot
  · rcases he with rfl | rfl <;> cases heq

/-- The final row is there: the turn returns. -/
theorem kept_close (hs : Kept s) {blocks : List TurnBlock} (hpc : s.pc = .closing blocks)
    (hrest : s.cut = true → ∀ m ∈ s.proposing, ∀ call ∈ callsOf m s.stdout, call ∈ blocks) :
    Kept { s with turn := s.turn.deleteKeys, pc := .ended (.returned blocks) } := by
  obtain ⟨-, hrow, hchild, haborted, hanswered⟩ := kept_at hs hpc (by simp)
  refine ⟨⟨deleteKeys_cleared, hrow⟩, hchild, fun habort => ?_, fun blocks' heq hcut m hm call => ?_⟩
  · rw [show s.aborted = true from habort] at haborted
    cases haborted
  · cases heq
    intro hcall
    obtain ⟨read, hread, hcalls⟩ := hanswered hcut
    have hcall' : call ∈ callsOf m (read ++ s.stdout) := hread ▸ hcall
    rw [callsOf_append] at hcall'
    rcases List.mem_append.mp hcall' with hcall' | hcall'
    · exact hcalls m call hcall'
    · exact hrest hcut m hm call hcall'

/-! ### One step, and a run -/

/-- The watcher, the child and the clock leave the turn itself alone. -/
theorem kept_child (hs : Kept s) {child : Child} {aborted : Bool}
    (hchild : s.child ≠ .running → child ≠ .running)
    (haborted : aborted = s.aborted ∨ s.pc.watched = true) (hnot : ∀ e, s.pc ≠ .ended e) :
    Kept { s with child := child, aborted := aborted } := by
  obtain ⟨hgoing, hat⟩ := kept_at hs rfl hnot
  rw [Kept]
  cases hpc : s.pc with
  | ended e => exact absurd hpc (hnot e)
  | feeding | consuming ops | cutting | exiting | timedOut =>
    simp only
    rw [hpc] at hat
    exact ⟨hgoing, hat⟩
  | savingPartial e | deletingKeys e =>
    simp only
    rw [hpc] at hat
    exact ⟨hgoing, hat.1, hchild hat.2.1, hat.2.2⟩
  | readingStderr | saving blocks | completing blocks | closing blocks =>
    have hsame : aborted = s.aborted := haborted.resolve_right (by simp [hpc, Pc.watched])
    simp only
    rw [hpc] at hat
    rw [hsame]
    exact ⟨hgoing, hat.1, hchild hat.2.1, hat.2.2⟩

theorem kill_ne_running (child : Child) : child.kill ≠ .running := by
  cases child <;> simp [Child.kill]

/-- A clean step keeps the invariant. -/
theorem kept_step (s : CliTurn) (a : Action) (t : CliTurn) (hs : Kept s) (hclean : Clean cfg s a)
    (h : cliStep cfg s a = some t) : Kept t := by
  cases cliStep_cases h with
  | drained hpc =>
    obtain ⟨hgoing, hfresh, hcollected⟩ := kept_at hs hpc (by simp)
    refine ⟨hgoing, by rw [hfresh]; rfl, pending_nil fun hstarted => ?_, hcollected⟩
    simp [hfresh, Streamed.fresh] at hstarted
  | drainFailed => exact kept_raise hclean rfl (by simp)
  | readLine line stdout hpc hout =>
    refine kept_read hs hpc hout fun hline => hclean ?_
    rw [hout, hline]
    rfl
  | readTail => exact kept_raise hclean rfl (by simp)
  | run sequence op ops hpc => exact kept_perform hs hpc sequence
  | endOfFile hpc =>
    obtain ⟨hgoing, hrows, -, hcollected⟩ := kept_at hs hpc (by simp)
    exact ⟨hgoing, hrows, hcollected⟩
  | killed hpc =>
    obtain ⟨hgoing, hrows, hcollected⟩ := kept_at hs hpc (by simp)
    exact ⟨hgoing, hrows, hcollected⟩
  | killFailed => exact kept_raise hclean rfl (by simp)
  | timedOut ops hpc =>
    obtain ⟨hgoing, hrows, -⟩ := kept_at hs hpc (by simp)
    exact ⟨hgoing, hrows⟩
  | timeoutFailed => exact kept_raise hclean rfl (by simp)
  | judged hpc hchild => exact kept_judge hs hpc hchild hclean
  | reaped hpc hchild =>
    obtain ⟨hgoing, hrows⟩ := kept_at hs hpc (by simp)
    exact ⟨hgoing, hrows, hchild, .inr rfl⟩
  | savePartial e hpc => exact kept_savePartial hs hpc
  | deleteKeys e hpc => exact kept_deleteKeys hs hpc fun he => hclean.1 (he ▸ hpc)
  | closed blocks hpc => exact kept_close hs hpc (hclean.2 blocks hpc)
  | readStderr => exact kept_raise hclean rfl (by simp)
  | saved blocks turn hpc hsave =>
    obtain ⟨hgoing, hrows, hchild, haborted, hanswered⟩ := kept_at hs hpc (by simp)
    rw [Streamed.saveMessage, if_pos hrows] at hsave
    obtain rfl := Option.some.inj hsave
    exact ⟨going_rows hgoing _, ⟨_, rfl, rfl, rfl⟩, hchild, haborted, hanswered⟩
  | unsaved blocks hpc hsave =>
    -- the turn has no row, so its own is not refused
    obtain ⟨-, hrows, -⟩ := kept_at hs hpc (by simp)
    rw [Streamed.saveMessage, if_pos hrows] at hsave
    cases hsave
  | completed blocks hpc =>
    obtain ⟨hgoing, hrow⟩ := kept_at hs hpc (by simp)
    exact ⟨hgoing, hrow⟩
  | observeAbort hwatched =>
    refine kept_child hs (fun _ => kill_ne_running _) (.inr hwatched) fun e he => ?_
    simp [he, Pc.watched] at hwatched
  | childExits hchild =>
    refine kept_child hs (fun _ => by simp) (.inl rfl) fun e he => ?_
    rw [Kept] at hs
    rw [he] at hs
    exact hs.child hchild
  | cancel => exact kept_raise hclean rfl (by simp)

/-- What the invariant says of a turn, as the law has it. -/
theorem lawful_of_kept {a : Action} (ht : Kept t) : Lawful s a t := by
  cases hpc : t.pc with
  | ended e =>
    rw [Kept] at ht
    rw [hpc] at ht
    refine ⟨ht.settled.length_le, fun e' he' => ?_⟩
    rw [hpc] at he'
    cases he'
    exact ht
  | feeding =>
    obtain ⟨-, hfresh, -⟩ := kept_at ht hpc (by simp)
    exact ⟨by simp [hfresh, Streamed.fresh], by simp [hpc]⟩
  | consuming ops | cutting | exiting | savingPartial e | readingStderr | saving blocks =>
    obtain ⟨-, hrows, -⟩ := kept_at ht hpc (by simp)
    exact ⟨by simp [hrows], by simp [hpc]⟩
  | timedOut =>
    obtain ⟨-, hrows⟩ := kept_at ht hpc (by simp)
    exact ⟨by rw [hrows]; simp, by simp [hpc]⟩
  | deletingKeys e =>
    obtain ⟨-, hrow, -⟩ := kept_at ht hpc (by simp)
    refine ⟨?_, by simp [hpc]⟩
    rcases hrow with ⟨hrow, -⟩ | ⟨-, row, hrow, -⟩ <;> simp [hrow]
  | completing blocks | closing blocks =>
    obtain ⟨-, ⟨row, hrow, -⟩, -⟩ := kept_at ht hpc (by simp)
    exact ⟨by simp [hrow], by simp [hpc]⟩

/-- A turn that was cancelled is finished only if it was idle. -/
theorem idle_of_cancelled (hs : Kept s) (hnot : ∀ e, s.pc ≠ .ended e)
    (h : Finished { s with pc := .ended .cancelled } .cancelled) : s.Idle := by
  obtain ⟨hgoing, hat⟩ := kept_at hs rfl hnot
  have hsettled : s.turn.Settled none := h.settled
  have hrows : s.turn.rows = [] ∨ (¬ s.turn.Silent) ∨
      ∃ row, s.turn.rows = [row] ∧ row.isPartial = false := by
    cases hpc : s.pc with
    | ended e => exact absurd hpc (hnot e)
    | feeding =>
      rw [hpc] at hat
      exact .inl (by rw [hat.1]; rfl)
    | consuming ops | cutting | exiting | savingPartial e | readingStderr | saving blocks =>
      rw [hpc] at hat
      exact .inl hat.1
    | timedOut =>
      rw [hpc] at hat
      exact .inl hat
    | deletingKeys e =>
      rw [hpc] at hat
      rcases hat.1 with ⟨hrow, -⟩ | ⟨hsilent, -⟩
      · exact .inl hrow
      · exact .inr (.inl hsilent)
    | completing blocks | closing blocks =>
      rw [hpc] at hat
      obtain ⟨row, hrow, hfinal, -⟩ := hat.1
      exact .inr (.inr ⟨row, hrow, hfinal⟩)
  exact (finished_iff_idle (rows_of_settled hgoing hsettled hrows) rfl (by simp)).mp h

/-- A step that leaves the turn as the law has it is clean. -/
theorem clean_of_lawful {a : Action} (hs : Kept s) (h : cliStep cfg s a = some t)
    (hlawful : Lawful s a t) : Clean cfg s a := by
  have hraise : ∀ {u : CliTurn} {e : Ending}, t = { u with pc := .ended e } → u.turn.rows = [] →
      e.returns = none → e ≠ .aborted → u.Idle := by
    rintro u e rfl hrows hreturns he
    exact (finished_iff_idle hrows hreturns he).mp (hlawful.finished e rfl)
  cases cliStep_cases h with
  | drainFailed hpc =>
    obtain ⟨-, hfresh, -⟩ := kept_at hs hpc (by simp)
    exact hraise rfl (by rw [hfresh]; rfl) rfl (by simp)
  | readLine line stdout hpc hout =>
    intro hline
    obtain ⟨-, hrows, -⟩ := kept_at hs hpc (by simp)
    obtain rfl : line = .malformed := by simpa [hout] using hline
    have hidle : ({ s with stdout := stdout } : CliTurn).Idle := hraise rfl hrows rfl (by simp)
    exact ⟨hidle.untouched, hidle.child, hidle.aborted⟩
  | readTail hpc =>
    obtain ⟨-, hrows, -⟩ := kept_at hs hpc (by simp)
    exact hraise rfl hrows rfl (by simp)
  | killFailed hpc =>
    obtain ⟨-, hrows, -⟩ := kept_at hs hpc (by simp)
    exact hraise rfl hrows rfl (by simp)
  | timeoutFailed ops hpc =>
    obtain ⟨-, hrows, -⟩ := kept_at hs hpc (by simp)
    exact hraise rfl hrows rfl (by simp)
  | judged hpc =>
    intro _ haborted r hr hends
    obtain ⟨-, hrows, -⟩ := kept_at hs hpc (by simp)
    obtain ⟨e, hjudge, hreturns, he⟩ :
        ∃ e, s.judge cfg = .ended e ∧ e.returns = none ∧ e ≠ .aborted := by
      rw [CliTurn.judge]
      rw [if_neg (by simp [haborted]), hr]
      dsimp only
      by_cases hfails : r.fails = true
      · exact ⟨.errored, by rw [if_pos hfails], rfl, by simp⟩
      · exact ⟨.empty, by rw [if_neg hfails, if_pos (hends.resolve_left hfails)], rfl, by simp⟩
    exact hraise (by rw [hjudge]) hrows hreturns he
  | reaped hpc =>
    intro hexiting
    rw [hpc] at hexiting
    cases hexiting
  | deleteKeys e hpc =>
    constructor
    · intro htimedOut
      obtain rfl : e = .timedOut := Pc.deletingKeys.inj (hpc.symm.trans htimedOut)
      rw [← Bool.not_eq_true]
      intro haborted
      cases (hlawful.finished .timedOut rfl).aborted haborted
    · intro blocks hclosing
      rw [hpc] at hclosing
      cases hclosing
  | closed blocks hpc =>
    constructor
    · intro htimedOut
      rw [hpc] at htimedOut
      cases htimedOut
    · intro blocks' hclosing hcut m hm call hcall
      obtain rfl : blocks = blocks' := Pc.closing.inj (hpc.symm.trans hclosing)
      obtain ⟨-, -, -, -, hanswered⟩ := kept_at hs hpc (by simp)
      obtain ⟨read, hread, -⟩ := hanswered hcut
      refine (hlawful.finished (.returned blocks) rfl).calls blocks rfl hcut m hm call ?_
      change call ∈ callsOf m s.script
      rw [hread, callsOf_append]
      exact List.mem_append_right _ hcall
  | readStderr hpc =>
    obtain ⟨-, hrows, -⟩ := kept_at hs hpc (by simp)
    exact hraise rfl hrows rfl (by simp)
  | cancel hawaits =>
    refine idle_of_cancelled hs (fun e he => ?_) (hlawful.finished .cancelled rfl)
    simp [he, Pc.awaits] at hawaits
  | _ => trivial

end

/-- EXACT CONDITION: whatever a child writes and however it ends, a turn is stored, cleaned up and
    answered as the law has it just when each of its steps is clean. -/
theorem cliTurn_run_iff (cfg : Setup) (script : List Line) (as : List Action) :
    EveryStep (cliStep cfg) Lawful (.spawned script) as ↔
      Guarded (cliStep cfg) (Clean cfg) (.spawned script) as :=
  everyStep_iff_guarded kept_step
    (fun _ _ _ hs h =>
      ⟨clean_of_lawful hs h, fun hclean => lawful_of_kept (kept_step _ _ _ hs hclean h)⟩)
    (kept_spawned script)

/-! ### An exit without a result -/

/-- The child writes some text and dies. -/
def diedMidway : List Action :=
  [.drained, .readLine, .run (some 1), .run none, .run none, .run none, .run none, .run none,
    .childExits, .endOfFile, .reap]

/-- The text shown is in no row, and the turn's keys stay. -/
theorem text_lost_without_result :
    ¬ EveryStep (cliStep ⟨false, false, false⟩) Lawful (.spawned [.event (.delta .text "Half")])
      (diedMidway ++ [.readStderr]) := by
  intro h
  have hstep := EveryStep.at h
    (rfl : runFrom (cliStep ⟨false, false, false⟩) _ diedMidway = some _) rfl
  have hcleared := (hstep.finished .noResult rfl).settled.cleared
  cases hcleared.1

end LunaCore.Providers.ClaudeCli
