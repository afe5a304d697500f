import LunaCore.Engine.Terminal

/-! Does a handler that reports a failure ever end the agent's turn?

        handler ── raises ───────────────→ text of the exception       is_error
                ├─ {"error": …} ─────────→ text of the error           is_error
                ├─ {"error": …, …} ──────→ the object as JSON          taken for a success
                └─ anything else ────────→ its text, or as JSON

    The conversation runs as before; what a call of a system tool gives back is what
    `_invoke_system_tool` makes of its handler. -/

namespace LunaCore.Engine
open LunaCore.Values LunaCore.Chat LunaCore.Schemes

/-- What a handler did. -/
inductive HandlerOutcome where
  | returned (result : Json)
  | runtimeError (text : String)
  | exception (type text : String)

/-- The handler reported a failure: it raised, or returned an object with an `error` key. -/
def HandlerOutcome.failed : HandlerOutcome → Bool
  | .returned (.obj fields) => decide ("error" ∈ fields.map Prod.fst)
  | .returned _ => false
  | .runtimeError _ => true
  | .exception .. => true

/-- The standard library's `json.loads`, `json.dumps` and `str`. -/
structure Codec where
  loads : String → Option Json
  dumps : Json → String
  str : Json → String

variable (codec : Codec)

/-- `_invoke_system_tool`, of what the handler did. -/
def invokeSystemTool : HandlerOutcome → ToolOutcome
  | .runtimeError text => .raised text
  | .exception type text => .result (type ++ ": " ++ text) true
  | .returned (.obj fields) =>
    if "error" ∈ fields.map Prod.fst ∧ fields.length = 1 then
      .result (codec.str ((Dict.get fields "error").getD .null)) true
    else .result (codec.dumps (.obj fields)) false
  | .returned (.str text) => .result text false
  | .returned result => .result (codec.dumps result) false

/-- `_EDITED_NOTE`. -/
def editedNote : String :=
  "The user changed this call before approving it: it ran with `ran_with`, not with what you " ++
  "proposed. That is their decision — say what was recorded with their change and go on from " ++
  "it; never undo it, propose yours again or call it an error."

/-- `_note_edited`. -/
def noteEdited (content : String) (toolInput : Dict) : String :=
  match codec.loads content with
  | some (.obj parsed) => codec.dumps (.obj (Dict.set parsed "edited_by_user"
      (.obj [("ran_with", .obj toolInput), ("note", .str editedNote)])))
  | _ => editedNote ++ "\nran_with: " ++ codec.dumps (.obj toolInput) ++ "\n" ++ content

/-- What the runner makes of a call's outcome: a result says that the user edited the call. -/
def ToolOutcome.noted (outcome : ToolOutcome) (edited : Option Dict) : ToolOutcome :=
  match outcome, edited with
  | .result content isError, some toolInput =>
    .result (noteEdited codec content toolInput) isError
  | _, _ => outcome

/-- A conversation's turn, with the inputs of the terminal tool that last succeeded among the calls
    at work: a ghost, by what the handlers did. -/
structure Handled where
  logical : Logical
  succeeded : Option Dict

inductive HandledAction where
  | session (a : SessionAction)
  -- the handler of the system tool that is called next is done
  | handle (outcome : HandlerOutcome)

/-- A call that is about to run, of a system tool. -/
structure SystemCall where
  turn : Turn
  use : ToolUse
  tool : SystemTool

/-- The system tool the turn at work calls next, unless the call was rejected. -/
def Session.systemCall (s : Session) : Option SystemCall :=
  s.turn.bind fun t => match t.pc with
    | .executing ((_, use) :: _) _ _ => match dispatcherOf t.setup.systemByName use.name with
      | .system tool => if rejects (t.decision use) then none else some ⟨t, use, tool⟩
      | .mcp => none
    | _ => none

/-- The decision taken on the call. -/
def SystemCall.decision (call : SystemCall) : Option ToolApproval := call.turn.decision call.use

/-- A new batch of calls begins. -/
def SessionAction.beginsBatch : SessionAction → Bool
  | .work (.reply _) => true
  | .work .takeDecisions => true
  | _ => false

/-- An outcome of a tool that no handler decides. -/
def SessionAction.isRunTool : SessionAction → Bool
  | .work (.runTool _) => true
  | _ => false

def handledStep (s : Handled) : HandledAction → Option Handled
  | .session a =>
    if a.isRunTool ∧ s.logical.session.systemCall.isSome then none
    else (logicalStep s.logical a).map fun l =>
      ⟨l, if a.beginsBatch then none else s.succeeded⟩
  | .handle outcome => s.logical.session.systemCall.bind fun call =>
    (logicalStep s.logical (.work (.runTool
        ((invokeSystemTool codec outcome).noted codec (edited call.decision call.use))))).map
      fun l => ⟨l, if call.tool.terminal && !outcome.failed then
        some (effectiveInput call.decision call.use) else s.succeeded⟩

def Handled.created : Handled := ⟨.created, none⟩

/-- A result is marked an error just when its handler reported a failure, and a failed call leaves
    the terminal value alone. Once the calls of `run` are done, the turn ends just when a terminal
    tool among them succeeded, and returns that tool's inputs; `resume` returns none. -/
def Honest (s : Handled) (a : HandledAction) (s' : Handled) : Prop :=
  match a with
  | .handle (.runtimeError _) => True
  | .handle outcome => ∀ call ∈ s.logical.session.systemCall,
      (∃ t ∈ s'.logical.session.turn, ∃ content, t.results = call.turn.results ++
        [.toolResult call.use.id content outcome.failed]) ∧
      (outcome.failed = true → s'.logical.terminal = s.logical.terminal)
  | .session (.work .saveResults) => ∀ t ∈ s.logical.session.turn,
      (t.decisions = none → (s'.logical.session.turn = none ↔ s.succeeded.isSome) ∧
        s'.logical.returned = s.succeeded) ∧
      (t.decisions.isSome → s'.logical.returned = none)
  | .session _ => True

/-- What a handler returns has no `error` key beside others. -/
def Plain (_ : Handled) (a : HandledAction) : Prop :=
  match a with
  | .handle (.returned (.obj fields)) => "error" ∈ fields.map Prod.fst → fields.length = 1
  | _ => True

/-- The terminal value of the calls at work is that of the tool that succeeded. -/
def TerminalKept (s : Handled) : Prop :=
  Counted s.logical ∧ ∀ t ∈ s.logical.session.turn, ∀ pending results terminal,
    t.pc = .executing pending results terminal → s.logical.terminal = s.succeeded

theorem terminalKept_created : TerminalKept .created :=
  ⟨counted_created, by simp [Handled.created, Logical.created, Session.created, Session.turn]⟩

/-! ### One call -/

theorem noted_result (content : String) (isError : Bool) (edited : Option Dict) :
    ∃ content', (ToolOutcome.result content isError).noted codec edited =
      .result content' isError := by
  cases edited with
  | none => exact ⟨content, rfl⟩
  | some toolInput => exact ⟨noteEdited codec content toolInput, rfl⟩

/-- What `_invoke_system_tool` takes for a failure. -/
def HandlerOutcome.marked : HandlerOutcome → Bool
  | .returned (.obj fields) => decide ("error" ∈ fields.map Prod.fst ∧ fields.length = 1)
  | .returned _ => false
  | .runtimeError _ => true
  | .exception .. => true

theorem invoke_result {outcome : HandlerOutcome} (h : ∀ text, outcome ≠ .runtimeError text) :
    ∃ content, invokeSystemTool codec outcome = .result content outcome.marked := by
  cases outcome with
  | runtimeError text => exact absurd rfl (h text)
  | exception type text => exact ⟨_, rfl⟩
  | returned result =>
    cases result with
    | obj fields =>
      rw [invokeSystemTool, HandlerOutcome.marked]
      split
      · next hone => exact ⟨_, by rw [decide_eq_true hone]⟩
      · next hmany => exact ⟨_, by rw [decide_eq_false hmany]⟩
    | _ => exact ⟨_, rfl⟩

variable {codec}

/-- A failure is taken for one, unless it is an object that has more than its `error` key. -/
theorem marked_eq_failed_iff (outcome : HandlerOutcome) :
    outcome.marked = outcome.failed ↔ ∀ fields, outcome = .returned (.obj fields) →
      "error" ∈ fields.map Prod.fst → fields.length = 1 := by
  cases outcome with
  | runtimeError text => simp [HandlerOutcome.marked, HandlerOutcome.failed]
  | exception type text => simp [HandlerOutcome.marked, HandlerOutcome.failed]
  | returned result =>
    cases result with
    | obj fields =>
      simp only [HandlerOutcome.marked, HandlerOutcome.failed, decide_eq_decide,
        HandlerOutcome.returned.injEq, Json.obj.injEq, forall_eq']
      exact and_iff_left_iff_imp
    | _ => simp [HandlerOutcome.marked, HandlerOutcome.failed]

/-- Where the turn at work stands when it calls a system tool next. -/
theorem systemCall_eq_some {s : Session} {call : SystemCall} (h : s.systemCall = some call) :
    ∃ record path id rest results terminal, s = ⟨record, some (.turn call.turn path)⟩ ∧
      call.turn.pc = .executing ((id, call.use) :: rest) results terminal ∧
      dispatcherOf call.turn.setup.systemByName call.use.name = .system call.tool ∧
      rejects call.decision = false := by
  obtain ⟨record, request⟩ := s
  obtain ⟨t, ht, hcall⟩ := Option.bind_eq_some_iff.mp h
  clear h
  obtain ⟨path, rfl⟩ : ∃ path, request = some (.turn t path) := by
    cases request with
    | none => cases ht
    | some r => cases r with
      | turn turn path => exact ⟨path, by cases ht; rfl⟩
      | _ => cases ht
  split at hcall
  · next id use rest results terminal hpc =>
    split at hcall
    · next tool hdispatcher =>
      split at hcall
      · cases hcall
      · next hrejects =>
        obtain rfl := Option.some.inj hcall
        exact ⟨record, path, id, rest, results, terminal, rfl, hpc, hdispatcher,
          Bool.eq_false_iff.mpr hrejects⟩
    · cases hcall
  · cases hcall

/-- A system tool's result: it joins the turn's results, and a terminal tool's inputs become the
    terminal value unless the result is an error. -/
theorem runTool_handled {l : Logical} {call : SystemCall} (h : l.session.systemCall = some call)
    (content : String) (isError : Bool) :
    ∃ l' t', logicalStep l (.work (.runTool (.result content isError))) = some l' ∧
      l'.session.turn = some t' ∧
      t'.results = call.turn.results ++ [.toolResult call.use.id content isError] ∧
      l'.terminal = if call.tool.terminal && !isError then
        some (effectiveInput call.decision call.use) else l.terminal := by
  obtain ⟨session, terminal, returned, made, carried⟩ := l
  obtain ⟨record, path, id, rest, results, flag, rfl, hpc, hdispatcher, hrejects⟩ :=
    systemCall_eq_some h
  have hran : runTool record call.turn id call.use rest results flag (.result content isError) =
      ({ record with dispatched := record.dispatched ++ [⟨id, call.use.name,
          effectiveInput call.decision call.use, .system call.tool⟩] },
        .inl { call.turn with
          pc := .executing rest (results ++ [.toolResult call.use.id content isError])
            (flag || endsTurn (.system call.tool) isError) }) := by
    rw [SystemCall.decision] at hrejects
    rw [runTool, hdispatcher, SystemCall.decision]
    simp [hrejects]
  have hstep : turnStep record call.turn (.runTool (.result content isError)) =
      some (runTool record call.turn id call.use rest results flag (.result content isError)) := by
    rw [turnStep, hpc]
  have hvalue : call.turn.terminalValue terminal isError =
      if call.tool.terminal && !isError then some (effectiveInput call.decision call.use)
      else terminal := by
    rw [SystemCall.decision] at hrejects
    simp [Turn.terminalValue, hpc, hdispatcher, hrejects, endsTurn, SystemCall.decision]
  rw [hran] at hstep
  simp only [logicalStep, sessionStep, hstep, Option.map_some]
  refine ⟨_, _, rfl, rfl, ?_, ?_⟩
  · simp [Turn.results, hpc]
  · exact hvalue

/-- What a handler lets through ends the turn. -/
theorem runTool_raised {l : Logical} {call : SystemCall} (h : l.session.systemCall = some call)
    (error : String) :
    ∃ l', logicalStep l (.work (.runTool (.raised error))) = some l' ∧ l'.session.turn = none := by
  obtain ⟨session, terminal, returned, made, carried⟩ := l
  obtain ⟨record, path, id, rest, results, flag, rfl, hpc, -, hrejects⟩ := systemCall_eq_some h
  have hstep : turnStep record call.turn (.runTool (.raised error)) =
      some (runTool record call.turn id call.use rest results flag (.raised error)) := by
    rw [turnStep, hpc]
  have hended : (runTool record call.turn id call.use rest results flag (.raised error)).2 =
      .inr (.raised error) := by
    rw [SystemCall.decision] at hrejects
    simp [runTool, hrejects]
  simp only [logicalStep, sessionStep, hstep, Option.map_some]
  refine ⟨_, rfl, ?_⟩
  change (afterTurn path _).turn = none
  rw [turn_afterTurn, hended]
  rfl

/-- STEP: what a handler's outcome does, once it is no `RuntimeError`. -/
theorem handle_step {s s' : Handled} {outcome : HandlerOutcome}
    (hno : ∀ text, outcome ≠ .runtimeError text)
    (h : handledStep codec s (.handle outcome) = some s') :
    ∃ call t' content, s.logical.session.systemCall = some call ∧
      s'.logical.session.turn = some t' ∧
      t'.results = call.turn.results ++ [.toolResult call.use.id content outcome.marked] ∧
      s'.logical.terminal = (if call.tool.terminal && !outcome.marked then
        some (effectiveInput call.decision call.use) else s.logical.terminal) ∧
      s'.succeeded = (if call.tool.terminal && !outcome.failed then
        some (effectiveInput call.decision call.use) else s.succeeded) := by
  obtain ⟨call, hcall, hstep⟩ := Option.bind_eq_some_iff.mp h
  obtain ⟨l', hl, rfl⟩ := Option.map_eq_some_iff.mp hstep
  obtain ⟨content, hcontent⟩ := invoke_result codec hno
  obtain ⟨content', hnoted⟩ := noted_result codec content outcome.marked
    (edited call.decision call.use)
  rw [hcontent, hnoted] at hl
  obtain ⟨l'', t', hl', ht', hresults, hterminal⟩ :=
    runTool_handled hcall content' outcome.marked
  obtain rfl := Option.some.inj (hl.symm.trans hl')
  exact ⟨call, t', content', hcall, ht', hresults, hterminal, rfl⟩

/-! ### The invariant -/

/-- A call that no handler decides leaves the terminal value alone. -/
theorem terminalValue_of_no_systemCall {record : Record} {t : Turn} {path : Path}
    (h : (⟨record, some (.turn t path)⟩ : Session).systemCall = none) (terminal : Option Dict)
    (isError : Bool) : t.terminalValue terminal isError = terminal := by
  rw [Turn.terminalValue]
  split
  · next id use rest results flag hpc =>
    cases hrejects : rejects (t.decision use) with
    | true => simp
    | false =>
      cases hdispatcher : dispatcherOf t.setup.systemByName use.name with
      | mcp => simp [endsTurn]
      | system tool =>
        simp [Session.systemCall, Session.turn, hpc, hdispatcher, hrejects] at h
  · rfl

/-- A step of the turn's own that leaves it among its calls: the batch begins, or one more call is
    done that no handler decides. -/
theorem executing_turnStep {record : Record} {t : Turn} {a : TurnAction} {after : After}
    {t' : Turn} {pending : List (CallId × ToolUse)} {results : List Block}
    {flag : Bool} (h : turnStep record t a = some after) (ht' : t' ∈ after.2.getLeft?)
    (hpc' : t'.pc = .executing pending results flag) :
    (SessionAction.work a).beginsBatch = true ∨
      ∃ outcome call use rest results flag, a = .runTool outcome ∧
        t.pc = .executing ((call, use) :: rest) results flag := by
  cases turnStep_cases h with
  | called => exact .inl rfl
  | resumed => exact .inl rfl
  | rejected hpc hrejects => exact .inr ⟨_, _, _, _, _, _, rfl, hpc⟩
  | ran hpc hrejects hnext => exact .inr ⟨_, _, _, _, _, _, rfl, hpc⟩
  | userSaved hpc =>
    obtain rfl := Option.some.inj ht'
    cases hpc'
  | nothingToSave hpc =>
    obtain rfl := Option.some.inj ht'
    cases hpc'
  | worded hpc _ =>
    obtain rfl := Option.some.inj ht'
    cases hpc'
  | resultsSaved hpc hnext =>
    rcases hnext with rfl | ⟨setup, iteration, rfl⟩
    · cases ht'
    · obtain rfl := Option.some.inj ht'
      cases hpc'
  | answered | interrupted | exceeded | suspended | refused | notResumed | failed => cases ht'

/-- STEP: what is not a handler's doing keeps the terminal value in step. -/
theorem terminalKept_session {s s' : Handled} {a : SessionAction} (hs : TerminalKept s)
    (h : handledStep codec s (.session a) = some s') : TerminalKept s' := by
  rw [handledStep] at h
  split at h
  · cases h
  · next hno =>
    obtain ⟨l', hl, rfl⟩ := Option.map_eq_some_iff.mp h
    refine ⟨counted_step _ _ _ hs.1 hl, ?_⟩
    obtain ⟨⟨session, terminal, returned, made, carried⟩, succeeded⟩ := s
    obtain ⟨session', hsession, rfl⟩ := Option.map_eq_some_iff.mp hl
    intro t' ht' pending results flag hpc'
    cases sessionStep_cases hsession with
    | sent | handedOff | resumes =>
      obtain rfl : _ = t' := Option.some.inj ht'
      cases hpc'
    | finalized | responded | decided | waits | lost => cases ht'
    | @worked record t path a after hafter =>
      have hturn : t' ∈ after.2.getLeft? := by
        rw [← turn_afterTurn path after]
        cases a with
        | runTool outcome => cases outcome <;> exact ht'
        | _ => exact ht'
      rcases executing_turnStep hafter hturn hpc' with hbegins |
        ⟨outcome, call, use, rest, before, flag', rfl, hpc⟩
      · rw [if_pos hbegins]
        cases a with
        | reply blocks => rfl
        | takeDecisions => rfl
        | _ => cases hbegins
      · have hcall : (⟨record, some (.turn t path)⟩ : Session).systemCall = none := by
          by_contra hsome
          exact hno ⟨rfl, Option.isSome_iff_ne_none.mpr hsome⟩
        have hterminal := hs.2 t rfl _ _ _ hpc
        cases outcome with
        | raised error => exact hterminal
        | result content isError =>
          exact (terminalValue_of_no_systemCall hcall terminal isError).trans hterminal

/-- A failure is taken for one in every step that meets the condition. -/
theorem plain_iff (s : Handled) (outcome : HandlerOutcome) :
    Plain s (.handle outcome) ↔ outcome.marked = outcome.failed := by
  rw [marked_eq_failed_iff]
  cases outcome with
  | returned result => cases result <;> simp [Plain]
  | _ => simp [Plain]

/-- STEP: a handler's result keeps the terminal value in step, where it is marked as it is. -/
theorem terminalKept_handle {s s' : Handled} {outcome : HandlerOutcome} (hs : TerminalKept s)
    (hplain : Plain s (.handle outcome)) (h : handledStep codec s (.handle outcome) = some s') :
    TerminalKept s' := by
  obtain ⟨call, hcall, hstep⟩ := Option.bind_eq_some_iff.mp h
  obtain ⟨l', hl, heq⟩ := Option.map_eq_some_iff.mp hstep
  have hlogical : s'.logical = l' := heq ▸ rfl
  refine ⟨hlogical ▸ counted_step _ _ _ hs.1 hl, ?_⟩
  by_cases hraise : ∃ text, outcome = .runtimeError text
  · obtain ⟨text, rfl⟩ := hraise
    obtain ⟨l'', hl', hturn⟩ := runTool_raised hcall text
    have hsame : l' = l'' := Option.some.inj (hl.symm.trans hl')
    intro t ht
    rw [hlogical, hsame, hturn] at ht
    cases ht
  · obtain ⟨call', t', content, hcall', -, -, hterminal, hsucceeded⟩ :=
      handle_step (fun text htext => hraise ⟨text, htext⟩) h
    obtain ⟨_, _, id, rest, results, flag, hsession, hpc, -, -⟩ := systemCall_eq_some hcall'
    have hbefore := hs.2 call'.turn (by rw [hsession]; rfl) _ _ _ hpc
    intro t _ _ _ _ _
    rw [hterminal, hsucceeded, (plain_iff s outcome).mp hplain, hbefore]

/-! ### One step, and a run -/

/-- The calls are done: the turn ends as its flag says, which is what the terminal value says. -/
theorem saveResults_honest {s s' : Handled} (hs : TerminalKept s)
    (h : handledStep codec s (.session (.work .saveResults)) = some s') :
    Honest s (.session (.work .saveResults)) s' := by
  obtain ⟨l', hl, rfl⟩ := Option.map_eq_some_iff.mp h
  obtain ⟨⟨session, terminal, returned, made, carried⟩, succeeded⟩ := s
  obtain ⟨session', hsession, rfl⟩ := Option.map_eq_some_iff.mp hl
  intro t ht
  obtain ⟨record, request⟩ := session
  cases sessionStep_cases hsession with
  | @worked _ turn path _ after hafter =>
    obtain rfl : turn = t := Option.some.inj ht
    have hcounts := hs.1 turn rfl
    cases turnStep_cases hafter with
    | @resultsSaved results flag next hpc _ =>
      simp only [Counts, hpc] at hcounts
      have hsucceeded : terminal = succeeded := hs.2 turn rfl _ _ _ hpc
      have hnext : saveResults record turn results flag =
          (saveMessage record .user results false, next) := by
        simpa [turnStep, hpc] using hafter
      constructor
      · intro hnone
        refine ⟨?_, ?_⟩
        · change (afterTurn path (saveMessage record .user results false, next)).turn = none ↔ _
          rw [turn_afterTurn, ← hnext, ← hsucceeded, ← hcounts.1]
          cases flag <;> simp [saveResults, hnone]
        · change turn.returns terminal = succeeded
          rw [Turn.returns, hnone, hsucceeded]
      · intro hsome
        obtain ⟨decisions, hdecisions⟩ := Option.isSome_iff_exists.mp hsome
        change turn.returns terminal = none
        rw [Turn.returns, hdecisions]

theorem honest_iff (s : Handled) (a : HandledAction) (s' : Handled) (hs : TerminalKept s)
    (h : handledStep codec s a = some s') : Honest s a s' ↔ Plain s a := by
  cases a with
  | session a =>
    refine iff_of_true ?_ trivial
    cases a with
    | work a =>
      cases a with
      | saveResults => exact saveResults_honest hs h
      | _ => exact trivial
    | _ => exact trivial
  | handle outcome =>
    by_cases hraise : ∃ text, outcome = .runtimeError text
    · obtain ⟨text, rfl⟩ := hraise
      exact iff_of_true trivial trivial
    · obtain ⟨call, t', content, hcall, ht', hresults, hterminal, -⟩ :=
        handle_step (fun text htext => hraise ⟨text, htext⟩) h
      have hhonest : Honest s (.handle outcome) s' ↔
          (∃ content, t'.results = call.turn.results ++
            [.toolResult call.use.id content outcome.failed]) ∧
          (outcome.failed = true → s'.logical.terminal = s.logical.terminal) := by
        cases outcome with
        | runtimeError text => exact absurd ⟨text, rfl⟩ hraise
        | _ => simp [Honest, hcall, ht']
      rw [hhonest, plain_iff]
      constructor
      · rintro ⟨⟨other, hother⟩, -⟩
        have hlast := List.append_cancel_left (hresults.symm.trans hother)
        simp only [List.cons.injEq, Block.toolResult.injEq] at hlast
        exact hlast.1.2.2
      · intro hmarked
        refine ⟨⟨content, hmarked ▸ hresults⟩, fun hfailed => ?_⟩
        rw [hterminal, hmarked, hfailed]
        simp

/-- EXACT CONDITION: in every conversation, a system tool's result is an error just when its handler
    reported a failure, and only a terminal tool that succeeded ends a turn and has its inputs
    returned, just when no handler returns an object with an `error` key and further keys. -/
theorem honest_run_iff (as : List HandledAction) :
    EveryStep (handledStep codec) Honest .created as ↔
      Guarded (handledStep codec) Plain .created as := by
  refine everyStep_iff_guarded (fun s a s' hs hplain h => ?_) honest_iff terminalKept_created
  cases a with
  | session a => exact terminalKept_session hs h
  | handle outcome => exact terminalKept_handle hs hplain h

/-! ### A terminal tool that fails with details -/

/-- Ungated, so that its calls run at once. -/
def porter : Agent := ⟨"porter", [], [⟨"transfer_to_agent", false, false⟩]⟩

/-- The hand-over is called. -/
def calledTransfer : List HandledAction :=
  [.session (.send porter hall [.text "a doctor, please"] noCompaction),
    .session (.work .saveUser),
    .session (.work (.reply
      [.toolUse ⟨some "tc_0", "transfer_to_agent", [("agent", .str "doctor")]⟩]))]

def plainCodec : Codec := ⟨fun _ => none, fun _ => "json", fun _ => "text"⟩

/-- It fails, and says why: the failed call is taken for a success. -/
theorem failed_transfer_succeeds :
    ¬ EveryStep (handledStep plainCodec) Honest .created (calledTransfer ++
      [.handle (.returned (.obj [("error", .str "no such agent"), ("details", .arr [])]))]) := by
  intro h
  have hstep := EveryStep.at h
    (rfl : runFrom (handledStep plainCodec) .created calledTransfer = some _) rfl
  obtain ⟨⟨t, ht, content, hresults⟩, -⟩ := hstep _ rfl
  cases ht
  cases hresults

end LunaCore.Engine
