import LunaCore.Engine.AgentRunner

/-! Does an agent run only the tools it may use?

    The grants filter what is advertised and the map of system tools; a name outside that map is
    sent to the MCP server as it is. So a call is within the agent's tools when a system tool of the
    map answers it, and otherwise just when the MCP server lists its name and the grants allow it:
    nothing at the dispatch sees to that. -/

namespace LunaCore.Engine
open LunaCore.Values LunaCore.Chat LunaCore.Schemes

/-- A name is resolved when a system tool of the map bears it, or it is an allowed MCP tool. -/
theorem mem_resolved_iff (u : Setup) (name : String) :
    name ∈ u.resolved ↔
      (dispatcherOf u.systemByName name = .mcp → name ∈ u.box.mcpTools ∧ u.agent.allows name) := by
  constructor
  · intro hmem hmcp
    by_contra hnot
    -- it is not an allowed MCP tool, so a system tool of the map bears the name
    have hsystem : ∃ tool ∈ u.systemByName, tool.name = name := by
      simp only [Setup.resolved, resolveTools, List.map_append, List.map_map, List.mem_append,
        List.mem_map, Function.comp_apply, List.mem_filter] at hmem
      rcases hmem with (⟨tool, htool, rfl⟩ | ⟨tool, htool, rfl⟩) | ⟨mcp, hmcp', rfl⟩
      · exact ⟨tool, List.mem_append_left _ htool, rfl⟩
      · exact ⟨tool, List.mem_append_right _ (List.mem_filter.mpr htool), rfl⟩
      · exact absurd hmcp' hnot
    obtain ⟨tool, htool, hname⟩ := hsystem
    rw [dispatcherOf] at hmcp
    split at hmcp
    · cases hmcp
    case h_2 hnone =>
      have := List.find?_eq_none.mp hnone tool (List.mem_reverse.mpr htool)
      simp [hname] at this
  · intro h
    cases hd : dispatcherOf u.systemByName name with
    | system tool =>
      obtain ⟨hmem, rfl⟩ := dispatcherOf_system hd
      exact systemByName_advertised hmem
    | mcp =>
      obtain ⟨hlisted, hallowed⟩ := h hd
      simp only [Setup.resolved, resolveTools, List.map_append, List.map_map, List.mem_append,
        List.mem_map, Function.comp_apply, List.mem_filter]
      exact .inr ⟨name, ⟨hlisted, hallowed⟩, rfl⟩

/-- An `AgentRunner` on one turn: what it writes to, and the turn until it has ended. -/
structure RunnerState where
  record : Record
  turn : Option Turn

/-- One await of the runner. -/
def runnerStep (s : RunnerState) (a : TurnAction) : Option RunnerState :=
  s.turn.bind fun t => (turnStep s.record t a).map fun after => ⟨after.1, after.2.getLeft?⟩

/-- The calls the step dispatched. -/
def RunnerState.dispatchedSince (s t : RunnerState) : List Dispatch :=
  t.record.dispatched.drop s.record.dispatched.length

/-- Whatever the step dispatches, to a handler or to the MCP server, is among the tools resolved for
    the agent. -/
def Permitted (s : RunnerState) (_ : TurnAction) (t : RunnerState) : Prop :=
  ∀ turn ∈ s.turn, ∀ d ∈ s.dispatchedSince t, d.name ∈ turn.setup.resolved

/-- The call a turn has come to. -/
def Turn.current (t : Turn) : Option (CallId × ToolUse) :=
  match t.pc with
  | .executing (entry :: _) _ _ => some entry
  | _ => none

/-- The call a turn has come to was rejected, or a system tool of the agent answers it, or the MCP
    server lists its name and the grants allow it. -/
def Answered (t : Turn) (use : ToolUse) : Prop :=
  rejects (t.decision use) = true ∨
    (dispatcherOf t.setup.systemByName use.name = .mcp →
      use.name ∈ t.setup.box.mcpTools ∧ t.setup.agent.allows use.name)

/-- The runner runs no call but such. -/
def OnlyAnswered (s : RunnerState) (a : TurnAction) : Prop :=
  match a with
  | .runTool _ => ∀ turn ∈ s.turn, ∀ entry ∈ turn.current, Answered turn entry.2
  | _ => True

instance (s : RunnerState) (a : TurnAction) (t : RunnerState) : Decidable (Permitted s a t) :=
  inferInstanceAs (Decidable (∀ turn ∈ s.turn, ∀ d ∈ s.dispatchedSince t, _))

instance (t : Turn) (use : ToolUse) : Decidable (Answered t use) :=
  inferInstanceAs (Decidable (_ ∨ (_ → _ ∧ _)))

instance (s : RunnerState) : ∀ a, Decidable (OnlyAnswered s a)
  | .runTool _ => inferInstanceAs (Decidable (∀ turn ∈ s.turn, ∀ entry ∈ turn.current, _))
  | .saveUser | .reply _ | .interrupt .. | .exceed | .words _ | .suspend | .takeDecisions
  | .saveResults | .fail _ => isTrue trivial

/-- A step but the running of a call dispatches nothing. -/
theorem turnStep_dispatched {s : Record} {t : Turn} {a : TurnAction} {after : After}
    (h : turnStep s t a = some after) (ha : ∀ outcome, a ≠ .runTool outcome) :
    after.1.dispatched = s.dispatched := by
  cases turnStep_cases h with
  | rejected => exact absurd rfl (ha _)
  | ran => exact absurd rfl (ha _)
  | _ => rfl

/-- Running a call dispatches it, unless it was rejected. -/
theorem runTool_dispatched {s : Record} {t : Turn} {call : CallId} {use : ToolUse}
    {rest : List (CallId × ToolUse)} {results : List Block} {terminal : Bool}
    {outcome : ToolOutcome} :
    (runTool s t call use rest results terminal outcome).1.dispatched =
      if rejects (t.decision use) then s.dispatched
      else s.dispatched ++ [⟨call, use.name, effectiveInput (t.decision use) use,
        dispatcherOf t.setup.systemByName use.name⟩] := by
  rw [runTool]
  dsimp only
  split <;> rfl

theorem permitted_iff_answered (s : RunnerState) (a : TurnAction) (t : RunnerState)
    (h : runnerStep s a = some t) : Permitted s a t ↔ OnlyAnswered s a := by
  obtain ⟨turn, hturn, h⟩ := Option.bind_eq_some_iff.mp h
  obtain ⟨after, hafter, rfl⟩ := Option.map_eq_some_iff.mp h
  by_cases ha : ∀ outcome, a ≠ .runTool outcome
  · have hsame := turnStep_dispatched hafter ha
    have hnone : OnlyAnswered s a := by
      cases a with
      | runTool outcome => exact absurd rfl (ha outcome)
      | _ => trivial
    refine ⟨fun _ => hnone, fun _ turn' _ d hd => ?_⟩
    simp [RunnerState.dispatchedSince, hsame] at hd
  · obtain ⟨outcome, rfl⟩ := not_forall_not.mp ha
    simp only [turnStep] at hafter
    split at hafter
    case h_2 => cases hafter
    case h_1 call use rest results terminal hpc =>
      obtain rfl := Option.some.inj hafter
      have hcurrent : turn.current = some (call, use) := by simp [Turn.current, hpc]
      simp only [Permitted, OnlyAnswered, RunnerState.dispatchedSince, runTool_dispatched, hturn,
        Option.mem_some_iff, forall_eq', hcurrent, Answered, ← mem_resolved_iff]
      cases rejects (turn.decision use) <;> simp

/-- EXACT CONDITION: from any history, grants and decisions, on a run or a resume, the runner
    dispatches only tools resolved for the agent just when every call it comes to was rejected, is
    answered by a system tool of the agent, or names an MCP tool the grants allow. -/
theorem permitted_iff (record : Record) (turn : Turn) (as : List TurnAction) :
    EveryStep runnerStep Permitted ⟨record, some turn⟩ as ↔
      Guarded runnerStep OnlyAnswered ⟨record, some turn⟩ as :=
  everyStep_iff_guarded (fun _ _ _ _ _ _ => trivial)
    (fun s a t (_ : True) h => permitted_iff_answered s a t h) trivial

/-! ### A call of a tool that was never granted -/

/-- An agent granted the operation `search` alone, beside an MCP server that lists more. -/
def searcher : Setup :=
  ⟨⟨"searcher", [⟨"search", false⟩], []⟩, ⟨[], ["search", "delete_record"]⟩, [], false⟩

/-- The model calls `delete_record` all the same, on a run or in the history a resume finds. -/
def ungranted : ToolUse := ⟨some "tc_0", "delete_record", [("id", .num 7)]⟩

/-- The runner sends the call to the MCP server, on run and on resume. -/
theorem ungranted_dispatched :
    ¬ EveryStep runnerStep Permitted ⟨⟨[], [], []⟩, some (.run searcher [] [.text "hi"])⟩
        [.saveUser, .reply [.toolUse ungranted], .runTool (.result "done" false)] ∧
      ¬ EveryStep runnerStep Permitted
        ⟨⟨[], [], []⟩, some (.resume searcher [(.assistant, [.toolUse ungranted])] 1)⟩
        [.takeDecisions, .runTool (.result "done" false)] := by
  decide +kernel

end LunaCore.Engine
