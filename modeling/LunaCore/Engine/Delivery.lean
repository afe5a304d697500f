import LunaCore.Engine.Decisions
import LunaCore.Mcp.Client

/-! Does the MCP server ever take a call twice?

        call ── POST, again while nobody listens ──▶ answered ─→ its result joins the turn's
         │                                       └─▶ failed ───→ the turn ends, and so does the call
         └── rejected, or a system tool answers it: nothing is sent

    The conversation runs as before, over any network; what a call of an MCP tool gives back is what
    the client makes of the server's answer. A process lost while an envelope is out leaves what a
    transport that broke leaves. -/

namespace LunaCore.Engine
open LunaCore.Values LunaCore.Chat LunaCore.Schemes
open LunaCore.Mcp.Client (Delivery MCPClient outcomeOf callTool_ok outcomeOf_result
  postWithConnectRetry_once)

/-- A conversation, with the calls the MCP server took: a ghost, by what became of the POSTs. -/
structure Networked where
  session : Session
  taken : List Dispatch

inductive NetworkedAction where
  | session (a : SessionAction)
  -- the MCP tool that is called next: what becomes of the POSTs of its envelope, by attempt
  | call (net : ℕ → Delivery)

/-- A call that is about to be sent to the MCP server. -/
structure McpCall where
  turn : Turn
  id : CallId
  use : ToolUse

/-- The MCP tool the turn at work calls next, unless the call was rejected. -/
def Session.mcpCall (s : Session) : Option McpCall :=
  s.turn.bind fun t => match t.current with
    | some (id, use) =>
      if dispatcherOf t.setup.systemByName use.name = .mcp ∧ rejects (t.decision use) = false then
        some ⟨t, id, use⟩
      else none
    | none => none

/-- The decision taken on the call. -/
def McpCall.decision (call : McpCall) : Option ToolApproval := call.turn.decision call.use

def McpCall.dispatch (call : McpCall) : Dispatch :=
  ⟨call.id, call.use.name, effectiveInput call.decision call.use, .mcp⟩

variable (codec : Codec) (statusText : ℕ → String) (client : MCPClient)

/-- What the runner makes of the call, over that network. -/
def McpCall.outcome (call : McpCall) (net : ℕ → Delivery) : ToolOutcome :=
  (outcomeOf codec (client.callTool codec statusText call.use.name net)).noted codec
    (edited call.decision call.use)

def networkedStep (s : Networked) : NetworkedAction → Option Networked
  | .session a =>
    if a.isRunTool ∧ s.session.mcpCall.isSome then none
    else (sessionStep s.session a).map fun session => ⟨session, s.taken⟩
  | .call net => s.session.mcpCall.bind fun call =>
    (sessionStep s.session (.work (.runTool (call.outcome codec statusText client net)))).map
      fun session => ⟨session, s.taken ++
        List.replicate (client.postWithConnectRetry net).taken call.dispatch⟩

def Networked.created : Networked := ⟨.created, []⟩

/-- An MCP call, over that network: what is sent is the call the turn has come to, and it is
    dispatched by that. The turn goes on only when the server took the call and answered its last
    POST; after any other failure it is over. -/
structure Networked.Called (s : Networked) (net : ℕ → Delivery) (call : McpCall)
    (s' : Networked) : Prop where
  current : s.session.mcpCall = some call
  dispatched : s'.session.record.dispatched = s.session.record.dispatched ++ [call.dispatch]
  posted : (client.postWithConnectRetry net).Once net 1 client.connectBackoff
    client.connectAttempts
  taken : s'.taken = s.taken ∨ s'.taken = s.taken ++ [call.dispatch]
  goesOn : s'.session.request ≠ none → s'.taken = s.taken ++ [call.dispatch] ∧
    (net (client.postWithConnectRetry net).posts).Replied

/-- SPEC: no call is dispatched twice, the server takes none twice, and none that was not dispatched;
    it is an MCP call that it takes. -/
def Delivered (s : Networked) (a : NetworkedAction) (s' : Networked) : Prop :=
  (s'.session.record.dispatched.map Dispatch.call).Nodup ∧ (s'.taken.map Dispatch.call).Nodup ∧
  s'.taken.Sublist s'.session.record.dispatched ∧
  match a with
  | .session _ => s'.taken = s.taken
  | .call net => ∃ call, s.Called client net call s'

/-! ### The invariant -/

/-- INVARIANT: no call was dispatched twice, and the server took none but such. -/
def Dispatched (s : Networked) : Prop :=
  Orderly s.session ∧ (s.session.record.dispatched.map Dispatch.call).Nodup ∧
    s.taken.Sublist s.session.record.dispatched

theorem dispatched_created : Dispatched .created :=
  ⟨orderly_created, List.nodup_nil, .slnil⟩

/-- A step dispatches one call at most, and one that was not dispatched before. -/
theorem dispatched_sessionStep {s t : Session} {a : SessionAction} (hs : Orderly s)
    (h : sessionStep s a = some t) : t.record.dispatched = s.record.dispatched ∨
      ∃ d, t.record.dispatched = s.record.dispatched ++ [d] ∧
        ∀ e ∈ s.record.dispatched, e.call ≠ d.call := by
  cases sessionStep_cases h with
  | @worked s turn path a after hafter =>
    cases turnStep_cases hafter with
    | @ran outcome call use rest results terminal next hpc hrejects hnext =>
      have hcurrent : turn.current = some (call, use) := by rw [Turn.current, hpc]
      exact .inr ⟨_, rfl, (toRun_current hs.2.2 hcurrent).notSent⟩
    | _ => exact .inl rfl
  | _ => exact .inl rfl

/-- STEP: what was dispatched stays so, and a call is dispatched once. -/
theorem nodup_sessionStep {s t : Session} {a : SessionAction} (hs : Orderly s)
    (hnodup : (s.record.dispatched.map Dispatch.call).Nodup) (h : sessionStep s a = some t) :
    (t.record.dispatched.map Dispatch.call).Nodup ∧
      s.record.dispatched.Sublist t.record.dispatched := by
  rcases dispatched_sessionStep hs h with hsame | ⟨d, hmore, hnew⟩
  · rw [hsame]
    exact ⟨hnodup, .refl _⟩
  · rw [hmore, List.map_append]
    refine ⟨hnodup.append (List.nodup_singleton _) ?_, List.sublist_append_left _ _⟩
    rintro id hid hmem
    obtain ⟨e, he, rfl⟩ := List.mem_map.mp hid
    exact hnew e he (List.mem_singleton.mp hmem)

/-! ### One call -/

theorem mcpCall_eq_some {s : Session} {call : McpCall} (h : s.mcpCall = some call) :
    s.turn = some call.turn ∧ call.turn.current = some (call.id, call.use) ∧
      dispatcherOf call.turn.setup.systemByName call.use.name = .mcp ∧
      rejects call.decision = false := by
  obtain ⟨t, ht, hcall⟩ := Option.bind_eq_some_iff.mp h
  cases hcurrent : t.current with
  | none => rw [hcurrent] at hcall; cases hcall
  | some entry =>
    obtain ⟨id, use⟩ := entry
    simp only [hcurrent] at hcall
    split at hcall
    · next hmcp =>
      obtain rfl := Option.some.inj hcall
      exact ⟨ht, hcurrent, hmcp⟩
    · cases hcall

theorem current_eq_some {t : Turn} {id : CallId} {use : ToolUse} (h : t.current = some (id, use)) :
    ∃ rest results terminal, t.pc = .executing ((id, use) :: rest) results terminal := by
  rw [Turn.current] at h
  split at h
  · next entry rest results terminal hpc =>
    obtain rfl := Option.some.inj h
    exact ⟨rest, results, terminal, hpc⟩
  · cases h

/-- The runner dispatches the call, and its request is over when it raises. -/
theorem runTool_delivered {s t : Session} {call : McpCall} {outcome : ToolOutcome}
    (hcall : s.mcpCall = some call) (h : sessionStep s (.work (.runTool outcome)) = some t) :
    t.record.dispatched = s.record.dispatched ++ [call.dispatch] ∧
      (t.request = none ∨ ∃ content isError, outcome = .result content isError) := by
  obtain ⟨hturn, hcurrent, hmcp, hrejects⟩ := mcpCall_eq_some hcall
  obtain ⟨callTurn, id, use⟩ := call
  obtain ⟨rest, results, terminal, hpc⟩ := current_eq_some hcurrent
  cases sessionStep_cases h with
  | @worked s turn path a after hafter =>
    obtain rfl : turn = callTurn := Option.some.inj hturn
    have hpc : turn.pc = .executing ((id, use) :: rest) results terminal := hpc
    have hran : runTool s turn id use rest results terminal outcome = after := by
      simpa [turnStep, hpc] using hafter
    have hrejects : rejects (turn.decision use) = false := hrejects
    subst hran
    constructor
    · have hsent := @runTool_dispatched s turn id use rest results terminal outcome
      rw [hrejects, if_neg Bool.false_ne_true, hmcp] at hsent
      exact hsent
    · cases outcome with
      | result content isError => exact .inr ⟨content, isError, rfl⟩
      | raised error =>
        left
        simp [afterTurn, runTool, hrejects]

/-- There is a result only where the server took the call once and answered. -/
theorem outcome_result {call : McpCall} {net : ℕ → Delivery} {content : String} {isError : Bool}
    (h : call.outcome codec statusText client net = .result content isError) :
    (client.postWithConnectRetry net).taken = 1 ∧
      (net (client.postWithConnectRetry net).posts).Replied := by
  rw [McpCall.outcome] at h
  cases hcalled : outcomeOf codec (client.callTool codec statusText call.use.name net) with
  | raised error =>
    rw [hcalled, ToolOutcome.noted] at h
    · cases h
    · rintro _ _ _ heq
      cases heq
  | result content' isError' =>
    obtain ⟨result, hok⟩ := outcomeOf_result codec hcalled
    exact callTool_ok codec statusText hok

/-! ### One step, and a run -/

/-- STEP: over any network, the server takes at most the call that is dispatched. -/
theorem dispatched_call {s s' : Networked} {net : ℕ → Delivery} (hs : Dispatched s)
    (h : networkedStep codec statusText client s (.call net) = some s') :
    Dispatched s' ∧ Delivered client s (.call net) s' := by
  obtain ⟨horderly, hnodup, htaken⟩ := hs
  obtain ⟨call, hcall, hstep⟩ := Option.bind_eq_some_iff.mp h
  obtain ⟨session, hsession, rfl⟩ := Option.map_eq_some_iff.mp hstep
  obtain ⟨hsent, hended⟩ := runTool_delivered hcall hsession
  have hnodup' := (nodup_sessionStep horderly hnodup hsession).1
  have honce := postWithConnectRetry_once client net
  have hwhich : s.taken ++ List.replicate (client.postWithConnectRetry net).taken call.dispatch =
        s.taken ∨
      s.taken ++ List.replicate (client.postWithConnectRetry net).taken call.dispatch =
        s.taken ++ [call.dispatch] := by
    rcases Nat.le_one_iff_eq_zero_or_eq_one.mp honce.taken_le with hzero | hone
    · exact .inl (by rw [hzero]; simp)
    · exact .inr (by rw [hone]; rfl)
  have htaken' : (s.taken ++ List.replicate (client.postWithConnectRetry net).taken
      call.dispatch).Sublist session.record.dispatched := by
    rw [hsent]
    rcases hwhich with hsame | hmore
    · rw [hsame]
      exact htaken.trans (List.sublist_append_left _ _)
    · rw [hmore]
      exact htaken.append (.refl _)
  refine ⟨⟨orderly_step _ _ _ horderly hsession, hnodup', htaken'⟩, hnodup',
    (htaken'.map Dispatch.call).nodup hnodup', htaken', call, hcall, hsent, honce, hwhich,
    fun hgoesOn => ?_⟩
  obtain ⟨content, isError, hresult⟩ := hended.resolve_left hgoesOn
  obtain ⟨hone, hreplied⟩ := outcome_result codec statusText client hresult
  exact ⟨by rw [hone]; rfl, hreplied⟩

/-- STEP: what is no call of an MCP tool reaches no server. -/
theorem dispatched_session {s s' : Networked} {a : SessionAction} (hs : Dispatched s)
    (h : networkedStep codec statusText client s (.session a) = some s') :
    Dispatched s' ∧ Delivered client s (.session a) s' := by
  obtain ⟨horderly, hnodup, htaken⟩ := hs
  rw [networkedStep] at h
  split at h
  · cases h
  · obtain ⟨session, hsession, rfl⟩ := Option.map_eq_some_iff.mp h
    obtain ⟨hnodup', hsub⟩ := nodup_sessionStep horderly hnodup hsession
    have htaken' := htaken.trans hsub
    exact ⟨⟨orderly_step _ _ _ horderly hsession, hnodup', htaken'⟩, hnodup',
      (htaken'.map Dispatch.call).nodup hnodup', htaken', rfl⟩

theorem dispatched_step {s s' : Networked} {a : NetworkedAction} (hs : Dispatched s)
    (h : networkedStep codec statusText client s a = some s') :
    Dispatched s' ∧ Delivered client s a s' := by
  cases a with
  | session a => exact dispatched_session codec statusText client hs h
  | call net => exact dispatched_call codec statusText client hs h

/-- RUN: whatever turns, decisions, resumes, crashes and networks a conversation meets, no call is
    dispatched twice and the MCP server takes none twice; a turn goes on with a call's result only
    when the server took that very call and answered it, and is over else. -/
theorem takenOnce_run (as : List NetworkedAction) :
    EveryStep (networkedStep codec statusText client) (Delivered client) .created as :=
  everyStep_of_inv (fun _ _ _ hs h => (dispatched_step codec statusText client hs h).1)
    (fun _ _ _ hs h => (dispatched_step codec statusText client hs h).2) dispatched_created

end LunaCore.Engine
