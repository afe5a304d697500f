import LunaCore.Engine.ChatRunner
import LunaCore.Engine.Dispatch

/-! Hand-offs between agents: `transfer_to_agent`, and the continuation turns the conversations
    router runs in the same request.

        turn of A ─→ answered ─→ the resolver names A: the answer is A's
                        └─→ it names B: a turn of B over the history, at most 4 times

    The loop looks at the routing, not at transfers. A send starts with the agent the routing names,
    so there a changed routing is a transfer; a resume starts with the agent that asked, whatever
    the host has routed to since. -/

namespace LunaCore.Engine
open LunaCore.Values LunaCore.Chat LunaCore.Schemes

/-- `TRANSFER_TOOL_NAME`. -/
def transferToolName : String := "transfer_to_agent"

/-- `AgentCard`, less the texts of its directory; `targets` of `none` are all cards. -/
structure AgentCard where
  name : String
  targets : Option (List String)
  deriving DecidableEq

/-- The host: its cards, the agents it has rows for, and its resolver, which returns the agent the
    routing names. `str` is Python's, on the values that are no text. -/
structure Host where
  cards : List AgentCard
  agents : List Agent
  box : Toolbox
  resolver : String → Agent
  str : Json → String
  named : ∀ routing, (resolver routing).name = routing

/-- `by_name.get(name)`: the last card of a name. -/
def Host.card (h : Host) (name : String) : Option AgentCard :=
  h.cards.reverse.find? fun c => c.name == name

/-- `str(args.get("agent") or "")`. -/
def Host.targetOf (h : Host) (args : Dict) : String :=
  match Dict.get args "agent" with
  | none | some .null | some (.bool false) | some (.arr []) | some (.obj []) => ""
  | some (.str s) => s
  | some (.num q) => if q = 0 then "" else h.str (.num q)
  | some v => h.str v

/-- The soft failures of the transfer tool. -/
inductive TransferError where
  | unknownAgent (target : String)
  | alreadyThere (target : String)
  | notAllowed (caller : String) (allowed : List String)
  deriving DecidableEq

/-- `_transfer`, up to `set_active`. -/
def Host.transfer (h : Host) (caller : String) (args : Dict) : Except TransferError String :=
  let target := h.targetOf args
  match h.card target with
  | none => .error (.unknownAgent target)
  | some _ =>
    if caller = target then .error (.alreadyThere target)
    else match (h.card caller).bind AgentCard.targets with
      | some allowed => if target ∈ allowed then .ok target else .error (.notAllowed caller allowed)
      | none => .ok target

/-- `_resuming_agent`: the agent that suspended the turn, or the resolver's where it is gone. -/
def Host.resumingAgent (h : Host) (suspendedBy routing : String) : Agent :=
  (h.agents.find? fun a => a.name == suspendedBy).getD (h.resolver routing)

/-- One conversation and its host's routing. `suspendedBy` is the agent of the approval last decided,
    `agent` the one that ran the request's last turn. Ghosts: the targets of the transfers made in
    this request, the continuation turns started in it, and whether the routing named its first
    agent when it started. -/
structure Routed where
  session : Session
  routing : String
  suspendedBy : String
  agent : String
  transfers : List String
  continuations : ℕ
  held : Bool

inductive RoutedAction where
  | reroute (name : String)
  | send (content : List Block) (call : CompactionCall)
  | work (a : TurnAction)
  | handOff
  | finalize
  | respond
  | decide (id : ℕ) (d : Decision)
  | resume
  | lose

def Routed.created (routing : String) : Routed := ⟨.created, routing, "", routing, [], 0, true⟩

/-- Where a step leaves the routing: `none` when the transfer tool cannot have that outcome, `some`
    of a target when it succeeded. A `set_active` that fails leaves the routing as it is. -/
def Host.settle (h : Host) (t : Turn) : TurnAction → Option (Option String)
  | .runTool outcome => match t.current with
    | none => some none
    | some (_, use) =>
      if rejects (t.decision use) then some none
      else match dispatcherOf t.setup.systemByName use.name with
        | .mcp => some none
        | .system tool =>
          if tool.name = transferToolName then
            match h.transfer t.setup.agent.name (effectiveInput (t.decision use) use), outcome with
            | .ok target, .result _ false => some (some target)
            | .ok _, _ => some none
            | .error _, .result _ true => some none
            | .error _, _ => none
          else some none
  | _ => some none

/-- The routing and the transfers after `settle`. -/
def Routed.route (s : Routed) (session : Session) : Option String → Routed
  | none => { s with session := session }
  | some target => { s with
      session := session, routing := target, transfers := s.transfers ++ [target] }

/-- A request starts, or goes on, with an agent. -/
def Routed.start (s : Routed) (session : Session) (agent : String) : Routed :=
  { s with
    session := session, agent := agent, transfers := [], continuations := 0
    held := decide (s.routing = agent) }

/-- The agent of the approval with that id. -/
def agentOf (s : Record) (id : ℕ) : String :=
  ((s.approvals.find? fun row => row.id == id).map ToolApproval.agentName).getD ""

/-- One step of the conversation under its host. The host reroutes only between requests. -/
def routedStep (h : Host) (s : Routed) : RoutedAction → Option Routed
  | .reroute name => if s.session.request.isNone then some { s with routing := name } else none
  | .send content call =>
    (sessionStep s.session (.send (h.resolver s.routing) h.box content call)).map fun t =>
      s.start t (h.resolver s.routing).name
  | .work a => s.session.turn.bind fun turn => (h.settle turn a).bind fun target =>
      (sessionStep s.session (.work a)).map fun t => s.route t target
  | .handOff =>
    if (h.resolver s.routing).name = s.agent then none
    else (sessionStep s.session (.handOff (h.resolver s.routing) h.box)).map fun t =>
      { s with
        session := t, agent := (h.resolver s.routing).name, continuations := s.continuations + 1 }
  | .finalize => (sessionStep s.session .finalize).map fun t => { s with session := t }
  | .respond => match s.session.request with
    | some (.answered path) =>
      if path.hops < maxHandoffHops ∧ (h.resolver s.routing).name ≠ s.agent then none
      else (sessionStep s.session .respond).map fun t => { s with session := t }
    | _ => none
  | .decide id d => (sessionStep s.session (.decide id d)).map fun t =>
      { s with session := t, suspendedBy := agentOf s.session.record id }
  | .resume =>
    let agent := h.resumingAgent s.suspendedBy s.routing
    (sessionStep s.session (.resume agent h.box)).map fun t => s.start t agent.name
  | .lose => (sessionStep s.session .lose).map fun t => { s with session := t }

/-- The card of the caller allows the target, which is another card. -/
def Host.allows (h : Host) (caller target : String) : Prop :=
  target ∈ h.cards.map AgentCard.name ∧ target ≠ caller ∧
    ∀ card ∈ h.card caller, ∀ allowed ∈ card.targets, target ∈ allowed

/-- The law of hand-offs, of one step: the tool changes the routing only as the cards allow; a
    continuation turn runs an agent a transfer was made to in this request, and is at most the
    fourth; a request that completes with fewer gives the answer of the agent the routing names. -/
def HandsOver (h : Host) (s : Routed) (a : RoutedAction) (t : Routed) : Prop :=
  match a with
  | .work _ => t.routing = s.routing ∨
      ∃ turn ∈ s.session.turn, h.allows turn.setup.agent.name t.routing
  | .handOff => t.agent ∈ s.transfers ∧ t.continuations ≤ maxHandoffHops
  | .respond => s.continuations < maxHandoffHops → s.agent = (h.resolver s.routing).name
  | .reroute _ => True
  | _ => t.routing = s.routing

/-- The hand-off follows a transfer, or a request whose first agent the routing named. -/
def FollowsTransfer (s : Routed) (a : RoutedAction) : Prop :=
  match a with
  | .handOff => s.transfers = [] → s.held = true
  | _ => True

/-! ### The transfer tool -/

/-- A transfer that is made goes to another card, and the caller's card allows it. -/
theorem transfer_allows {h : Host} {caller target : String} {args : Dict}
    (hok : h.transfer caller args = .ok target) : h.allows caller target := by
  unfold Host.transfer at hok
  dsimp only at hok
  split at hok
  case h_1 => cases hok
  case h_2 card hcard =>
    have hmem : h.targetOf args ∈ h.cards.map AgentCard.name := by
      have hfound : h.cards.reverse.find? (fun c => c.name == h.targetOf args) = some card := hcard
      have hname : card.name = h.targetOf args := by simpa using List.find?_some hfound
      rw [← hname]
      exact List.mem_map_of_mem (List.mem_reverse.mp (List.mem_of_find?_eq_some hfound))
    split at hok
    case isTrue => cases hok
    case isFalse hne =>
      split at hok
      case h_1 allowed hallowed =>
        split at hok
        case isTrue hin =>
          cases hok
          obtain ⟨own, hown, htargets⟩ := Option.bind_eq_some_iff.mp hallowed
          refine ⟨hmem, fun heq => hne heq.symm, fun c hc list hlist => ?_⟩
          obtain rfl := Option.some.inj (hown.symm.trans hc)
          obtain rfl := Option.some.inj (htargets.symm.trans hlist)
          exact hin
        case isFalse => cases hok
      case h_2 hany =>
        cases hok
        refine ⟨hmem, fun heq => hne heq.symm, fun c hc list hlist => ?_⟩
        rw [show h.card caller = some c from hc, Option.bind_some] at hany
        simp [show c.targets = some list from hlist] at hany

/-- The tool routes to a target only by such a transfer. -/
theorem settle_allows {h : Host} {t : Turn} {a : TurnAction} {target : String}
    (hs : h.settle t a = some (some target)) : h.allows t.setup.agent.name target := by
  unfold Host.settle at hs
  split at hs
  case h_1 outcome =>
    split at hs
    · cases hs
    · split at hs
      · cases hs
      · split at hs
        · cases hs
        · split at hs
          · split at hs
            case h_1 hok =>
              cases hs
              exact transfer_allows hok
            all_goals cases hs
          · cases hs
  case h_2 => cases hs

/-! ### The invariant -/

/-- The path of a request whose turns are run or have been. -/
def Request.path : Request → Option Path
  | .turn _ path | .answered path => some path
  | .aborted | .decided _ => none

/-- The turns of a request: a routing that no transfer changed is the one it started with, and a
    changed one names the target of a transfer. -/
structure Routes (s : Routed) (path : Path) : Prop where
  continuations : s.continuations = path.hops
  bounded : path.hops ≤ maxHandoffHops
  kept : s.transfers = [] → s.held = true → s.routing = s.agent
  changed : s.transfers ≠ [] → s.routing ∈ s.transfers

def Routing (s : Routed) : Prop :=
  ∀ request ∈ s.session.request, ∀ path ∈ request.path, Routes s path

theorem routing_created (routing : String) : Routing (.created routing) := by
  intro request hrequest
  cases hrequest

/-- A turn that goes on keeps to its path. -/
theorem path_afterTurn {path path' : Path} {after : After} {request : Request}
    (hrequest : request ∈ (afterTurn path after).request) (hpath : path' ∈ request.path) :
    path' = path := by
  rw [afterTurn] at hrequest
  obtain ⟨s, t | ended⟩ := after
  · obtain rfl : _ = request := Option.some.inj hrequest
    exact (Option.some.inj hpath).symm
  · cases ended with
    | output =>
      obtain rfl : _ = request := Option.some.inj hrequest
      exact (Option.some.inj hpath).symm
    | aborted =>
      cases hv : path.viaSend with
      | true =>
        rw [hv] at hrequest
        obtain rfl : _ = request := Option.some.inj hrequest
        cases hpath
      | false =>
        rw [hv] at hrequest
        cases hrequest
    | suspended => cases hrequest
    | raised => cases hrequest

/-- A request that starts with an agent, on a path without hand-offs. -/
theorem routes_start (s : Routed) (session : Session) (agent : String) {path : Path}
    (hhops : path.hops = 0) : Routes (s.start session agent) path where
  continuations := hhops.symm
  bounded := hhops ▸ Nat.zero_le _
  kept := fun _ hheld => of_decide_eq_true hheld
  changed := fun hne => absurd rfl hne

/-- The step of a turn keeps its request's routing, or makes a transfer. -/
theorem routes_route {s : Routed} {path : Path} (hr : Routes s path) (session : Session) :
    ∀ target, Routes (s.route session target) path
  | none => { hr with }
  | some target =>
    { continuations := hr.continuations
      bounded := hr.bounded
      kept := fun hnil => absurd hnil (by simp [Routed.route])
      changed := fun _ => by simp [Routed.route] }

theorem routing_step (h : Host) (s : Routed) (a : RoutedAction) (t : Routed) (hs : Routing s)
    (ht : routedStep h s a = some t) : Routing t := by
  cases a with
  | reroute name =>
    obtain ⟨hidle, rfl⟩ := by simpa [routedStep] using ht
    intro request hrequest
    simp [hidle] at hrequest
  | send content call =>
    obtain ⟨session, hsession, rfl⟩ := Option.map_eq_some_iff.mp ht
    intro request' hrequest path hpath
    refine routes_start s session _ ?_
    obtain ⟨⟨record, request⟩, routing, suspendedBy, agent, transfers, continuations, held⟩ := s
    cases sessionStep_cases hsession with
    | sent =>
      obtain rfl : _ = request' := Option.some.inj hrequest
      obtain rfl : _ = path := Option.some.inj hpath
      rfl
  | work a =>
    obtain ⟨turn, hturn, ht⟩ := Option.bind_eq_some_iff.mp ht
    obtain ⟨target, htarget, ht⟩ := Option.bind_eq_some_iff.mp ht
    obtain ⟨session, hsession, rfl⟩ := Option.map_eq_some_iff.mp ht
    obtain ⟨⟨record, request⟩, routing, suspendedBy, agent, transfers, continuations, held⟩ := s
    cases sessionStep_cases hsession with
    | @worked _ _ path _ after hafter =>
      intro request' hrequest path' hpath
      have hrequest' : request' ∈ (afterTurn path after).request := by
        cases target <;> exact hrequest
      obtain rfl := path_afterTurn hrequest' hpath
      exact routes_route (hs _ rfl _ rfl) _ target
  | handOff =>
    simp only [routedStep] at ht
    split at ht
    case isTrue => cases ht
    case isFalse hne =>
      obtain ⟨session, hsession, rfl⟩ := Option.map_eq_some_iff.mp ht
      obtain ⟨⟨record, request⟩, routing, suspendedBy, agent, transfers, continuations, held⟩ := s
      have hhops : ∀ path, request = some (.answered path) → path.hops < maxHandoffHops := by
        intro path hpath
        subst hpath
        simp only [sessionStep] at hsession
        split at hsession
        case isTrue hlt => exact hlt
        case isFalse => cases hsession
      cases sessionStep_cases hsession with
      | handedOff =>
        have hr := hs _ rfl _ rfl
        intro request' hrequest path' hpath
        obtain rfl : _ = request' := Option.some.inj hrequest
        obtain rfl : _ = path' := Option.some.inj hpath
        exact
          { continuations := congrArg (· + 1) hr.continuations
            bounded := hhops _ rfl
            kept := fun _ _ => (h.named routing).symm
            changed := hr.changed }
  | finalize =>
    obtain ⟨session, hsession, rfl⟩ := Option.map_eq_some_iff.mp ht
    obtain ⟨⟨record, request⟩, routing, suspendedBy, agent, transfers, continuations, held⟩ := s
    cases sessionStep_cases hsession with
    | finalized =>
      intro request hrequest
      cases hrequest
  | respond =>
    simp only [routedStep] at ht
    split at ht
    case h_2 => cases ht
    case h_1 =>
      split at ht
      case isTrue => cases ht
      case isFalse =>
        obtain ⟨session, hsession, rfl⟩ := Option.map_eq_some_iff.mp ht
        obtain ⟨⟨record, request⟩, routing, suspendedBy, agent, transfers, continuations, held⟩ := s
        cases sessionStep_cases hsession with
        | responded =>
          intro request hrequest
          cases hrequest
  | decide id d =>
    obtain ⟨session, hsession, rfl⟩ := Option.map_eq_some_iff.mp ht
    obtain ⟨⟨record, request⟩, routing, suspendedBy, agent, transfers, continuations, held⟩ := s
    cases sessionStep_cases hsession with
    | decided =>
      intro request hrequest path hpath
      obtain rfl : _ = request := Option.some.inj hrequest
      cases hpath
  | resume =>
    obtain ⟨session, hsession, rfl⟩ := Option.map_eq_some_iff.mp ht
    intro request' hrequest path hpath
    refine routes_start s session _ ?_
    obtain ⟨⟨record, request⟩, routing, suspendedBy, agent, transfers, continuations, held⟩ := s
    cases sessionStep_cases hsession with
    | waits => cases hrequest
    | resumes =>
      obtain rfl : _ = request' := Option.some.inj hrequest
      obtain rfl : _ = path := Option.some.inj hpath
      rfl
  | lose =>
    obtain rfl := Option.some.inj ht
    intro request hrequest
    cases hrequest

/-! ### One step, and a run -/

/-- A hand-off is made only while the routing names another agent. -/
theorem handOff_step {h : Host} {s t : Routed} (ht : routedStep h s .handOff = some t) :
    s.routing ≠ s.agent ∧ t.agent = s.routing ∧ t.continuations = s.continuations + 1 ∧
      t.transfers = s.transfers ∧ ∃ path, s.session.request = some (.answered path) ∧
        path.hops < maxHandoffHops := by
  simp only [routedStep] at ht
  split at ht
  case isTrue => cases ht
  case isFalse hne =>
    obtain ⟨session, hsession, rfl⟩ := Option.map_eq_some_iff.mp ht
    refine ⟨h.named s.routing ▸ hne, h.named _, rfl, rfl, ?_⟩
    simp only [sessionStep] at hsession
    split at hsession
    case h_1 path hrequest =>
      split at hsession
      case isTrue hlt => exact ⟨path, hrequest, hlt⟩
      case isFalse => cases hsession
    case h_2 => cases hsession

/-- A step obeys the law of hand-offs just when it follows a transfer. -/
theorem handsOver_iff (h : Host) (s : Routed) (a : RoutedAction) (t : Routed) (hs : Routing s)
    (ht : routedStep h s a = some t) : HandsOver h s a t ↔ FollowsTransfer s a := by
  cases a with
  | handOff =>
    obtain ⟨hne, hagent, hcount, -, path, hrequest, hhops⟩ := handOff_step ht
    have hr := hs _ hrequest path rfl
    constructor
    · rintro ⟨hmem, -⟩ hnil
      simp [hnil] at hmem
    · intro hfollows
      refine ⟨?_, ?_⟩
      · rw [hagent]
        by_cases hnil : s.transfers = []
        · exact absurd (hr.kept hnil (hfollows hnil)) hne
        · exact hr.changed hnil
      · rw [hcount, hr.continuations]
        exact hhops
  | work a =>
    refine iff_of_true ?_ trivial
    obtain ⟨turn, hturn, ht⟩ := Option.bind_eq_some_iff.mp ht
    obtain ⟨target, htarget, ht⟩ := Option.bind_eq_some_iff.mp ht
    obtain ⟨session, hsession, rfl⟩ := Option.map_eq_some_iff.mp ht
    cases target with
    | none => exact .inl rfl
    | some target => exact .inr ⟨turn, hturn, settle_allows htarget⟩
  | respond =>
    refine iff_of_true (fun hlt => ?_) trivial
    simp only [routedStep] at ht
    split at ht
    case h_2 => cases ht
    case h_1 path hrequest =>
      have hr := hs _ hrequest path rfl
      split at ht
      case isTrue => cases ht
      case isFalse hstays =>
        by_contra hne
        exact hstays ⟨hr.continuations ▸ hlt, fun heq => hne heq.symm⟩
  | reroute name => exact iff_of_true trivial trivial
  | send content call =>
    obtain ⟨session, hsession, rfl⟩ := Option.map_eq_some_iff.mp ht
    exact iff_of_true rfl trivial
  | finalize =>
    obtain ⟨session, hsession, rfl⟩ := Option.map_eq_some_iff.mp ht
    exact iff_of_true rfl trivial
  | decide id d =>
    obtain ⟨session, hsession, rfl⟩ := Option.map_eq_some_iff.mp ht
    exact iff_of_true rfl trivial
  | resume =>
    obtain ⟨session, hsession, rfl⟩ := Option.map_eq_some_iff.mp ht
    exact iff_of_true rfl trivial
  | lose =>
    obtain rfl := Option.some.inj ht
    exact iff_of_true rfl trivial

/-- EXACT CONDITION: under any host and cards, whatever transfers, suspensions, reroutes and
    decisions a conversation has, every step obeys the law of hand-offs just when no request whose
    first agent the routing did not name hands off before a transfer was made in it. -/
theorem handsOver_run_iff (h : Host) (routing : String) (as : List RoutedAction) :
    EveryStep (routedStep h) (HandsOver h) (.created routing) as ↔
      Guarded (routedStep h) FollowsTransfer (.created routing) as :=
  everyStep_iff_guarded (fun s a t hs _ ht => routing_step h s a t hs ht) (handsOver_iff h)
    (routing_created routing)

/-! ### A reroute while an approval waits -/

/-- A host with a cook and a nurse; the cook asks before it orders. -/
def kitchen : Host where
  cards := [⟨"cook", none⟩, ⟨"nurse", none⟩]
  agents := [⟨"cook", [⟨"order", true⟩], []⟩, ⟨"nurse", [], []⟩]
  box := ⟨[⟨transferToolName, .catalog, true⟩], ["order"]⟩
  resolver := fun name => ⟨name, if name = "cook" then [⟨"order", true⟩] else [], []⟩
  str := fun _ => ""
  named := fun _ => rfl

/-- The cook's order waits for approval, the host routes the conversation to the nurse, and the user
    approves. No agent ever calls `transfer_to_agent`. -/
def reroutedWhileWaiting : List RoutedAction :=
  [.send [.text "order rice"] ⟨none, [], fun _ => none, fun _ => none, "m", "now"⟩,
    .work .saveUser,
    .work (.reply [.text "May I?", .toolUse ⟨some "tc_0", "order", [("what", .str "rice")]⟩]),
    .work .suspend,
    .reroute "nurse",
    .decide 0 ⟨.approved, none, none⟩,
    .resume,
    .work .takeDecisions,
    .work (.runTool (.result "ordered" false)),
    .work .saveResults,
    .work (.reply [.text "Rice is on its way."])]

/-- The nurse is started as if the conversation had just been transferred to it. -/
theorem handed_without_transfer :
    ¬ EveryStep (routedStep kitchen) (HandsOver kitchen) (.created "cook")
      (reroutedWhileWaiting ++ [.handOff]) := by
  intro h
  have hstep := EveryStep.at h
    (rfl : runFrom (routedStep kitchen) (.created "cook") reroutedWhileWaiting = some _) rfl
  cases hstep.1

end LunaCore.Engine
