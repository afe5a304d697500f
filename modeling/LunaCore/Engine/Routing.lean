import LunaCore.Engine.Approvals
import LunaCore.Engine.Handoff
import LunaCore.Providers.StreamedTurn
import LunaCore.Providers.StreamAccumulator
import LunaCore.Schemes.Rewriting

/-! Which agents a conversation can come to.

    first message ── `classify_route` ──▶ a card
    agent ── `transfer_to_agent` ──▶ a card the agent's own card allows
    suspended turn ── approval decided ──▶ the agent that asked

    The classifier reads a name out of whatever the model replied. What is no card's name goes to
    the default. -/

namespace LunaCore.Engine
open LunaCore.Values LunaCore.Schemes
open LunaCore.Providers (TurnBlock Loaded strip)

/-! ### The classifier -/

/-- The group of the first fenced block, from behind `json` and the space after it. -/
def fenced (text : List Char) : Option (List Char) :=
  (find ['\x60', '\x60', '\x60'] text 0).bind fun i =>
    let rest := text.drop (i + 3)
    let inner := (if "json".toList <+: rest then rest.drop 4 else rest).dropWhile isSpace
    (find ['\x60', '\x60', '\x60'] inner 0).map fun j => inner.take j

/-- From the first opening brace to the last closing one. -/
def embedded (text : List Char) : Option (List Char) :=
  let opened := text.dropWhile (· ≠ '{')
  let closed := (opened.reverse.dropWhile (· ≠ '}')).reverse
  if closed = [] then none else some closed

/-- The candidates of `_parse_json_object`. -/
def candidates (text : String) : List String :=
  ((fenced text.toList).map fun group => strip (String.ofList group)).toList ++ [text] ++
    ((embedded text.toList).map String.ofList).toList

/-- The first candidate that parses to an object. -/
def firstObject (loads : String → Loaded) : List String → Except String (Option Dict)
  | [] => .ok none
  | candidate :: rest => match loads candidate with
    | .value (.obj fields) => .ok (some fields)
    | .value _ | .decodeError => firstObject loads rest
    | .raises error => .error error

/-- `_parse_json_object`. -/
def parseJsonObject (loads : String → Loaded) (text : String) : Except String (Option Dict) :=
  firstObject loads (candidates text)

structure RouteDecision where
  agent : String
  reason : String
  deriving DecidableEq

inductive RouteError where
  /-- The default is not one of the cards. -/
  | badDefault (default : String)
  /-- A list or dict is looked up in the set of names. -/
  | unhashable
  | parsing (error : String)
  deriving DecidableEq

/-- What a set can be asked about. -/
def hashable : Json → Bool
  | .arr _ | .obj _ => false
  | _ => true

/-- The text of the reply. -/
def replyText (blocks : List TurnBlock) : String :=
  strip (String.join (blocks.filterMap fun
    | .text text => some text
    | _ => none))

/-- `classify_route`, from the reply of the model on. -/
def classifyRoute (loads : String → Loaded) (str : Json → String) (cards : List AgentCard)
    (default : String) (blocks : List TurnBlock) : Except RouteError RouteDecision :=
  if default ∉ cards.map AgentCard.name then .error (.badDefault default)
  else match parseJsonObject loads (replyText blocks) with
    | .error error => .error (.parsing error)
    | .ok none => .ok ⟨default, ""⟩
    | .ok (some parsed) =>
      let agent := (Dict.get parsed "agent").getD .null
      if ¬ hashable agent then .error .unhashable
      else match agent with
        | .str name =>
          if name ∈ cards.map AgentCard.name then
            .ok ⟨name, match Dict.get parsed "reason" with
              | none => ""
              | some reason => if Flow.truthy reason then str reason else ""⟩
          else .ok ⟨default, ""⟩
        | _ => .ok ⟨default, ""⟩

theorem firstObject_ok {loads : String → Loaded} (h : ∀ text error, loads text ≠ .raises error)
    (texts : List String) : ∃ parsed, firstObject loads texts = .ok parsed := by
  induction texts with
  | nil => exact ⟨none, rfl⟩
  | cons text texts ih =>
    rw [firstObject]
    split
    · exact ⟨_, rfl⟩
    · exact ih
    · exact ih
    · exact absurd ‹_› (h text _)

/-- SPEC: the classifier names a card, whatever the model replied. -/
theorem classifyRoute_card {loads : String → Loaded} {str : Json → String} {cards : List AgentCard}
    {default : String} {blocks : List TurnBlock} {decision : RouteDecision}
    (h : classifyRoute loads str cards default blocks = .ok decision) :
    decision.agent ∈ cards.map AgentCard.name := by
  unfold classifyRoute at h
  split at h
  case isTrue => cases h
  case isFalse hdefault =>
    have hcard := not_not.mp hdefault
    split at h
    · cases h
    · obtain rfl := Except.ok.inj h
      exact hcard
    · dsimp only at h
      split at h
      · cases h
      · split at h
        · split at h
          case isTrue hname =>
            obtain rfl := Except.ok.inj h
            exact hname
          case isFalse =>
            obtain rfl := Except.ok.inj h
            exact hcard
        · obtain rfl := Except.ok.inj h
          exact hcard

/-- EXACT CONDITION: it gives a decision unless a list or a dict stands for the name. -/
theorem classifyRoute_ok_iff {loads : String → Loaded} (str : Json → String)
    {cards : List AgentCard} {default : String} (hdefault : default ∈ cards.map AgentCard.name)
    (hloads : ∀ text error, loads text ≠ .raises error) (blocks : List TurnBlock) :
    (∃ decision, classifyRoute loads str cards default blocks = .ok decision) ↔
      ∀ parsed, parseJsonObject loads (replyText blocks) = .ok (some parsed) →
        hashable ((Dict.get parsed "agent").getD .null) = true := by
  obtain ⟨found, hfound⟩ := firstObject_ok hloads (candidates (replyText blocks))
  have hparse : parseJsonObject loads (replyText blocks) = .ok found := hfound
  rw [classifyRoute, if_neg (not_not.mpr hdefault), hparse]
  cases found with
  | none => simp
  | some parsed =>
    dsimp only
    constructor
    · rintro ⟨decision, hdecision⟩ other hother
      obtain rfl := Option.some.inj (Except.ok.inj hother)
      split at hdecision
      case isTrue => cases hdecision
      case isFalse hhash => exact not_not.mp hhash
    · intro hhash
      rw [if_neg (not_not.mpr (hhash parsed rfl))]
      split
      · split
        · exact ⟨_, rfl⟩
        · exact ⟨_, rfl⟩
      · exact ⟨_, rfl⟩

/-! ### The agents of a conversation -/

/-- The name can be reached by transfers the cards allow, from one the host chose. -/
def Reached (h : Host) (chosen : List String) (name : String) : Prop :=
  ∃ source ∈ chosen, Relation.ReflTransGen h.allows source name

theorem Reached.transfer {h : Host} {chosen : List String} {caller target : String}
    (hcaller : Reached h chosen caller) (hallows : h.allows caller target) :
    Reached h chosen target := by
  obtain ⟨source, hsource, hpath⟩ := hcaller
  exact ⟨source, hsource, hpath.tail hallows⟩

theorem Reached.mono {h : Host} {chosen more : List String} {name : String}
    (hname : Reached h chosen name) (hmore : chosen ⊆ more) : Reached h more name := by
  obtain ⟨source, hsource, hpath⟩ := hname
  exact ⟨source, hmore hsource, hpath⟩

/-- What is reached is a name the host chose, or that of a card. -/
theorem Reached.card {h : Host} {chosen : List String} {name : String}
    (hname : Reached h chosen name)
    (hchosen : ∀ source ∈ chosen, source ∈ h.cards.map AgentCard.name) :
    name ∈ h.cards.map AgentCard.name := by
  obtain ⟨source, hsource, hpath⟩ := hname
  cases hpath with
  | refl => exact hchosen _ hsource
  | tail _ hlast => exact hlast.1

/-- What the host chose in a run, besides the first agent. -/
def rerouted (as : List RoutedAction) : List String :=
  as.filterMap fun
    | .reroute name => some name
    | _ => none

/-- Whoever the conversation is with, was with or may come back to has been reached. -/
structure Confined (h : Host) (chosen : List String) (s : Routed) : Prop where
  routing : Reached h chosen s.routing
  turn : ∀ turn ∈ s.session.turn, Reached h chosen turn.setup.agent.name
  approvals : ∀ row ∈ s.session.record.approvals, Reached h chosen row.agentName
  suspendedBy : ∀ d, s.session.request = some (.decided d) → Reached h chosen s.suspendedBy

theorem Confined.mono {h : Host} {chosen more : List String} {s : Routed} (hs : Confined h chosen s)
    (hmore : chosen ⊆ more) : Confined h more s where
  routing := hs.routing.mono hmore
  turn turn hturn := (hs.turn turn hturn).mono hmore
  approvals row hrow := (hs.approvals row hrow).mono hmore
  suspendedBy d hd := (hs.suspendedBy d hd).mono hmore

/-! ### What a step makes of the agents -/

theorem saveResults_agent {s s' : Record} {t u : Turn} {results : List Chat.Block} {terminal : Bool}
    (h : saveResults s t results terminal = (s', .inl u)) : u.setup.agent = t.setup.agent := by
  have hnext := congrArg Prod.snd h
  unfold saveResults at hnext
  dsimp only at hnext
  split at hnext
  · split at hnext
    · cases hnext
    · obtain rfl := Sum.inl.inj hnext
      rfl
  · split at hnext
    · obtain rfl := Sum.inl.inj hnext
      rfl
    · cases hnext

/-- A turn is one agent's to its end. -/
theorem turnStep_agent {s s' : Record} {t u : Turn} {a : TurnAction}
    (h : turnStep s t a = some (s', .inl u)) : u.setup.agent = t.setup.agent := by
  cases turnStep_cases h with
  | ran hpc hrejects hnext =>
    rcases hnext with ⟨error, -, hraised⟩ | ⟨content, isError, ends, hgoes⟩
    · cases hraised
    · obtain rfl := Sum.inl.inj hgoes
      rfl
  | resultsSaved hpc =>
    simp only [turnStep, hpc] at h
    exact saveResults_agent (Option.some.inj h)
  | _ => rfl

/-- An approval after a step was there, of the same agent, or the turn at work asks for it. -/
theorem sessionStep_approvals {s t : Session} {a : SessionAction} (hs : Orderly s)
    (h : sessionStep s a = some t) : ∀ row ∈ t.record.approvals,
      (∃ old ∈ s.record.approvals, row.agentName = old.agentName) ∨
        ∃ turn ∈ s.turn, row.agentName = turn.setup.agent.name := by
  intro row hrow
  cases approvalStep hs h with
  | same happrovals => exact .inl ⟨row, happrovals ▸ hrow, rfl⟩
  | @asked u path approvals hrequest hpc hcreated =>
    obtain rfl := createPendingApprovals_eq hcreated
    rcases List.mem_append.mp hrow with hold | hnew
    · exact .inl ⟨row, hold, rfl⟩
    · obtain ⟨k, hk, rfl⟩ := List.mem_mapIdx.mp hnew
      refine .inr ⟨u, ?_, rfl⟩
      rw [Session.turn, hrequest]
      rfl
  | decided _ _ hdecided =>
    obtain ⟨rfl, -⟩ := decideApproval_eq hdecided
    obtain ⟨old, hold, rfl⟩ := List.mem_map.mp hrow
    refine .inl ⟨old, hold, ?_⟩
    unfold decideRow
    split <;> rfl
  | corrected =>
    obtain ⟨old, hold, rfl⟩ := List.mem_map.mp hrow
    refine .inl ⟨old, hold, ?_⟩
    split <;> rfl

/-- The agent a step starts a turn with. -/
def starts : SessionAction → Option Agent
  | .send agent _ _ _ | .handOff agent _ | .resume agent _ => some agent
  | _ => none

/-- The turn after a step was at work, of the same agent, or the step starts it with an agent. -/
theorem sessionStep_turn {s t : Session} {a : SessionAction} (h : sessionStep s a = some t)
    {turn : Turn} (hturn : turn ∈ t.turn) :
    (∃ old ∈ s.turn, turn.setup.agent = old.setup.agent) ∨
      starts a = some turn.setup.agent := by
  cases sessionStep_cases h with
  | sent | handedOff | resumes =>
    obtain rfl := Option.some.inj hturn
    exact .inr rfl
  | @worked record old path action after hafter =>
    obtain ⟨record', next | ended⟩ := after
    · obtain rfl := Option.some.inj hturn
      exact .inl ⟨old, rfl, turnStep_agent hafter⟩
    · exfalso
      cases ended with
      | aborted => cases hvia : path.viaSend <;> simp [afterTurn, Session.turn, hvia] at hturn
      | _ => cases hturn
  | _ => cases hturn

/-! ### Runs -/

theorem sessionStep_decided {s t : Session} {a : SessionAction} (hs : Orderly s)
    (h : sessionStep s a = some t) {d : Decision} (hd : t.request = some (.decided d)) :
    ∃ id, a = .decide id d ∧ ∃ row ∈ s.record.approvals, row.id = id := by
  cases approvalStep hs h with
  | same _ _ hnot => exact absurd hd (hnot d)
  | asked => cases hd
  | decided _ _ hdecided =>
    obtain ⟨-, row, hrow, hid, -⟩ := decideApproval_eq hdecided
    obtain rfl := Request.decided.inj (Option.some.inj hd)
    exact ⟨_, rfl, row, hrow, hid⟩
  | corrected => cases hd

theorem agentOf_mem {record : Record} {id : ℕ} {row : ToolApproval} (hrow : row ∈ record.approvals)
    (hid : row.id = id) : ∃ row ∈ record.approvals, agentOf record id = row.agentName := by
  cases hfound : record.approvals.find? fun row => row.id == id with
  | none => exact absurd (List.find?_eq_none.mp hfound row hrow) (by simp [hid])
  | some first =>
    refine ⟨first, List.mem_of_find?_eq_some hfound, ?_⟩
    simp [agentOf, hfound]

theorem resumingAgent_reached {h : Host} {chosen : List String} {suspendedBy routing : String}
    (hsuspended : Reached h chosen suspendedBy) (hrouting : Reached h chosen routing) :
    Reached h chosen (h.resumingAgent suspendedBy routing).name := by
  unfold Host.resumingAgent
  cases hfound : h.agents.find? fun a => a.name == suspendedBy with
  | none => simpa [h.named] using hrouting
  | some agent =>
    have hname : agent.name = suspendedBy := by simpa using List.find?_some hfound
    simpa [hname] using hsuspended

/-- A session's step that starts a turn, if at all, with an agent that is reached. -/
theorem Confined.after {h : Host} {chosen : List String} {s t : Routed} {a : SessionAction}
    (hs : Confined h chosen s) (horderly : Orderly s.session)
    (hsession : sessionStep s.session a = some t.session)
    (hstarts : ∀ agent ∈ starts a, Reached h chosen agent.name)
    (hrouting : Reached h chosen t.routing)
    (hsuspended : ∀ id d, a = .decide id d → t.suspendedBy = agentOf s.session.record id) :
    Confined h chosen t where
  routing := hrouting
  turn turn hturn := by
    rcases sessionStep_turn hsession hturn with ⟨old, hold, hagent⟩ | hstarted
    · exact hagent ▸ hs.turn old hold
    · exact hstarts _ hstarted
  approvals row hrow := by
    rcases sessionStep_approvals horderly hsession row hrow with
      ⟨old, hold, hname⟩ | ⟨turn, hturn, hname⟩
    · exact hname ▸ hs.approvals old hold
    · exact hname ▸ hs.turn turn hturn
  suspendedBy d hd := by
    obtain ⟨id, rfl, row, hrow, hid⟩ := sessionStep_decided horderly hsession hd
    obtain ⟨first, hfirst, hname⟩ := agentOf_mem hrow hid
    rw [hsuspended id d rfl, hname]
    exact hs.approvals first hfirst

/-- STEP: whatever happens to the conversation, its agents are reached from the host's choices. -/
theorem confined_step (h : Host) {chosen : List String} {s : Routed} {a : RoutedAction} {t : Routed}
    (horderly : Orderly s.session) (hs : Confined h chosen s) (ht : routedStep h s a = some t) :
    Confined h (chosen ++ rerouted [a]) t ∧ Orderly t.session := by
  have hresolver : Reached h chosen (h.resolver s.routing).name := by
    rw [h.named]
    exact hs.routing
  have hnone (u : Routed) (more : List String) (hu : Confined h chosen u) (hmore : more = []) :
      Confined h (chosen ++ more) u := by rwa [hmore, List.append_nil]
  cases a with
  | reroute name =>
    obtain ⟨-, rfl⟩ := by simpa [routedStep] using ht
    have hmore := hs.mono (List.subset_append_left chosen [name])
    exact ⟨{ hmore with routing := ⟨name, by simp [rerouted], .refl⟩ }, horderly⟩
  | send content call =>
    obtain ⟨session, hsession, rfl⟩ := Option.map_eq_some_iff.mp ht
    have hafter : Confined h chosen (s.start session (h.resolver s.routing).name) :=
      hs.after horderly hsession (by rintro agent ⟨⟩; exact hresolver) hs.routing (by simp)
    exact ⟨hnone _ _ hafter rfl, orderly_step _ _ _ horderly hsession⟩
  | work a =>
    obtain ⟨turn, hturn, ht⟩ := Option.bind_eq_some_iff.mp ht
    obtain ⟨target, htarget, ht⟩ := Option.bind_eq_some_iff.mp ht
    obtain ⟨session, hsession, rfl⟩ := Option.map_eq_some_iff.mp ht
    have hafter : Confined h chosen (s.route session target) := by
      cases target with
      | none => exact hs.after horderly hsession (by simp [starts]) hs.routing (by simp)
      | some target =>
        have hreached := (hs.turn turn hturn).transfer (settle_allows htarget)
        exact hs.after horderly hsession (by simp [starts]) hreached (by simp)
    have hsame : (s.route session target).session = session := by cases target <;> rfl
    refine ⟨hnone _ _ hafter rfl, ?_⟩
    rw [hsame]
    exact orderly_step _ _ _ horderly hsession
  | handOff =>
    simp only [routedStep] at ht
    split at ht
    case isTrue => cases ht
    case isFalse =>
      obtain ⟨session, hsession, rfl⟩ := Option.map_eq_some_iff.mp ht
      exact ⟨hnone _ _ (hs.after horderly hsession (by rintro agent ⟨⟩; exact hresolver) hs.routing
        (by simp)) rfl, orderly_step _ _ _ horderly hsession⟩
  | finalize =>
    obtain ⟨session, hsession, rfl⟩ := Option.map_eq_some_iff.mp ht
    exact ⟨hnone _ _ (hs.after horderly hsession (by simp [starts]) hs.routing (by simp)) rfl,
      orderly_step _ _ _ horderly hsession⟩
  | respond =>
    simp only [routedStep] at ht
    split at ht
    case h_2 => cases ht
    case h_1 =>
      split at ht
      case isTrue => cases ht
      case isFalse =>
        obtain ⟨session, hsession, rfl⟩ := Option.map_eq_some_iff.mp ht
        exact ⟨hnone _ _ (hs.after horderly hsession (by simp [starts]) hs.routing (by simp)) rfl,
          orderly_step _ _ _ horderly hsession⟩
  | decide id d =>
    obtain ⟨session, hsession, rfl⟩ := Option.map_eq_some_iff.mp ht
    refine ⟨hnone _ _ (hs.after horderly hsession (by simp [starts]) hs.routing ?_) rfl,
      orderly_step _ _ _ horderly hsession⟩
    rintro id' d' ⟨⟩
    rfl
  | resume =>
    obtain ⟨session, hsession, rfl⟩ := Option.map_eq_some_iff.mp ht
    have hdecided : ∃ d, s.session.request = some (.decided d) := by
      obtain ⟨⟨record, request⟩, routing, suspendedBy, agent, transfers, continuations, held⟩ := s
      cases sessionStep_cases hsession with
      | @waits _ d => exact ⟨d, rfl⟩
      | @resumes _ d => exact ⟨d, rfl⟩
    obtain ⟨d, hd⟩ := hdecided
    have hresuming := resumingAgent_reached (hs.suspendedBy d hd) hs.routing
    exact ⟨hnone _ _ (hs.after horderly hsession (by rintro agent ⟨⟩; exact hresuming) hs.routing
      (by simp)) rfl, orderly_step _ _ _ horderly hsession⟩
  | lose =>
    obtain rfl := Option.some.inj ht
    have hsession : sessionStep s.session .lose = some { s.session with request := none } := rfl
    exact ⟨hnone _ _ (hs.after horderly hsession (by simp [starts]) hs.routing (by simp)) rfl,
      orderly_step _ _ _ horderly hsession⟩

/-- SAFETY: in every run of a conversation the agent it is with, the one at work, and every agent an
    approval would bring back are reached from the host's own choices by transfers that the cards
    allow; and where the host only ever chose what the classifier decided, they are all cards,
    whatever the models replied. -/
theorem confined_run {h : Host} {routing : String} {as : List RoutedAction} {s : Routed}
    (hrun : runFrom (routedStep h) (.created routing) as = some s) :
    Confined h (routing :: rerouted as) s ∧
      ∀ (loads : String → Loaded) (default : String), (∀ name ∈ routing :: rerouted as,
        ∃ blocks decision, classifyRoute loads h.str h.cards default blocks = .ok decision ∧
          decision.agent = name) →
        s.routing ∈ h.cards.map AgentCard.name ∧
          (∀ turn ∈ s.session.turn, turn.setup.agent.name ∈ h.cards.map AgentCard.name) ∧
          (∀ row ∈ s.session.record.approvals, row.agentName ∈ h.cards.map AgentCard.name) ∧
          ∀ d, s.session.request = some (.decided d) →
            s.suspendedBy ∈ h.cards.map AgentCard.name := by
  have hstep : ∀ seen s a t, (Confined h (routing :: rerouted seen) s ∧ Orderly s.session) →
      routedStep h s a = some t →
      (Confined h (routing :: rerouted (seen ++ [a])) t ∧ Orderly t.session) := by
    intro seen s a t ⟨hs, horderly⟩ ht
    have hmore : rerouted (seen ++ [a]) = rerouted seen ++ rerouted [a] := List.filterMap_append
    rw [hmore, ← List.cons_append]
    exact confined_step h horderly hs ht
  have hcreated : Confined h (routing :: rerouted []) (.created routing) ∧
      Orderly (Routed.created routing).session :=
    ⟨⟨⟨routing, List.mem_cons_self, .refl⟩, fun _ hturn => (by cases hturn),
      fun _ hrow => (by cases hrow), fun _ hd => (by cases hd)⟩, orderly_created⟩
  have hconfined := (history_run hstep hcreated hrun).1
  refine ⟨hconfined, fun loads default hclassified => ?_⟩
  have hcards : ∀ source ∈ routing :: rerouted as, source ∈ h.cards.map AgentCard.name := by
    intro source hsource
    obtain ⟨blocks, decision, hdecision, rfl⟩ := hclassified source hsource
    exact classifyRoute_card hdecision
  exact ⟨hconfined.routing.card hcards, fun turn hturn => (hconfined.turn turn hturn).card hcards,
    fun row hrow => (hconfined.approvals row hrow).card hcards,
    fun d hd => (hconfined.suspendedBy d hd).card hcards⟩

/-- A host whose cook may hand over to the nurse, and the nurse to nobody; the nurse asks before it
    orders. -/
def clinic : Host where
  cards := [⟨"cook", some ["nurse"]⟩, ⟨"nurse", some []⟩, ⟨"doctor", none⟩]
  agents := [⟨"nurse", [⟨"order", true⟩], [⟨transferToolName, false, false⟩]⟩]
  box := ⟨[⟨transferToolName, .catalog, true⟩], ["order"]⟩
  resolver := fun name => ⟨name, [⟨"order", true⟩], [⟨transferToolName, false, false⟩]⟩
  str
    | .str text => text
    | _ => ""
  named := fun _ => rfl

/-- The cook hands over to the nurse, who is not allowed to hand over to the doctor and asks to order
    bandages. The host has turned to the doctor when the user approves; the nurse goes on. -/
def handedToNurse : List RoutedAction :=
  [.send [.text "it burns"] ⟨none, [], fun _ => none, fun _ => none, "m", "now"⟩,
    .work .saveUser,
    .work (.reply [.toolUse ⟨some "t0", transferToolName, [("agent", .str "nurse")]⟩]),
    .work (.runTool (.result "handed over" false)),
    .work .saveResults,
    .handOff,
    .work .saveUser,
    .work (.reply [.toolUse ⟨some "t1", transferToolName, [("agent", .str "doctor")]⟩]),
    .work (.runTool (.result "nurse may only transfer to: []" true)),
    .work .saveResults,
    .work (.reply [.text "May I?", .toolUse ⟨some "t2", "order", [("what", .str "bandages")]⟩]),
    .work .suspend,
    .reroute "doctor",
    .decide 0 ⟨.approved, none, none⟩,
    .resume]

def cookChosen : String := "\x7b\"agent\": \"cook\", \"reason\": \"food\"\x7d"

/-- `json.loads`, of what the classifier's model replies here. -/
def loadsChoice (text : String) : Loaded :=
  if text = cookChosen then .value (.obj [("agent", .str "cook"), ("reason", .str "food")])
  else .decodeError

/-- The classifier chose the cook, and the doctor for want of an answer. -/
theorem confined_run_handedToNurse :
    ∃ s, runFrom (routedStep clinic) (.created "cook") handedToNurse = some s ∧
      s.routing = "doctor" ∧ s.session.turn.map (fun turn => turn.setup.agent.name) = some "nurse" ∧
      s.session.record.approvals.map ToolApproval.agentName = ["nurse"] ∧
      classifyRoute loadsChoice clinic.str clinic.cards "doctor"
        [.text ("It is " ++ cookChosen ++ ".")] = .ok ⟨"cook", "food"⟩ ∧
      classifyRoute loadsChoice clinic.str clinic.cards "doctor" [.text "No idea."] =
        .ok ⟨"doctor", ""⟩ ∧
      Confined clinic ("cook" :: rerouted handedToNurse) s ∧
      ∀ turn ∈ s.session.turn, turn.setup.agent.name ∈ clinic.cards.map AgentCard.name := by
  have hcook : classifyRoute loadsChoice clinic.str clinic.cards "doctor"
      [.text ("It is " ++ cookChosen ++ ".")] = .ok ⟨"cook", "food"⟩ := by decide +kernel
  have hdoctor : classifyRoute loadsChoice clinic.str clinic.cards "doctor" [.text "No idea."] =
    .ok ⟨"doctor", ""⟩ := by decide +kernel
  have hrun : runFrom (routedStep clinic) (.created "cook") handedToNurse = some _ := rfl
  refine ⟨_, hrun, rfl, rfl, rfl, hcook, hdoctor, (confined_run hrun).1,
    ((confined_run hrun).2 loadsChoice "doctor" fun name hname => ?_).2.1⟩
  obtain rfl | rfl : name = "cook" ∨ name = "doctor" := by
    simpa [handedToNurse, rerouted] using hname
  · exact ⟨_, _, hcook, rfl⟩
  · exact ⟨_, _, hdoctor, rfl⟩

end LunaCore.Engine
