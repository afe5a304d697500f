import LunaCore.Providers.StreamedTurn
import LunaCore.Schemes.Machine

/-! One turn of `AnthropicProvider.complete`: rounds the server pauses, dropped rounds that are sent
    again, and one more round when the turn came out empty.

        streaming ─→ finish ─→ next round | save the row ─→ delete the keys ─→ returned
            │  ↑                  └─→ refused, cut off: save a partial ─→ raised
            │  └──── sleep ←──┐
            └─→ raised ─→ save a partial? ─→ retry? ─→ raised

    Whether a partial is saved is asked of the whole turn's text, in the inner handler; whether the
    round is sent again, of this round's, in the outer one. -/

namespace LunaCore.Providers.Anthropic
open LunaCore.Values LunaCore.Chat LunaCore.Schemes
open LunaCore.Stream (Kind)

/-- `settings.anthropic_stream_retries` and `anthropic_max_pause_continuations`. -/
structure Settings where
  streamRetries : ℕ
  maxPauseContinuations : ℕ

/-- `stop_reason`, as far as it is told apart. -/
inductive StopReason where
  | endTurn
  | pauseTurn
  | refusal
  | maxTokens
  | other (name : String)
  deriving DecidableEq

/-- A stream event, by what `_on_event` does with it; `server` blocks come with so many builtin
    frames. -/
inductive ApiEvent where
  | blockStart (builtins : ℕ)
  | blockStop (builtins : ℕ)
  | delta (kind : Kind) (text : String)
  | other
  deriving DecidableEq

/-- What the stream raises. -/
inductive Failure where
  | rateLimit
  | drop
  | other
  deriving DecidableEq

/-- How the turn ends. -/
inductive Ending where
  | returned (blocks : List TurnBlock)
  | aborted
  | rateLimited
  | dropped
  | failed
  | refused
  | cutOff
  | emptyTwice
  | unsaved
  | cancelled
  deriving DecidableEq

/-- Where `complete` stands; an exception being handled is named by the end it leads to. -/
inductive Pc where
  | streaming (ops : List Op)
  | savingPartial (e : Ending)
  | deletingKeys (e : Ending)
  | sleeping
  | saving
  | completing
  | closing
  | ended (e : Ending)
  deriving DecidableEq

/-- A turn. `shown` and `thinking` are the lengths the retry loop took at the top of its attempt,
    `asked` that this is the round asked after an empty turn. -/
structure Completion where
  turn : Streamed
  blocks : List TurnBlock
  round : ℕ
  asked : Bool
  attempt : ℕ
  shown : ℕ
  thinking : ℕ
  pc : Pc
  deriving DecidableEq

def Completion.created : Completion := ⟨.fresh, [], 0, false, 0, 0, 0, .streaming []⟩

inductive Action where
  | event (e : ApiEvent)
  | run (sequence : Option ℕ)
  | observeAbort
  | fail (f : Failure)
  | finish (stop : StopReason) (content : List TurnBlock)
  | savePartial
  | deleteKeys
  | wake
  | saveMessage
  | completed
  | cancel

/-- `_says_anything`. -/
def saysAnything (blocks : List TurnBlock) : Bool :=
  blocks.any fun
    | .text text => !blank text
    | .thinking _ => false
    | _ => true

def TurnBlock.isToolUse : TurnBlock → Bool
  | .toolUse _ => true
  | _ => false

/-- The reasoning stored beside the final row. -/
def finalThinking (blocks : List TurnBlock) : Option String :=
  match blocks.filterMap (fun
    | .thinking thinking => if thinking = "" then none else some thinking
    | _ => none) with
  | [] => none
  | parts => some ("\n\n".intercalate parts)

/-- `_on_event`. -/
def onEvent (s : Streamed) : ApiEvent → List Op
  | .blockStart builtins => s.ensureStarted ++ (List.replicate builtins publishBuiltin).flatten
  | .blockStop builtins => (List.replicate builtins publishBuiltin).flatten
  | .delta kind text => if text = "" then [] else publishDelta kind text
  | .other => []

/-- The API streams a block only once it has opened it. -/
def inBlock (s : Streamed) : ApiEvent → Bool
  | .delta _ _ | .blockStop _ => s.started
  | _ => true

/-- The top of an attempt. -/
def Completion.attempting (s : Completion) : Completion :=
  { s with
    shown := s.turn.textParts.length
    thinking := s.turn.thinkingParts.length
    pc := .streaming [] }

/-- `_stream_round_retrying` begins. -/
def Completion.startRound (s : Completion) : Completion := { s with attempt := 0 }.attempting

/-- The outer handler sends the round again. -/
def Completion.retries (cfg : Settings) (s : Completion) (e : Ending) : Bool :=
  e = .dropped && s.attempt < cfg.streamRetries && s.turn.textParts.length = s.shown

/-- The outer handler, or the end. -/
def Completion.raise (cfg : Settings) (s : Completion) (e : Ending) : Completion :=
  if s.retries cfg e then
    { s with
      attempt := s.attempt + 1
      turn := { s.turn with thinkingParts := s.turn.thinkingParts.take s.thinking }
      pc := .sleeping }
  else { s with pc := .ended e }

def Failure.ending : Failure → Ending
  | .rateLimit => .rateLimited
  | .drop => .dropped
  | .other => .failed

/-- The inner handler: a drop that leaves a retry, of a turn that showed no text, keeps no partial. -/
def Completion.handle (cfg : Settings) (s : Completion) (f : Failure) : Completion :=
  if s.attempt < cfg.streamRetries ∧ s.turn.textParts = [] ∧ f = .drop then s.raise cfg f.ending
  else { s with pc := .savingPartial f.ending }

/-- What `complete` does with a round's final message. -/
def Completion.finish (cfg : Settings) (s : Completion) (stop : StopReason)
    (content : List TurnBlock) : Completion :=
  let blocks := s.blocks ++ content
  if s.asked = false ∧ stop = .pauseTurn ∧ s.round < cfg.maxPauseContinuations then
    { s with blocks := blocks, round := s.round + 1 }.startRound
  else if stop = .endTurn ∧ saysAnything blocks = false then
    if s.asked then { s with blocks := blocks, pc := .ended .emptyTwice }
    else { s with blocks := [], asked := true }.startRound
  else if stop = .refusal then { s with blocks := blocks, pc := .savingPartial .refused }
  else if stop = .maxTokens ∧ blocks.any TurnBlock.isToolUse then
    { s with blocks := blocks, pc := .savingPartial .cutOff }
  else { s with blocks := blocks, pc := .saving }

/-- One step of a turn. -/
def completionStep (cfg : Settings) (s : Completion) : Action → Option Completion
  | .event e =>
    if s.pc = .streaming [] ∧ inBlock s.turn e then
      some { s with pc := .streaming (onEvent s.turn e) }
    else none
  | .run sequence => match s.pc with
    | .streaming (op :: ops) => some { s with turn := s.turn.run sequence op, pc := .streaming ops }
    | _ => none
  | .observeAbort => if s.pc = .streaming [] then some { s with pc := .savingPartial .aborted } else none
  -- the stream raises anything, a Redis call nothing the provider takes for a drop; `_emit` does not
  | .fail f => match s.pc with
    | .streaming [] => some (s.handle cfg f)
    | .streaming (op :: _) =>
      if op.awaits ∧ op ≠ .emitStarted ∧ f = .other then some (s.handle cfg f) else none
    | _ => none
  | .finish stop content =>
    if s.pc = .streaming [] then some (s.finish cfg stop content) else none
  | .savePartial => match s.pc with
    | .savingPartial e => some { s with turn := s.turn.savePartial, pc := .deletingKeys e }
    | _ => none
  | .deleteKeys => match s.pc with
    | .deletingKeys e => some ({ s with turn := s.turn.deleteKeys }.raise cfg e)
    | .closing => some { s with turn := s.turn.deleteKeys, pc := .ended (.returned s.blocks) }
    | _ => none
  | .wake => if s.pc = .sleeping then some s.attempting else none
  | .saveMessage =>
    if s.pc = .saving then
      match s.turn.saveMessage ⟨s.blocks, finalThinking s.blocks, false⟩ with
      | some turn => some { s with turn := turn, pc := .completing }
      | none => some { s with pc := .ended .unsaved }
    else none
  -- the completed event, the usage and the commit
  | .completed => if s.pc = .completing then some { s with pc := .closing } else none
  | .cancel => match s.pc with
    | .ended _ => none
    | .streaming (op :: _) => if op.awaits then some { s with pc := .ended .cancelled } else none
    | _ => some { s with pc := .ended .cancelled }

/-- What a step takes a turn from and leaves of it. -/
inductive CompletionStepped (cfg : Settings) (s : Completion) : Action → Completion → Prop where
  | event (e : ApiEvent) (hpc : s.pc = .streaming []) (hin : inBlock s.turn e = true) :
      CompletionStepped cfg s (.event e) { s with pc := .streaming (onEvent s.turn e) }
  | run (sequence : Option ℕ) (op : Op) (ops : List Op) (hpc : s.pc = .streaming (op :: ops)) :
      CompletionStepped cfg s (.run sequence)
        { s with turn := s.turn.run sequence op, pc := .streaming ops }
  | observeAbort (hpc : s.pc = .streaming []) :
      CompletionStepped cfg s .observeAbort { s with pc := .savingPartial .aborted }
  | streamFailed (f : Failure) (hpc : s.pc = .streaming []) :
      CompletionStepped cfg s (.fail f) (s.handle cfg f)
  | callFailed (op : Op) (ops : List Op) (hpc : s.pc = .streaming (op :: ops))
      (hawaits : op.awaits = true) (hop : op ≠ .emitStarted) :
      CompletionStepped cfg s (.fail .other) (s.handle cfg .other)
  | finish (stop : StopReason) (content : List TurnBlock) (hpc : s.pc = .streaming []) :
      CompletionStepped cfg s (.finish stop content) (s.finish cfg stop content)
  | savePartial (e : Ending) (hpc : s.pc = .savingPartial e) :
      CompletionStepped cfg s .savePartial
        { s with turn := s.turn.savePartial, pc := .deletingKeys e }
  | deleteKeys (e : Ending) (hpc : s.pc = .deletingKeys e) :
      CompletionStepped cfg s .deleteKeys ({ s with turn := s.turn.deleteKeys }.raise cfg e)
  | closed (hpc : s.pc = .closing) : CompletionStepped cfg s .deleteKeys
      { s with turn := s.turn.deleteKeys, pc := .ended (.returned s.blocks) }
  | wake (hpc : s.pc = .sleeping) : CompletionStepped cfg s .wake s.attempting
  | saved (turn : Streamed) (hpc : s.pc = .saving)
      (hsave : s.turn.saveMessage ⟨s.blocks, finalThinking s.blocks, false⟩ = some turn) :
      CompletionStepped cfg s .saveMessage { s with turn := turn, pc := .completing }
  | unsaved (hpc : s.pc = .saving)
      (hsave : s.turn.saveMessage ⟨s.blocks, finalThinking s.blocks, false⟩ = none) :
      CompletionStepped cfg s .saveMessage { s with pc := .ended .unsaved }
  | completed (hpc : s.pc = .completing) :
      CompletionStepped cfg s .completed { s with pc := .closing }
  | cancel (hnot : ∀ e, s.pc ≠ .ended e) :
      CompletionStepped cfg s .cancel { s with pc := .ended .cancelled }

/-- Every step is one of these. -/
theorem completionStep_cases {cfg : Settings} {s t : Completion} {a : Action}
    (h : completionStep cfg s a = some t) : CompletionStepped cfg s a t := by
  cases a with
  | event e =>
    simp only [completionStep, Option.ite_none_right_eq_some] at h
    obtain ⟨⟨hpc, hin⟩, rfl⟩ := h.imp_right Option.some.inj
    exact .event e hpc hin
  | run sequence =>
    simp only [completionStep] at h
    split at h
    case h_1 op ops hpc =>
      obtain rfl := Option.some.inj h
      exact .run sequence op ops hpc
    case h_2 => cases h
  | observeAbort =>
    simp only [completionStep, Option.ite_none_right_eq_some] at h
    obtain ⟨hpc, rfl⟩ := h.imp_right Option.some.inj
    exact .observeAbort hpc
  | fail f =>
    simp only [completionStep] at h
    split at h
    case h_1 hpc =>
      obtain rfl := Option.some.inj h
      exact .streamFailed f hpc
    case h_2 op ops hpc =>
      simp only [Option.ite_none_right_eq_some] at h
      obtain ⟨⟨hawaits, hop, rfl⟩, rfl⟩ := h.imp_right Option.some.inj
      exact .callFailed op ops hpc hawaits hop
    case h_3 => cases h
  | finish stop content =>
    simp only [completionStep, Option.ite_none_right_eq_some] at h
    obtain ⟨hpc, rfl⟩ := h.imp_right Option.some.inj
    exact .finish stop content hpc
  | savePartial =>
    simp only [completionStep] at h
    split at h
    case h_1 e hpc =>
      obtain rfl := Option.some.inj h
      exact .savePartial e hpc
    case h_2 => cases h
  | deleteKeys =>
    simp only [completionStep] at h
    split at h
    case h_1 e hpc =>
      obtain rfl := Option.some.inj h
      exact .deleteKeys e hpc
    case h_2 hpc =>
      obtain rfl := Option.some.inj h
      exact .closed hpc
    case h_3 => cases h
  | wake =>
    simp only [completionStep, Option.ite_none_right_eq_some] at h
    obtain ⟨hpc, rfl⟩ := h.imp_right Option.some.inj
    exact .wake hpc
  | saveMessage =>
    simp only [completionStep, Option.ite_none_right_eq_some] at h
    obtain ⟨hpc, h⟩ := h
    split at h
    case h_1 turn hsave =>
      obtain rfl := Option.some.inj h
      exact .saved turn hpc hsave
    case h_2 hsave =>
      obtain rfl := Option.some.inj h
      exact .unsaved hpc hsave
  | completed =>
    simp only [completionStep, Option.ite_none_right_eq_some] at h
    obtain ⟨hpc, rfl⟩ := h.imp_right Option.some.inj
    exact .completed hpc
  | cancel =>
    simp only [completionStep] at h
    split at h
    case h_1 => cases h
    case h_2 op ops hpc =>
      simp only [Option.ite_none_right_eq_some] at h
      obtain ⟨-, rfl⟩ := h.imp_right Option.some.inj
      exact .cancel (by simp [hpc])
    case h_3 hnot _ =>
      obtain rfl := Option.some.inj h
      exact .cancel hnot

/-! ### The law and the condition under which it holds -/

/-- The turn goes on streaming, or is about to. -/
def Completion.goesOn (cfg : Settings) (s : Completion) : Bool :=
  match s.pc with
  | .streaming _ | .sleeping => true
  | .savingPartial e | .deletingKeys e => s.retries cfg e
  | _ => false

def Ending.returns : Ending → Option (List TurnBlock)
  | .returned blocks => some blocks
  | _ => none

/-- What each step must leave: at most one row, delta sequences that increase, no row of a turn that
    goes on, and of a turn that ended the row it is due and no key. -/
structure Lawful (cfg : Settings) (_ : Completion) (_ : Action) (t : Completion) : Prop where
  single : t.turn.rows.length ≤ 1
  increasing : t.turn.numbers.Pairwise (· > ·)
  unstored : t.goesOn cfg = true → t.turn.rows = []
  settled : ∀ e, t.pc = .ended e → t.turn.Settled e.returns

/-- The steps that keep the law. No partial is saved of a round that will be sent again; and a turn
    that came out empty twice, or is cancelled, has not streamed yet. -/
def Clean (cfg : Settings) (s : Completion) : Action → Prop
  | .savePartial => ∀ e, s.pc = .savingPartial e → s.retries cfg e = false
  | .finish stop content => s.asked = true → stop = .endTurn →
      saysAnything (s.blocks ++ content) = false → s.turn.Untouched
  | .cancel => s.turn.Untouched
  | _ => True

/-! ### The invariant -/

def AtPc (cfg : Settings) (s : Completion) : Pc → Prop
  | .streaming ops => s.turn.rows = [] ∧ Pending s.turn ops
  | .sleeping | .saving => s.turn.rows = [] ∧ (s.turn.started = true → s.turn.inflightMeta = true)
  | .savingPartial e => s.turn.rows = [] ∧ (s.retries cfg e = true → s.turn.textParts ≠ []) ∧
      e.returns = none
  | .deletingKeys e => s.retries cfg e = false ∧ ((s.turn.rows = [] ∧ s.turn.Silent) ∨
      (¬ s.turn.Silent ∧ ∃ row, s.turn.rows = [row] ∧ row.isPartial = true ∧
        row.text = s.turn.text)) ∧ e.returns = none
  | .completing | .closing => ∃ row, s.turn.rows = [row] ∧ row.isPartial = false ∧
      row.content = s.blocks
  | .ended _ => True

/-- The invariant: until it ends the turn is as its step has it, and then it is settled. -/
def Kept (cfg : Settings) (s : Completion) : Prop :=
  match s.pc with
  | .ended e => s.turn.numbers.Pairwise (· > ·) ∧ s.turn.Settled e.returns
  | pc => Going s.turn ∧ s.shown ≤ s.turn.textParts.length ∧ AtPc cfg s pc

theorem kept_created (cfg : Settings) : Kept cfg .created :=
  ⟨going_fresh, Nat.zero_le _, rfl,
    .ready (by simp [Completion.created, Streamed.fresh]) (by simp) (by simp)⟩

section
variable {s : Streamed}

theorem mem_builtins {builtins : ℕ} {op : Op}
    (h : op ∈ (List.replicate builtins publishBuiltin).flatten) :
    op = .nextDeltaSequence ∨ op = .publish := by
  obtain ⟨ops, hops, hop⟩ := List.mem_flatten.mp h
  rw [List.eq_of_mem_replicate hops] at hop
  simpa [publishBuiltin] using hop

theorem pending_builtins (hs : s.started = true → s.inflightMeta = true) (builtins : ℕ) :
    Pending s (List.replicate builtins publishBuiltin).flatten := by
  refine .ready hs (fun h => ?_) fun kind text h => ?_
  · rcases mem_builtins h with h | h <;> cases h
  · rcases mem_builtins h with h | h <;> cases h

/-- An event arrives. -/
theorem pending_event (hs : s.started = true → s.inflightMeta = true) {e : ApiEvent}
    (hin : inBlock s e = true) : Pending s (onEvent s e) := by
  cases e with
  | blockStart builtins =>
    rw [onEvent, Streamed.ensureStarted]
    cases hstarted : s.started with
    | true => exact pending_builtins hs builtins
    | false =>
      refine .starting hstarted (fun h => ?_) fun kind text h => ?_
      · rcases mem_builtins h with h | h <;> cases h
      · rcases mem_builtins h with h | h <;> cases h
  | blockStop builtins => exact pending_builtins hs builtins
  | delta kind text =>
    simp only [onEvent]
    split
    case isTrue => exact pending_nil hs
    case isFalse htext =>
      refine .ready hs (by simp [publishDelta]) fun kind' text' h => ?_
      obtain ⟨rfl, rfl⟩ : kind' = kind ∧ text' = text := by simpa [publishDelta] using h
      exact ⟨htext, hs hin⟩
  | other => exact pending_nil hs

end

/-! ### One step, and a run -/

section
variable {cfg : Settings} {s t : Completion}

theorem going_take (hs : Going s.turn) (n : ℕ) :
    Going { s.turn with thinkingParts := s.turn.thinkingParts.take n } where
  increasing := hs.increasing
  bounded := hs.bounded
  base := hs.base
  texts := hs.texts
  marked := fun h => hs.marked (h.imp_right fun hne hnil => hne (by simp [hnil]))

/-- A round that starts over a turn without a row. -/
theorem kept_attempting (hs : Going s.turn) (hrows : s.turn.rows = [])
    (hannounced : s.turn.started = true → s.turn.inflightMeta = true) : Kept cfg s.attempting :=
  ⟨hs, Nat.le_refl _, hrows, pending_nil hannounced⟩

/-- A partial is about to be saved for a reason that no retry follows. -/
theorem kept_savingPartial (hs : Going s.turn) (hrows : s.turn.rows = []) {e : Ending}
    {blocks : List TurnBlock} (he : e ≠ .dropped) (hreturns : e.returns = none)
    (hshown : s.shown ≤ s.turn.textParts.length) :
    Kept cfg { s with blocks := blocks, pc := .savingPartial e } := by
  refine ⟨hs, hshown, hrows, fun hretries => ?_, hreturns⟩
  simp [Completion.retries, he] at hretries

/-- The inner handler. -/
theorem kept_handle (hs : Going s.turn) (hrows : s.turn.rows = []) {f : Failure}
    (hannounced : f = .drop → s.turn.started = true → s.turn.inflightMeta = true)
    (hshown : s.shown ≤ s.turn.textParts.length) : Kept cfg (s.handle cfg f) := by
  rw [Completion.handle]
  split
  case isTrue hdrop =>
    obtain ⟨hleft, htext, rfl⟩ := hdrop
    have hshown' : s.shown = 0 := by simpa [htext] using hshown
    have hretries : s.retries cfg Failure.drop.ending = true := by
      simp [Completion.retries, Failure.ending, hleft, htext, hshown']
    rw [Completion.raise]
    rw [if_pos hretries]
    exact ⟨going_take hs _, hshown, hrows, hannounced rfl⟩
  case isFalse hdrop =>
    refine ⟨hs, hshown, hrows, fun hretries htext => hdrop ?_, by cases f <;> rfl⟩
    simp only [Completion.retries, Bool.and_eq_true, decide_eq_true_eq] at hretries
    refine ⟨hretries.1.2, htext, ?_⟩
    cases f with
    | drop => rfl
    | rateLimit => cases hretries.1.1
    | other => cases hretries.1.1

/-- The final message of a round. -/
theorem kept_finish (hs : Going s.turn) (hrows : s.turn.rows = [])
    (hannounced : s.turn.started = true → s.turn.inflightMeta = true)
    (hshown : s.shown ≤ s.turn.textParts.length) {stop : StopReason} {content : List TurnBlock}
    (hclean : Clean cfg s (.finish stop content)) : Kept cfg (s.finish cfg stop content) := by
  unfold Completion.finish
  dsimp only
  split
  case isTrue => exact kept_attempting hs hrows hannounced
  case isFalse =>
    split
    case isTrue hempty =>
      split
      case isTrue hasked =>
        exact ⟨hs.increasing, (hclean hasked hempty.1 hempty.2).settled⟩
      case isFalse => exact kept_attempting hs hrows hannounced
    case isFalse =>
      split
      case isTrue => exact kept_savingPartial hs hrows (by simp) rfl hshown
      case isFalse =>
        split
        case isTrue => exact kept_savingPartial hs hrows (by simp) rfl hshown
        case isFalse => exact ⟨hs, hshown, hrows, hannounced⟩

/-- What a turn that has not ended keeps at each point. -/
theorem kept_at (hs : Kept cfg s) {pc : Pc} (hpc : s.pc = pc) (hnot : ∀ e, pc ≠ .ended e) :
    Going s.turn ∧ s.shown ≤ s.turn.textParts.length ∧ AtPc cfg s pc := by
  rw [Kept] at hs
  rw [hpc] at hs
  cases pc with
  | ended e => exact absurd rfl (hnot e)
  | _ => exact hs

theorem kept_savePartial (hs : Kept cfg s) {e : Ending} (hpc : s.pc = .savingPartial e)
    (hclean : s.retries cfg e = false) :
    Kept cfg { s with turn := s.turn.savePartial, pc := .deletingKeys e } := by
  obtain ⟨hgoing, hshown, hrows, -, hreturns⟩ := kept_at hs hpc (by simp)
  rcases savePartial_row hrows with ⟨hsilent, hsame⟩ | ⟨hsilent, row, hrow, hpart, htext⟩
  · rw [hsame]
    exact ⟨hgoing, hshown, hclean, .inl ⟨hrows, hsilent⟩, hreturns⟩
  · rw [hrow]
    exact ⟨going_rows hgoing _, hshown,
      hclean, .inr ⟨hsilent, row, rfl, hpart, htext⟩, hreturns⟩

/-- The keys go, and the exception with them. -/
theorem kept_deleteKeys (hs : Kept cfg s) {e : Ending} (hpc : s.pc = .deletingKeys e) :
    Kept cfg ({ s with turn := s.turn.deleteKeys }.raise cfg e) := by
  obtain ⟨hgoing, -, hretries, hrow, hreturns⟩ := kept_at hs hpc (by simp)
  have hretries' : ({ s with turn := s.turn.deleteKeys } : Completion).retries cfg e = false :=
    hretries
  rw [Completion.raise]
  rw [if_neg (by simp [hretries'])]
  refine ⟨hgoing.increasing, deleteKeys_cleared, ?_⟩
  rw [hreturns]
  rcases hrow with hrow | ⟨-, hrow⟩
  · exact .inl hrow
  · exact .inr hrow

/-- A clean step keeps the invariant. -/
theorem kept_step (s : Completion) (a : Action) (t : Completion) (hs : Kept cfg s)
    (hclean : Clean cfg s a) (h : completionStep cfg s a = some t) : Kept cfg t := by
  cases completionStep_cases h with
  | event e hpc hin =>
    obtain ⟨hgoing, hshown, hrows, hpending⟩ := kept_at hs hpc (by simp)
    exact ⟨hgoing, hshown, hrows, pending_event (announced_of_pending hpending) hin⟩
  | run sequence op ops hpc =>
    obtain ⟨hgoing, hshown, hrows, hpending⟩ := kept_at hs hpc (by simp)
    obtain ⟨hgoing', hpending'⟩ := going_run hgoing hpending sequence
    refine ⟨hgoing', le_trans hshown ?_, (run_rows sequence op).trans hrows, hpending'⟩
    cases op with
    | append kind text => cases kind <;> simp [Streamed.run]
    | _ => exact Nat.le_refl _
  | observeAbort hpc =>
    obtain ⟨hgoing, hshown, hrows, -⟩ := kept_at hs hpc (by simp)
    exact kept_savingPartial hgoing hrows (by simp) rfl hshown
  | streamFailed f hpc =>
    obtain ⟨hgoing, hshown, hrows, hpending⟩ := kept_at hs hpc (by simp)
    exact kept_handle hgoing hrows (fun _ => announced_of_pending hpending) hshown
  | callFailed op ops hpc =>
    obtain ⟨hgoing, hshown, hrows, -⟩ := kept_at hs hpc (by simp)
    exact kept_handle hgoing hrows (fun hdrop => by cases hdrop) hshown
  | finish stop content hpc =>
    obtain ⟨hgoing, hshown, hrows, hpending⟩ := kept_at hs hpc (by simp)
    exact kept_finish hgoing hrows (announced_of_pending hpending) hshown hclean
  | savePartial e hpc => exact kept_savePartial hs hpc (hclean e hpc)
  | deleteKeys e hpc => exact kept_deleteKeys hs hpc
  | closed hpc =>
    obtain ⟨hgoing, -, hrow⟩ := kept_at hs hpc (by simp)
    exact ⟨hgoing.increasing, deleteKeys_cleared, hrow⟩
  | wake hpc =>
    obtain ⟨hgoing, -, hrows, hannounced⟩ := kept_at hs hpc (by simp)
    exact kept_attempting hgoing hrows hannounced
  | saved turn hpc hsave =>
    obtain ⟨hgoing, hshown, hrows, -⟩ := kept_at hs hpc (by simp)
    rw [Streamed.saveMessage, if_pos hrows] at hsave
    obtain rfl := Option.some.inj hsave
    exact ⟨going_rows hgoing _, hshown, _, rfl, rfl, rfl⟩
  | unsaved hpc hsave =>
    -- the turn has no row, so its own is not refused
    obtain ⟨-, -, hrows, -⟩ := kept_at hs hpc (by simp)
    rw [Streamed.saveMessage, if_pos hrows] at hsave
    cases hsave
  | completed hpc =>
    obtain ⟨hgoing, hshown, hrow⟩ := kept_at hs hpc (by simp)
    exact ⟨hgoing, hshown, hrow⟩
  | cancel hnot => exact ⟨(kept_at hs rfl hnot).1.increasing, hclean.settled⟩

/-- What the invariant says of a turn, as the law has it. -/
theorem lawful_of_kept {a : Action} (ht : Kept cfg t) : Lawful cfg s a t := by
  cases hpc : t.pc with
  | ended e =>
    rw [Kept] at ht
    rw [hpc] at ht
    obtain ⟨hincreasing, hsettled⟩ := ht
    refine ⟨hsettled.length_le, hincreasing, fun hgoes => ?_, fun e' he' => ?_⟩
    · simp [Completion.goesOn, hpc] at hgoes
    · rw [hpc] at he'
      cases he'
      exact hsettled
  | streaming ops =>
    obtain ⟨hgoing, -, hrows, -⟩ := kept_at ht hpc (by simp)
    exact ⟨by simp [hrows], hgoing.increasing, fun _ => hrows, by simp [hpc]⟩
  | sleeping =>
    obtain ⟨hgoing, -, hrows, -⟩ := kept_at ht hpc (by simp)
    exact ⟨by simp [hrows], hgoing.increasing, fun _ => hrows, by simp [hpc]⟩
  | saving =>
    obtain ⟨hgoing, -, hrows, -⟩ := kept_at ht hpc (by simp)
    exact ⟨by simp [hrows], hgoing.increasing, fun _ => hrows, by simp [hpc]⟩
  | savingPartial e =>
    obtain ⟨hgoing, -, hrows, -⟩ := kept_at ht hpc (by simp)
    exact ⟨by simp [hrows], hgoing.increasing, fun _ => hrows, by simp [hpc]⟩
  | deletingKeys e =>
    obtain ⟨hgoing, -, hretries, hrow, -⟩ := kept_at ht hpc (by simp)
    refine ⟨?_, hgoing.increasing, fun hgoes => ?_, by simp [hpc]⟩
    · rcases hrow with ⟨hrow, -⟩ | ⟨-, row, hrow, -⟩ <;> simp [hrow]
    · simp [Completion.goesOn, hpc, hretries] at hgoes
  | completing =>
    obtain ⟨hgoing, -, row, hrow, -⟩ := kept_at ht hpc (by simp)
    exact ⟨by simp [hrow], hgoing.increasing, by simp [Completion.goesOn, hpc], by simp [hpc]⟩
  | closing =>
    obtain ⟨hgoing, -, row, hrow, -⟩ := kept_at ht hpc (by simp)
    exact ⟨by simp [hrow], hgoing.increasing, by simp [Completion.goesOn, hpc], by simp [hpc]⟩

/-- A turn that was cancelled is settled only if it had not streamed. -/
theorem untouched_of_cancelled (hs : Kept cfg s) (hnot : ∀ e, s.pc ≠ .ended e)
    (h : s.turn.Settled none) : s.turn.Untouched := by
  obtain ⟨hgoing, -, hat⟩ := kept_at hs rfl hnot
  have hrows : s.turn.rows = [] ∨ (¬ s.turn.Silent) ∨
      ∃ row, s.turn.rows = [row] ∧ row.isPartial = false := by
    cases hpc : s.pc with
    | ended e => exact absurd hpc (hnot e)
    | streaming ops | sleeping | saving | savingPartial e =>
      rw [hpc] at hat
      exact .inl hat.1
    | deletingKeys e =>
      rw [hpc] at hat
      rcases hat.2.1 with ⟨hrow, -⟩ | ⟨hsilent, -⟩
      · exact .inl hrow
      · exact .inr (.inl hsilent)
    | completing | closing =>
      rw [hpc] at hat
      obtain ⟨row, hrow, hfinal, -⟩ := hat
      exact .inr (.inr ⟨row, hrow, hfinal⟩)
  exact (settled_iff_untouched (rows_of_settled hgoing h hrows)).mp h

/-- A step that leaves the turn as the law has it is clean. -/
theorem clean_of_lawful {a : Action} (hs : Kept cfg s) (h : completionStep cfg s a = some t)
    (hlawful : Lawful cfg s a t) : Clean cfg s a := by
  cases completionStep_cases h with
  | savePartial e hpc =>
    intro e' hpc'
    obtain rfl : e = e' := Pc.savingPartial.inj (hpc.symm.trans hpc')
    obtain ⟨hgoing, -, hrows, hshowed, -⟩ := kept_at hs hpc (by simp)
    by_contra hretries
    rw [Bool.not_eq_false] at hretries
    have htext := text_ne_empty hgoing (hshowed hretries)
    rcases savePartial_row hrows with ⟨hsilent, -⟩ | ⟨-, row, hrow, -⟩
    · exact not_silent_of_text htext hsilent
    · have hgoes : ({ s with turn := s.turn.savePartial, pc := .deletingKeys e } :
          Completion).goesOn cfg = true := by
        simpa [Completion.goesOn, Completion.retries, hrow] using hretries
      have hnone := hlawful.unstored hgoes
      simp [hrow] at hnone
  | finish stop content hpc =>
    intro hasked hstop hempty
    obtain ⟨-, -, hrows, -⟩ := kept_at hs hpc (by simp)
    have hfinish : s.finish cfg stop content =
        { s with blocks := s.blocks ++ content, pc := .ended .emptyTwice } := by
      simp [Completion.finish, hasked, hstop, hempty]
    rw [hfinish] at hlawful
    exact (settled_iff_untouched hrows).mp (hlawful.settled .emptyTwice rfl)
  | cancel hnot => exact untouched_of_cancelled hs hnot (hlawful.settled .cancelled rfl)
  | _ => trivial

end

/-- EXACT CONDITION: over any rounds, drops and ends, a turn is stored and cleaned up as the law has
    it just when no partial is saved of a round that is sent again, and no turn that streamed is
    cancelled or comes out empty twice. -/
theorem completion_run_iff (cfg : Settings) (as : List Action) :
    EveryStep (completionStep cfg) (Lawful cfg) .created as ↔
      Guarded (completionStep cfg) (Clean cfg) .created as :=
  everyStep_iff_guarded kept_step
    (fun _ _ _ hs h =>
      ⟨clean_of_lawful hs h, fun hclean => lawful_of_kept (kept_step _ _ _ hs hclean h)⟩)
    (kept_created cfg)

/-! ### A drop after a paused round -/

/-- The defaults. -/
def defaults : Settings := ⟨2, 5⟩

/-- The first round shows text and is paused; the second one's connection drops before it shows
    any. -/
def droppedAfterPause : List Action :=
  [.event (.blockStart 0), .run (some 1), .run none,
    .event (.delta .text "Let me look."), .run none, .run none, .run none, .run none,
    .finish .pauseTurn [.text "Let me look."], .fail .drop]

/-- The round will be sent again, but the text of the first is stored as a partial. -/
theorem partial_of_retried_round :
    ¬ EveryStep (completionStep defaults) (Lawful defaults) .created
      (droppedAfterPause ++ [.savePartial]) := by
  intro h
  have hstep := EveryStep.at h
    (rfl : runFrom (completionStep defaults) .created droppedAfterPause = some _) rfl
  have hnone := hstep.unstored (by decide)
  revert hnone
  decide

end LunaCore.Providers.Anthropic
