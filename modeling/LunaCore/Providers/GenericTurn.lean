import LunaCore.Providers.StreamAccumulator
import LunaCore.Schemes.Machine

/-! One turn of `GenericProvider.complete`, over chat completions or over the Responses API.

        chat        chunk ─→ started, once something streams ─→ deltas ─→ calls gathered
        responses   started ─→ ( delta | builtin frame | the completed response )*

        end of the stream ─→ blocks ─→ row ─→ completed event ─→ delete the keys ─→ returned
        raised or aborted ─→ partial ─→ delete the keys ─→ raised

    The `try` ends with the stream. What is raised behind it, over a call's arguments or the final
    row, is raised past the partial and past the keys; a partial that cannot be saved is logged and
    passed over. The partial of an abort is saved inside the `try`, and again when its keys cannot be
    deleted. -/

namespace LunaCore.Providers.Generic
open LunaCore.Values LunaCore.Schemes
open LunaCore.Stream (Kind)

/-- `complete`, or `_complete_via_responses`. -/
inductive Api where
  | chat
  | responses
  deriving DecidableEq

/-- A canonical block of an answer; a call's input is whatever its arguments say. -/
inductive AnswerBlock where
  | thinking (text : String)
  | text (text : String)
  | toolUse (id : Option String) (name : String) (input : Json)
  | webSearchCall (id : Option String) (queries : List String)
  deriving DecidableEq

def AnswerBlock.ofStreamed : StreamedBlock → AnswerBlock
  | .thinking reasoning => .thinking reasoning
  | .text words => .text words
  | .toolUse id name input => .toolUse (some id) name input

/-- The text of the blocks. -/
def textOf (blocks : List AnswerBlock) : String :=
  String.join (blocks.filterMap fun
    | .text text => some text
    | _ => none)

/-! ### The output of the Responses API -/

structure Annotation where
  isUrlCitation : Bool
  url : Option String

structure MessagePart where
  isOutputText : Bool
  text : String
  annotations : List Annotation

inductive OutputItem where
  | reasoning (summary : List String)
  | message (content : List MessagePart)
  | functionCall (callId id : Option String) (name arguments : String)
  | webSearchCall (id query : Option String) (queries : List String)
  | other

/-- The urls a message cites, each once. -/
def citedUrls (parts : List MessagePart) : List String :=
  ((parts.flatMap MessagePart.annotations).filterMap fun annotation =>
    if annotation.isUrlCitation then givenText annotation.url else none).foldl
      (fun urls url => if url ∈ urls then urls else urls ++ [url]) []

/-- The text of a message, with its sources. -/
def messageText (parts : List MessagePart) : String :=
  let text := String.join ((parts.filter MessagePart.isOutputText).map MessagePart.text)
  if text = "" ∨ citedUrls parts = [] then text
  else text ++ "\n\nSources: " ++ ", ".intercalate (citedUrls parts)

/-- The queries of a search. A repeated one is told as it was written, not stripped. -/
def searchQueries (query : Option String) (queries : List String) : List String :=
  (query.toList ++ queries).foldl
    (fun kept q => if blank q ∨ q ∈ kept then kept else kept ++ [strip q]) []

section
variable (loads : String → Loaded)

/-- The blocks of one item. -/
def OutputItem.blocks : OutputItem → Except String (List AnswerBlock)
  | .reasoning summary =>
    .ok (((stripped (" ".intercalate summary)).map AnswerBlock.thinking).toList)
  | .message parts =>
    .ok (if messageText parts = "" then [] else [.text (messageText parts)])
  | .functionCall callId id name arguments => do
    let input ← parseArguments loads (if arguments = "" then "{}" else arguments)
    return [.toolUse ((givenText callId).or id) name input]
  | .webSearchCall id query queries => .ok [.webSearchCall id (searchQueries query queries)]
  | .other => .ok []

/-- `_responses_output_to_blocks`: the blocks, and the last reasoning. -/
def responsesOutputToBlocks (output : List OutputItem) :
    Except String (List AnswerBlock × Option String) := do
  let blocks := (← output.mapM (OutputItem.blocks loads)).flatten
  return (blocks, (blocks.filterMap fun
    | .thinking text => some text
    | _ => none).getLast?)

end

/-! ### A turn -/

/-- What the stream brings: a chunk of a chat answer, or an event of the Responses API. -/
inductive ApiEvent where
  | chunk (choices : List (Option ChoiceDelta))
  | delta (kind : Kind) (text : String)
  | webSearch
  | completed (output : List OutputItem)
  | other

def ApiEvent.api : ApiEvent → Api
  | .chunk _ => .chat
  | .delta .. | .webSearch | .completed _ | .other => .responses

/-- How a turn ends. `unbuilt` is what was raised over a call's arguments, `unsaved` what was raised
    over the final row, its event, its usage or its keys. -/
inductive Ending where
  | returned (blocks : List AnswerBlock)
  | aborted
  | rateLimited
  | failed
  | unbuilt (error : String)
  | unsaved
  | cancelled

def Ending.returns : Ending → Option (List AnswerBlock)
  | .returned blocks => some blocks
  | _ => none

/-- Where a turn stands; an exception being handled is named by the end it leads to. `calls` are the
    fragments of the chunk at hand, which are gathered after its text. -/
inductive Pc where
  | opening (ops : List Op)
  | streaming (ops : List Op) (calls : List ToolFragment)
  | savingPartial (e : Ending)
  | deletingKeys (e : Ending)
  | saving (blocks : List AnswerBlock) (thinking : Option String)
  | completing (blocks : List AnswerBlock)
  | closing (blocks : List AnswerBlock)
  | ended (e : Ending)

structure Row where
  content : List AnswerBlock
  thinking : Option String
  isPartial : Bool

/-- A turn. The rows with its message id are its own; those of `turn` stay empty. -/
structure Completion where
  api : Api
  turn : Streamed
  toolCalls : Table ℤ ToolSlot
  finalResponse : Option (List OutputItem)
  rows : List Row
  pc : Pc

def Completion.opened (api : Api) : Completion where
  api := api
  turn := .fresh
  toolCalls := ∅
  finalResponse := none
  rows := []
  pc := match api with
    | .chat => .streaming [] []
    | .responses => .opening [.emitStarted, .writeInflightMeta]

inductive Action where
  | event (e : ApiEvent)
  | run (sequence : Option ℕ)
  | observeAbort
  | fail (rateLimit : Bool)
  | finish
  -- whether the row is there after it; what is raised over it is logged
  | savePartial (stored : Bool)
  | deleteKeys
  | saveMessage
  | completed
  | cancel

def Completion.accumulator (s : Completion) : Accumulator :=
  ⟨s.turn.textParts, s.turn.thinkingParts, s.toolCalls⟩

variable (str : Json → String) (loads : String → Loaded)

/-- What to do for a delta. -/
def opsOf : Delta → List Op
  | .text text => publishDelta .text text
  | .thinking text => publishDelta .thinking text
  | .toolCalls _ => []

/-- The fragments of a chunk. -/
def fragmentsOf (choices : List (Option ChoiceDelta)) : List ToolFragment :=
  (chunkDeltas str choices).flatMap Delta.fragments

/-- What to do for an event. A chunk announces the turn once something streams. -/
def onEvent (s : Streamed) : ApiEvent → List Op
  | .chunk choices =>
    let ops := (chunkDeltas str choices).flatMap opsOf
    if ops = [] ∧ fragmentsOf str choices = [] then [] else s.ensureStarted ++ ops
  | .delta kind text => if text = "" then [] else publishDelta kind text
  | .webSearch => publishBuiltin
  | .completed _ | .other => []

def callsOf : ApiEvent → List ToolFragment
  | .chunk choices => fragmentsOf str choices
  | _ => []

def ApiEvent.response : ApiEvent → Option (List OutputItem)
  | .completed output => some output
  | _ => none

/-- On to the next await, or past the chunk's calls to the next chunk. -/
def Completion.proceed (s : Completion) (ops : List Op) (calls : List ToolFragment) : Completion :=
  if ops = [] then
    { s with toolCalls := calls.foldl Accumulator.addFragment s.toolCalls, pc := .streaming [] [] }
  else { s with pc := .streaming ops calls }

/-- `to_canonical`; of a turn that gathered no calls, also what `_save_partial_blocks` stores. -/
def Completion.streamedBlocks (s : Completion) : Except String (List AnswerBlock × Option String) :=
  (s.accumulator.toCanonical loads).map fun canonical =>
    (canonical.1.map .ofStreamed, canonical.2)

/-- The blocks of the answer: of the completed response, where there is one. -/
def Completion.finalBlocks (s : Completion) : Except String (List AnswerBlock × Option String) :=
  match s.finalResponse with
  | some output => responsesOutputToBlocks loads output
  | none => s.streamedBlocks loads

/-- The stream is over. -/
def Completion.finish (s : Completion) : Completion :=
  match s.finalBlocks loads with
  | .ok (blocks, thinking) => { s with pc := .saving blocks thinking }
  | .error error => { s with pc := .ended (.unbuilt error) }

/-- `_save_partial`, up to the keys. A row that cannot be stored, as where there is one with the id
    of the turn, is logged and passed over. -/
def Completion.savePartial (s : Completion) (e : Ending) (stored : Bool) : Completion :=
  match s.streamedBlocks loads with
  | .ok ([], _) => { s with pc := .deletingKeys e }
  | .ok (blocks, thinking) =>
    { s with
      rows := if stored = true ∧ s.rows = [] then [⟨blocks, thinking, true⟩] else s.rows
      pc := .deletingKeys e }
  | .error error => { s with pc := .ended (.unbuilt error) }

/-- What is raised at the await at hand, by the stream, the store or Redis. -/
def Completion.raise (s : Completion) : Option Completion :=
  match s.pc with
  -- before the stream is read nothing is caught
  | .opening _ => some { s with pc := .ended .failed }
  | .streaming [] [] => some { s with pc := .savingPartial .failed }
  | .streaming (op :: _) _ => if op.awaits then some { s with pc := .savingPartial .failed } else none
  -- still inside the `try`, so the partial is saved again
  | .deletingKeys .aborted => some { s with pc := .savingPartial .failed }
  | .deletingKeys _ => some { s with pc := .ended .failed }
  | .saving .. | .completing _ | .closing _ => some { s with pc := .ended .unsaved }
  | _ => none

/-- One step of a turn. -/
def completionStep (s : Completion) : Action → Option Completion
  | .event e => match s.pc with
    | .streaming [] [] =>
      if e.api = s.api then
        some ({ s with finalResponse := e.response.or s.finalResponse }.proceed
          (onEvent str s.turn e) (callsOf str e))
      else none
    | _ => none
  | .run sequence => match s.pc with
    | .opening (op :: ops) =>
      some { s with
        turn := s.turn.run sequence op
        pc := if ops = [] then .streaming [] [] else .opening ops }
    | .streaming (op :: ops) calls => some ({ s with turn := s.turn.run sequence op }.proceed ops calls)
    | _ => none
  | .observeAbort => match s.pc with
    | .streaming [] [] => some { s with pc := .savingPartial .aborted }
    | _ => none
  -- only the stream raises what the provider takes for a rate limit
  | .fail true => match s.pc with
    | .streaming [] [] => some { s with pc := .savingPartial .rateLimited }
    | _ => none
  | .fail false => s.raise
  | .finish => match s.pc with
    | .streaming [] [] => some (s.finish loads)
    | _ => none
  | .savePartial stored => match s.pc with
    | .savingPartial e => some (s.savePartial loads e stored)
    | _ => none
  | .deleteKeys => match s.pc with
    | .deletingKeys e => some { s with turn := s.turn.deleteKeys, pc := .ended e }
    | .closing blocks => some { s with turn := s.turn.deleteKeys, pc := .ended (.returned blocks) }
    | _ => none
  | .saveMessage => match s.pc with
    | .saving blocks thinking =>
      if s.rows = [] then
        some { s with rows := [⟨blocks, thinking, false⟩], pc := .completing blocks }
      else some { s with pc := .ended .unsaved }
    | _ => none
  -- the completed event, the usage and the commit
  | .completed => match s.pc with
    | .completing blocks => some { s with pc := .closing blocks }
    | _ => none
  | .cancel => match s.pc with
    | .ended _ => none
    | .streaming (op :: _) _ => if op.awaits then some { s with pc := .ended .cancelled } else none
    | _ => some { s with pc := .ended .cancelled }

/-- What is raised here is caught, and a partial is saved. -/
def Completion.handles (s : Completion) : Bool :=
  match s.pc with
  | .streaming .. | .deletingKeys .aborted => true
  | _ => false

/-- What a step takes a turn from and leaves of it. -/
inductive CompletionStepped (s : Completion) : Action → Completion → Prop where
  | event (e : ApiEvent) (hpc : s.pc = .streaming [] []) (hapi : e.api = s.api) :
      CompletionStepped s (.event e) ({ s with
        finalResponse := e.response.or s.finalResponse }.proceed
          (onEvent str s.turn e) (callsOf str e))
  | opened (sequence : Option ℕ) (op : Op) (ops : List Op) (hpc : s.pc = .opening (op :: ops)) :
      CompletionStepped s (.run sequence) { s with
        turn := s.turn.run sequence op
        pc := if ops = [] then .streaming [] [] else .opening ops }
  | ran (sequence : Option ℕ) (op : Op) (ops : List Op) (calls : List ToolFragment)
      (hpc : s.pc = .streaming (op :: ops) calls) :
      CompletionStepped s (.run sequence)
        ({ s with turn := s.turn.run sequence op }.proceed ops calls)
  | observedAbort (hpc : s.pc = .streaming [] []) :
      CompletionStepped s .observeAbort { s with pc := .savingPartial .aborted }
  | lost (e : Ending) (he : e.returns = none) (hnot : ∀ e, s.pc ≠ .ended e)
      (hhandles : s.handles = false) : CompletionStepped s (.fail false) { s with pc := .ended e }
  | again (hpc : s.pc = .deletingKeys .aborted) :
      CompletionStepped s (.fail false) { s with pc := .savingPartial .failed }
  | raised (rateLimit : Bool) (ops : List Op) (calls : List ToolFragment) (e : Ending)
      (hpc : s.pc = .streaming ops calls) (he : e.returns = none) :
      CompletionStepped s (.fail rateLimit) { s with pc := .savingPartial e }
  | finished (hpc : s.pc = .streaming [] []) : CompletionStepped s .finish (s.finish loads)
  | partialSaved (e : Ending) (stored : Bool) (hpc : s.pc = .savingPartial e) :
      CompletionStepped s (.savePartial stored) (s.savePartial loads e stored)
  | keysDeleted (e : Ending) (hpc : s.pc = .deletingKeys e) :
      CompletionStepped s .deleteKeys { s with turn := s.turn.deleteKeys, pc := .ended e }
  | closed (blocks : List AnswerBlock) (hpc : s.pc = .closing blocks) :
      CompletionStepped s .deleteKeys
        { s with turn := s.turn.deleteKeys, pc := .ended (.returned blocks) }
  | saved (blocks : List AnswerBlock) (thinking : Option String)
      (hpc : s.pc = .saving blocks thinking) (hrows : s.rows = []) :
      CompletionStepped s .saveMessage
        { s with rows := [⟨blocks, thinking, false⟩], pc := .completing blocks }
  | unsaved (blocks : List AnswerBlock) (thinking : Option String)
      (hpc : s.pc = .saving blocks thinking) (hrows : s.rows ≠ []) :
      CompletionStepped s .saveMessage { s with pc := .ended .unsaved }
  | completed (blocks : List AnswerBlock) (hpc : s.pc = .completing blocks) :
      CompletionStepped s .completed { s with pc := .closing blocks }
  | cancelled (hnot : ∀ e, s.pc ≠ .ended e) :
      CompletionStepped s .cancel { s with pc := .ended .cancelled }

theorem stepped_of_raise {s t : Completion} (h : s.raise = some t) :
    CompletionStepped str loads s (.fail false) t := by
  obtain ⟨api, turn, toolCalls, finalResponse, rows, pc⟩ := s
  cases pc with
  | opening ops =>
    obtain rfl := Option.some.inj h
    exact .lost .failed rfl (by simp) rfl
  | streaming ops calls =>
    cases ops with
    | nil =>
      cases calls with
      | nil =>
        obtain rfl := Option.some.inj h
        exact .raised false [] [] .failed rfl rfl
      | cons => cases h
    | cons op ops =>
      simp only [Completion.raise, Option.ite_none_right_eq_some] at h
      obtain ⟨-, rfl⟩ := h.imp_right Option.some.inj
      exact .raised false (op :: ops) calls .failed rfl rfl
  | savingPartial e => cases h
  | deletingKeys e =>
    cases e with
    | aborted =>
      obtain rfl := Option.some.inj h
      exact .again rfl
    | _ =>
      obtain rfl := Option.some.inj h
      exact .lost .failed rfl (by simp) rfl
  | saving blocks thinking | completing blocks | closing blocks =>
    obtain rfl := Option.some.inj h
    exact .lost .unsaved rfl (by simp) rfl
  | ended e => cases h

/-- Every step is one of these. -/
theorem completionStep_cases {s t : Completion} {a : Action}
    (h : completionStep str loads s a = some t) : CompletionStepped str loads s a t := by
  obtain ⟨api, turn, toolCalls, finalResponse, rows, pc⟩ := s
  cases a with
  | event e =>
    simp only [completionStep] at h
    split at h
    case h_1 =>
      simp only [Option.ite_none_right_eq_some] at h
      obtain ⟨hapi, rfl⟩ := h.imp_right Option.some.inj
      exact .event e rfl hapi
    case h_2 => cases h
  | run sequence =>
    simp only [completionStep] at h
    split at h
    case h_1 op ops =>
      obtain rfl := Option.some.inj h
      exact .opened sequence op ops rfl
    case h_2 op ops calls =>
      obtain rfl := Option.some.inj h
      exact .ran sequence op ops calls rfl
    case h_3 => cases h
  | observeAbort =>
    simp only [completionStep] at h
    split at h
    case h_1 =>
      obtain rfl := Option.some.inj h
      exact .observedAbort rfl
    case h_2 => cases h
  | fail rateLimit =>
    cases rateLimit with
    | true =>
      simp only [completionStep] at h
      split at h
      case h_1 =>
        obtain rfl := Option.some.inj h
        exact .raised true [] [] _ rfl rfl
      case h_2 => cases h
    | false => exact stepped_of_raise str loads h
  | finish =>
    simp only [completionStep] at h
    split at h
    case h_1 =>
      obtain rfl := Option.some.inj h
      exact .finished rfl
    case h_2 => cases h
  | savePartial stored =>
    simp only [completionStep] at h
    split at h
    case h_1 e =>
      obtain rfl := Option.some.inj h
      exact .partialSaved e stored rfl
    case h_2 => cases h
  | deleteKeys =>
    simp only [completionStep] at h
    split at h
    case h_1 e =>
      obtain rfl := Option.some.inj h
      exact .keysDeleted e rfl
    case h_2 blocks =>
      obtain rfl := Option.some.inj h
      exact .closed blocks rfl
    case h_3 => cases h
  | saveMessage =>
    simp only [completionStep] at h
    split at h
    case h_1 blocks thinking =>
      split at h
      case isTrue hrows =>
        obtain rfl := Option.some.inj h
        exact .saved blocks thinking rfl hrows
      case isFalse hrows =>
        obtain rfl := Option.some.inj h
        exact .unsaved blocks thinking rfl hrows
    case h_2 => cases h
  | completed =>
    simp only [completionStep] at h
    split at h
    case h_1 blocks =>
      obtain rfl := Option.some.inj h
      exact .completed blocks rfl
    case h_2 => cases h
  | cancel =>
    simp only [completionStep] at h
    split at h
    case h_1 => cases h
    case h_2 op ops calls =>
      simp only [Option.ite_none_right_eq_some] at h
      obtain ⟨-, rfl⟩ := h.imp_right Option.some.inj
      exact .cancelled (by simp)
    case h_3 hnot _ =>
      obtain rfl := Option.some.inj h
      exact .cancelled hnot

/-! ### The law and the condition under which it holds -/

/-- Nothing streamed that a partial would hold. -/
def Completion.Silent (s : Completion) : Prop := s.streamedBlocks loads = .ok ([], none)

/-- How an ended turn is to be left: no key, and the row it is due. A turn that returned has the
    final row, with the text shown so far unless a completed response says another; one that did not
    has a partial with the text shown so far, or none if nothing streamed. -/
structure Completion.Settled (s : Completion) (returned : Option (List AnswerBlock)) : Prop where
  cleared : s.turn.Cleared
  row : match returned with
    | some blocks => ∃ row, s.rows = [row] ∧ row.isPartial = false ∧ row.content = blocks ∧
        (s.finalResponse = none → textOf blocks = s.turn.text)
    | none => (s.rows = [] ∧ s.Silent loads) ∨ ∃ row, s.rows = [row] ∧ row.isPartial = true ∧
        textOf row.content = s.turn.text

/-- The turn holds no key, has no row and streamed nothing. -/
structure Completion.Untouched (s : Completion) : Prop where
  cleared : s.turn.Cleared
  rows : s.rows = []
  silent : s.Silent loads

/-- The turn goes on streaming, or is about to. -/
def Completion.goesOn (s : Completion) : Bool :=
  match s.pc with
  | .opening _ | .streaming .. => true
  | _ => false

/-- What each step must leave: at most one row, delta sequences that increase, no row of a turn that
    goes on, and of a turn that ended the row it is due and no key. -/
structure Lawful (_ : Completion) (_ : Action) (t : Completion) : Prop where
  single : t.rows.length ≤ 1
  increasing : t.turn.numbers.Pairwise (· > ·)
  unstored : t.goesOn = true → t.rows = []
  settled : ∀ e, t.pc = .ended e → t.Settled loads e.returns

/-- The steps that keep the law: the blocks come to be; the keys go only when the partial of what
    streamed is stored; and of what is cancelled, or raised where nothing catches it, there is
    nothing yet. -/
def Clean (s : Completion) : Action → Prop
  | .finish => ∃ answer, s.finalBlocks loads = .ok answer
  | .savePartial _ => ∃ answer, s.streamedBlocks loads = .ok answer
  | .deleteKeys => s.rows = [] → s.Silent loads
  | .fail _ => s.handles = true ∨ s.Untouched loads
  | .cancel => s.Untouched loads
  | _ => True

/-! ### The invariant -/

/-- A turn that has not ended: whatever it gathered is behind its meta key. -/
structure Marked (s : Completion) : Prop where
  going : Going s.turn
  gathered : s.toolCalls.keys ≠ [] → s.turn.inflightMeta = true
  responded : s.finalResponse ≠ none → s.turn.inflightMeta = true

/-- The turn has no row yet, or the partial with the text shown so far. -/
def Completion.NoFinal (s : Completion) : Prop :=
  s.rows = [] ∨ (¬ s.Silent loads ∧ ∃ row, s.rows = [row] ∧ row.isPartial = true ∧
    textOf row.content = s.turn.text)

def AtPc (s : Completion) : Pc → Prop
  | .opening ops => s.rows = [] ∧ s.finalResponse = none ∧ s.toolCalls.keys = [] ∧
      ((ops = [.emitStarted, .writeInflightMeta] ∧ s.turn = .fresh) ∨
        (ops = [.writeInflightMeta] ∧ ∃ sequence, s.turn = Streamed.fresh.run sequence .emitStarted))
  | .streaming ops calls => s.rows = [] ∧ Pending s.turn ops ∧
      (calls ≠ [] → s.turn.started = true ∨ .emitStarted ∈ ops) ∧
      (s.api = .responses → s.turn.inflightMeta = true)
  | .savingPartial e | .deletingKeys e => e.returns = none ∧ s.NoFinal loads
  | .saving blocks _ => s.rows = [] ∧ (s.finalResponse = none → textOf blocks = s.turn.text)
  | .completing blocks | .closing blocks => ∃ row, s.rows = [row] ∧ row.isPartial = false ∧
      row.content = blocks ∧ (s.finalResponse = none → textOf blocks = s.turn.text)
  | .ended _ => True

/-- The invariant: until it ends the turn is as its step has it, and then it is settled. -/
def Kept (s : Completion) : Prop :=
  match s.pc with
  | .ended e => s.turn.numbers.Pairwise (· > ·) ∧ s.Settled loads e.returns
  | pc => Marked s ∧ AtPc loads s pc

theorem kept_opened (api : Api) : Kept loads (.opened api) := by
  have hmarked : Marked (.opened api) :=
    ⟨going_fresh, fun h => absurd rfl h, fun h => absurd rfl h⟩
  cases api with
  | chat =>
    exact ⟨hmarked, rfl, pending_nil (by simp [Completion.opened, Streamed.fresh]), by simp,
      by simp [Completion.opened]⟩
  | responses => exact ⟨hmarked, rfl, rfl, rfl, .inl ⟨rfl, rfl⟩⟩

/-! ### The blocks of a turn -/

/-- The blocks of an accumulator: thinking, text, and then calls. -/
theorem toCanonical_eq_ok {a : Accumulator} {blocks : List StreamedBlock} {thinking : Option String}
    (h : a.toCanonical loads = .ok (blocks, thinking)) :
    thinking = stripped (String.join a.thinkingParts) ∧ ∃ tools,
      blocks = (thinking.map StreamedBlock.thinking).toList ++
        (if String.join a.textParts = "" then [] else [.text (String.join a.textParts)]) ++ tools ∧
      ∀ block ∈ tools, ∃ id name input, block = .toolUse id name input := by
  change ((sortedKeys a.toolCalls).mapM fun index =>
    toolBlock loads index ((a.toolCalls.lookup index).getD .empty)).bind (fun tools =>
      .ok (((stripped (String.join a.thinkingParts)).map StreamedBlock.thinking).toList ++
        (if String.join a.textParts = "" then [] else [.text (String.join a.textParts)]) ++ tools,
        stripped (String.join a.thinkingParts))) = .ok (blocks, thinking) at h
  obtain ⟨tools, htools, heq⟩ := bind_eq_ok_iff.mp h
  simp only [Except.ok.injEq, Prod.mk.injEq] at heq
  obtain ⟨rfl, rfl⟩ := heq
  refine ⟨rfl, tools, rfl, fun block hblock => ?_⟩
  obtain ⟨index, -, hindex⟩ := mem_of_mapM_eq_ok htools hblock
  obtain ⟨input, -, rfl⟩ := (toolBlock_eq_ok_iff loads).mp hindex
  exact ⟨_, _, input, rfl⟩

section
variable {s : Completion}

/-- What streamed is stored with the text that was shown. -/
theorem streamedBlocks_text {answer : List AnswerBlock × Option String}
    (h : s.streamedBlocks loads = .ok answer) : textOf answer.1 = s.turn.text := by
  obtain ⟨⟨blocks, thinking⟩, hcanonical, rfl⟩ := map_eq_ok_iff.mp h
  obtain ⟨-, tools, rfl, htools⟩ := toCanonical_eq_ok loads hcanonical
  have hcalls : (tools.map AnswerBlock.ofStreamed).filterMap (fun
      | .text text => some text
      | _ => none) = [] := by
    refine List.filterMap_eq_nil_iff.mpr fun block hblock => ?_
    obtain ⟨streamed, hstreamed, rfl⟩ := List.mem_map.mp hblock
    obtain ⟨id, name, input, rfl⟩ := htools streamed hstreamed
    rfl
  rw [textOf, List.map_append, List.filterMap_append, hcalls, Streamed.text]
  cases thinking <;>
    by_cases htext : String.join s.turn.textParts = "" <;>
    simp [htext, Completion.accumulator, AnswerBlock.ofStreamed]

/-- A turn without its meta key has gathered nothing. -/
theorem silent_of_unmarked (hs : Marked s) (h : s.turn.inflightMeta = false) :
    s.Silent loads ∧ s.finalResponse = none := by
  have hnot {p : Prop} (himp : p → s.turn.inflightMeta = true) : ¬ p := fun hp => by
    rw [himp hp] at h
    cases h
  obtain ⟨htext, hthinking⟩ := not_or.mp (hnot hs.going.marked)
  have hkeys := not_not.mp (hnot hs.gathered)
  refine ⟨?_, not_not.mp (hnot hs.responded)⟩
  rw [Completion.Silent, Completion.streamedBlocks, Completion.accumulator, not_not.mp htext,
    not_not.mp hthinking, Accumulator.toCanonical, sortedKeys, hkeys]
  rfl

theorem marked_of_not_silent (hs : Marked s) (h : ¬ s.Silent loads) :
    s.turn.inflightMeta = true := by
  cases hmeta : s.turn.inflightMeta with
  | true => rfl
  | false => exact absurd (silent_of_unmarked loads hs hmeta).1 h

end

/-! ### What is left to do for an event -/

theorem opsOf_append {deltas : List Delta} {kind : Kind} {text : String}
    (h : .append kind text ∈ deltas.flatMap opsOf) : .text text ∈ deltas ∨ .thinking text ∈ deltas := by
  obtain ⟨delta, hdelta, hop⟩ := List.mem_flatMap.mp h
  cases delta with
  | text shown =>
    obtain ⟨rfl, rfl⟩ : kind = .text ∧ text = shown := by simpa [opsOf, publishDelta] using hop
    exact .inl hdelta
  | thinking shown =>
    obtain ⟨rfl, rfl⟩ : kind = .thinking ∧ text = shown := by simpa [opsOf, publishDelta] using hop
    exact .inr hdelta
  | toolCalls fragments => cases hop

theorem opsOf_once (deltas : List Delta) : Op.emitStarted ∉ deltas.flatMap opsOf := by
  intro h
  obtain ⟨delta, -, hop⟩ := List.mem_flatMap.mp h
  cases delta <;> simp [opsOf, publishDelta] at hop

/-- A chunk hands over no empty text. -/
theorem chunkDeltas_given {choices : List (Option ChoiceDelta)} {text : String}
    (h : .text text ∈ chunkDeltas str choices ∨ .thinking text ∈ chunkDeltas str choices) :
    text ≠ "" := by
  match choices with
  | [] | none :: _ => simp [chunkDeltas] at h
  | some delta :: _ =>
    simp only [chunkDeltas, List.mem_append, Option.mem_toList, Option.map_eq_some_iff, Delta.text.injEq,
      Delta.thinking.injEq, reduceCtorEq, and_false, exists_false, or_false,
      false_or, exists_eq_right, givenText, Option.filter_eq_some_iff, decide_eq_true_eq] at h
    rcases h with h | h
    · exact h.2
    · exact h.2

section
variable {s : Streamed}

/-- An event arrives. -/
theorem pending_event (hs : s.started = true → s.inflightMeta = true) {e : ApiEvent}
    (hapi : e.api = .responses → s.inflightMeta = true) : Pending s (onEvent str s e) := by
  cases e with
  | chunk choices =>
    have happends : ∀ kind text, .append kind text ∈ (chunkDeltas str choices).flatMap opsOf →
        text ≠ "" := fun kind text h => chunkDeltas_given str (opsOf_append h)
    simp only [onEvent]
    split
    case isTrue => exact pending_nil hs
    case isFalse =>
      rw [Streamed.ensureStarted]
      cases hstarted : s.started with
      | true => exact .ready hs (opsOf_once _) fun kind text h => ⟨happends kind text h, hs hstarted⟩
      | false => exact .starting hstarted (opsOf_once _) happends
  | delta kind text =>
    simp only [onEvent]
    split
    case isTrue => exact pending_nil hs
    case isFalse htext =>
      refine .ready hs (by simp [publishDelta]) fun kind' text' h => ?_
      obtain ⟨rfl, rfl⟩ : kind' = kind ∧ text' = text := by simpa [publishDelta] using h
      exact ⟨htext, hapi rfl⟩
  | webSearch => exact .ready hs (by simp [onEvent, publishBuiltin]) (by simp [onEvent, publishBuiltin])
  | completed output => exact pending_nil hs
  | other => exact pending_nil hs

/-- Calls are gathered of an announced turn. -/
theorem calls_announced {e : ApiEvent} (h : callsOf str e ≠ []) :
    s.started = true ∨ .emitStarted ∈ onEvent str s e := by
  cases e with
  | chunk choices =>
    have hcalls : fragmentsOf str choices ≠ [] := h
    simp only [onEvent, hcalls, and_false, if_false, Streamed.ensureStarted]
    cases hstarted : s.started with
    | true => exact .inl rfl
    | false => exact .inr (by simp)
  | _ => exact absurd rfl h

@[simp] theorem run_marked (h : s.inflightMeta = true) (sequence : Option ℕ) (op : Op) :
    (s.run sequence op).inflightMeta = true := by
  cases op with
  | append kind text => cases kind <;> exact h
  | writeInflightMeta => rfl
  | _ => exact h

/-- Once announced a turn stays so. -/
theorem run_started {sequence : Option ℕ} {op : Op} {ops : List Op}
    (h : s.started = true ∨ .emitStarted ∈ op :: ops) :
    (s.run sequence op).started = true ∨ .emitStarted ∈ ops := by
  cases op with
  | emitStarted => exact .inl rfl
  | append kind text =>
    refine h.imp (fun hs => ?_) (fun hmem => by simpa using hmem)
    cases kind <;> exact hs
  | _ => exact h.imp id fun hmem => by simpa using hmem

end

/-! ### One step, and a run -/

section
variable {s t : Completion}

/-- What a turn that has not ended keeps at each point. -/
theorem kept_at (hs : Kept loads s) {pc : Pc} (hpc : s.pc = pc) (hnot : ∀ e, pc ≠ .ended e) :
    Marked s ∧ AtPc loads s pc := by
  rw [Kept] at hs
  rw [hpc] at hs
  cases pc with
  | ended e => exact absurd rfl (hnot e)
  | _ => exact hs

/-- On to the next await. -/
theorem kept_proceed (hs : Marked s) (hrows : s.rows = []) {ops : List Op}
    {calls : List ToolFragment} (hpending : Pending s.turn ops)
    (hcalls : calls ≠ [] → s.turn.started = true ∨ .emitStarted ∈ ops)
    (hapi : s.api = .responses → s.turn.inflightMeta = true) : Kept loads (s.proceed ops calls) := by
  rw [Completion.proceed]
  split
  case isFalse => exact ⟨⟨hs.going, hs.gathered, hs.responded⟩, hrows, hpending, hcalls, hapi⟩
  case isTrue hops =>
    subst hops
    refine ⟨⟨hs.going, fun hkeys => ?_, hs.responded⟩, hrows, hpending, fun h => absurd rfl h, hapi⟩
    by_cases hnone : calls = []
    · subst hnone
      exact hs.gathered hkeys
    · exact announced_of_pending hpending ((hcalls hnone).resolve_right (List.not_mem_nil))

/-- An event arrives. -/
theorem kept_event (hs : Kept loads s) (hpc : s.pc = .streaming [] []) {e : ApiEvent}
    (hapi : e.api = s.api) : Kept loads ({ s with
      finalResponse := e.response.or s.finalResponse }.proceed (onEvent str s.turn e)
        (callsOf str e)) := by
  obtain ⟨hmarked, hrows, hpending, -, hmeta⟩ := kept_at loads hs hpc (by simp)
  have hmarked' : Marked { s with finalResponse := e.response.or s.finalResponse } := by
    refine ⟨hmarked.going, hmarked.gathered, fun hresponse => ?_⟩
    cases e with
    | completed output => exact hmeta hapi.symm
    | _ => exact hmarked.responded hresponse
  exact kept_proceed loads hmarked' hrows
    (pending_event str (announced_of_pending hpending) fun h => hmeta (hapi ▸ h))
    (calls_announced str) hmeta

/-- One thing done for an event. -/
theorem kept_ran (hs : Kept loads s) {op : Op} {ops : List Op} {calls : List ToolFragment}
    (hpc : s.pc = .streaming (op :: ops) calls) (sequence : Option ℕ) :
    Kept loads ({ s with turn := s.turn.run sequence op }.proceed ops calls) := by
  obtain ⟨hmarked, hrows, hpending, hcalls, hmeta⟩ := kept_at loads hs hpc (by simp)
  obtain ⟨hgoing, hpending'⟩ := going_run hmarked.going hpending sequence
  have hmarked' : Marked { s with turn := s.turn.run sequence op } :=
    ⟨hgoing, fun h => run_marked (hmarked.gathered h) _ _,
      fun h => run_marked (hmarked.responded h) _ _⟩
  exact kept_proceed loads hmarked' hrows hpending' (fun h => run_started (hcalls h))
    fun h => run_marked (hmeta h) _ _

/-- A Responses turn is announced. -/
theorem kept_opening (hs : Kept loads s) {op : Op} {ops : List Op}
    (hpc : s.pc = .opening (op :: ops)) (sequence : Option ℕ) :
    Kept loads { s with
      turn := s.turn.run sequence op
      pc := if ops = [] then .streaming [] [] else .opening ops } := by
  obtain ⟨hmarked, hrows, hfinal, hkeys, hstands⟩ := kept_at loads hs hpc (by simp)
  rcases hstands with ⟨hops, hturn⟩ | ⟨hops, first, hturn⟩
  · obtain ⟨rfl, rfl⟩ := List.cons.inj hops
    have hpending : Pending s.turn [.emitStarted, .writeInflightMeta] :=
      .starting (by rw [hturn]; rfl) (by simp) (by simp)
    have hgoing := (going_run hmarked.going hpending sequence).1
    exact ⟨⟨hgoing, fun h => absurd hkeys h, fun h => absurd hfinal h⟩, hrows, hfinal, hkeys,
      .inr ⟨rfl, sequence, by rw [hturn]⟩⟩
  · obtain ⟨rfl, rfl⟩ := List.cons.inj hops
    have hpending : Pending s.turn [.writeInflightMeta] := .writing (by simp) (by simp)
    have hgoing := (going_run hmarked.going hpending sequence).1
    exact ⟨⟨hgoing, fun _ => rfl, fun _ => rfl⟩, hrows, pending_nil fun _ => rfl,
      fun h => absurd rfl h, fun _ => rfl⟩

/-- The stream is over, and the blocks come to be. -/
theorem kept_finish (hs : Kept loads s) (hpc : s.pc = .streaming [] [])
    (hclean : ∃ answer, s.finalBlocks loads = .ok answer) : Kept loads (s.finish loads) := by
  obtain ⟨hmarked, hrows, -⟩ := kept_at loads hs hpc (by simp)
  obtain ⟨⟨blocks, thinking⟩, hblocks⟩ := hclean
  rw [Completion.finish]
  rw [hblocks]
  refine ⟨⟨hmarked.going, hmarked.gathered, hmarked.responded⟩, hrows, fun hnone => ?_⟩
  have hnone : s.finalResponse = none := hnone
  rw [Completion.finalBlocks] at hblocks
  rw [hnone] at hblocks
  exact streamedBlocks_text loads hblocks

/-- A partial is saved of what streamed, or not. -/
theorem kept_savePartial (hs : Kept loads s) {e : Ending} {stored : Bool}
    (hpc : s.pc = .savingPartial e) (hclean : ∃ answer, s.streamedBlocks loads = .ok answer) :
    Kept loads (s.savePartial loads e stored) := by
  obtain ⟨hmarked, hreturns, hrow⟩ := kept_at loads hs hpc (by simp)
  obtain ⟨⟨blocks, thinking⟩, hblocks⟩ := hclean
  have htext := streamedBlocks_text loads hblocks
  have hmarked' (rows : List Row) (pc : Pc) : Marked { s with rows := rows, pc := pc } :=
    ⟨hmarked.going, hmarked.gathered, hmarked.responded⟩
  rw [Completion.savePartial]
  rw [hblocks]
  cases blocks with
  | nil => exact ⟨hmarked' s.rows _, hreturns, hrow⟩
  | cons block blocks =>
    dsimp only
    split
    case isFalse => exact ⟨hmarked' s.rows _, hreturns, hrow⟩
    case isTrue =>
      refine ⟨hmarked' _ _, hreturns, .inr ⟨fun hsilent => ?_, _, rfl, rfl, htext⟩⟩
      have hsilent : s.streamedBlocks loads = .ok ([], none) := hsilent
      rw [hblocks] at hsilent
      cases hsilent

/-- A clean step keeps the invariant. -/
theorem kept_step (s : Completion) (a : Action) (t : Completion) (hs : Kept loads s)
    (hclean : Clean loads s a) (h : completionStep str loads s a = some t) : Kept loads t := by
  cases completionStep_cases str loads h with
  | event e hpc hapi => exact kept_event str loads hs hpc hapi
  | opened sequence op ops hpc => exact kept_opening loads hs hpc sequence
  | ran sequence op ops calls hpc => exact kept_ran loads hs hpc sequence
  | observedAbort hpc =>
    obtain ⟨hmarked, hrows, -⟩ := kept_at loads hs hpc (by simp)
    exact ⟨⟨hmarked.going, hmarked.gathered, hmarked.responded⟩, rfl, .inl hrows⟩
  | lost e he hnot hhandles =>
    have huntouched := hclean.resolve_left (by rw [hhandles]; exact Bool.false_ne_true)
    refine ⟨(kept_at loads hs rfl hnot).1.going.increasing, huntouched.cleared, ?_⟩
    rw [he]
    exact .inl ⟨huntouched.rows, huntouched.silent⟩
  | again hpc =>
    obtain ⟨hmarked, -, hrow⟩ := kept_at loads hs hpc (by simp)
    exact ⟨⟨hmarked.going, hmarked.gathered, hmarked.responded⟩, rfl, hrow⟩
  | raised rateLimit ops calls e hpc he =>
    obtain ⟨hmarked, hrows, -⟩ := kept_at loads hs hpc (by simp)
    exact ⟨⟨hmarked.going, hmarked.gathered, hmarked.responded⟩, he, .inl hrows⟩
  | finished hpc => exact kept_finish loads hs hpc hclean
  | partialSaved e stored hpc => exact kept_savePartial loads hs hpc hclean
  | keysDeleted e hpc =>
    obtain ⟨hmarked, hreturns, hrow⟩ := kept_at loads hs hpc (by simp)
    refine ⟨hmarked.going.increasing, deleteKeys_cleared, ?_⟩
    rw [hreturns]
    exact hrow.imp (fun hrows => ⟨hrows, hclean hrows⟩) And.right
  | closed blocks hpc =>
    obtain ⟨hmarked, hrow⟩ := kept_at loads hs hpc (by simp)
    exact ⟨hmarked.going.increasing, deleteKeys_cleared, hrow⟩
  | saved blocks thinking hpc hrows =>
    obtain ⟨hmarked, -, htext⟩ := kept_at loads hs hpc (by simp)
    exact ⟨⟨hmarked.going, hmarked.gathered, hmarked.responded⟩, _, rfl, rfl, rfl, htext⟩
  | unsaved blocks thinking hpc hrows => exact absurd (kept_at loads hs hpc (by simp)).2.1 hrows
  | completed blocks hpc =>
    obtain ⟨hmarked, hrow⟩ := kept_at loads hs hpc (by simp)
    exact ⟨⟨hmarked.going, hmarked.gathered, hmarked.responded⟩, hrow⟩
  | cancelled hnot =>
    exact ⟨(kept_at loads hs rfl hnot).1.going.increasing, hclean.cleared,
      .inl ⟨hclean.rows, hclean.silent⟩⟩

/-- What the invariant says of a turn, as the law has it. -/
theorem lawful_of_kept {a : Action} (ht : Kept loads t) : Lawful loads s a t := by
  by_cases hended : ∃ e, t.pc = .ended e
  · obtain ⟨e, hpc⟩ := hended
    rw [Kept] at ht
    rw [hpc] at ht
    obtain ⟨hincreasing, hsettled⟩ := ht
    refine ⟨?_, hincreasing, fun hgoes => ?_, fun e' he' => ?_⟩
    · have hrow := hsettled.row
      cases hreturns : e.returns with
      | some blocks =>
        rw [hreturns] at hrow
        obtain ⟨row, hrow, -⟩ := hrow
        simp [hrow]
      | none =>
        rw [hreturns] at hrow
        rcases hrow with ⟨hrow, -⟩ | ⟨row, hrow, -⟩ <;> simp [hrow]
    · simp [Completion.goesOn, hpc] at hgoes
    · rw [hpc] at he'
      cases he'
      exact hsettled
  · have hnot : ∀ e, t.pc ≠ .ended e := fun e he => hended ⟨e, he⟩
    obtain ⟨hmarked, hat⟩ := kept_at loads ht rfl hnot
    refine ⟨?_, hmarked.going.increasing, fun hgoes => ?_, fun e he => absurd he (hnot e)⟩
    · cases hpc : t.pc with
      | ended e => exact absurd hpc (hnot e)
      | savingPartial e | deletingKeys e =>
        rw [hpc] at hat
        rcases hat.2 with hrow | ⟨-, row, hrow, -⟩ <;> simp [hrow]
      | completing blocks | closing blocks =>
        rw [hpc] at hat
        obtain ⟨row, hrow, -⟩ := hat
        simp [hrow]
      | _ =>
        rw [hpc] at hat
        simp [hat.1]
    · cases hpc : t.pc with
      | opening ops | streaming ops calls =>
        rw [hpc] at hat
        exact hat.1
      | _ => simp [Completion.goesOn, hpc] at hgoes

/-- Without a row, a turn that did not return is settled just when it is untouched. -/
theorem untouched_of_settled (hrows : s.rows = []) (h : s.Settled loads none) :
    s.Untouched loads := by
  rcases h.row with ⟨-, hsilent⟩ | ⟨row, hrow, -⟩
  · exact ⟨h.cleared, hrows, hsilent⟩
  · rw [hrows] at hrow
    cases hrow

/-- A turn that ends where it stands, without having returned, is settled only if there was nothing of
    it yet. -/
theorem untouched_of_lost (hs : Kept loads s) (hnot : ∀ e, s.pc ≠ .ended e)
    (h : s.Settled loads none) : s.Untouched loads := by
  obtain ⟨hmarked, hat⟩ := kept_at loads hs rfl hnot
  refine untouched_of_settled loads ?_ h
  cases hpc : s.pc with
  | ended e => exact absurd hpc (hnot e)
  | savingPartial e | deletingKeys e =>
    rw [hpc] at hat
    rcases hat.2 with hrow | ⟨hsilent, -⟩
    · exact hrow
    · have hmeta := marked_of_not_silent loads hmarked hsilent
      rw [h.cleared.1] at hmeta
      cases hmeta
  | completing blocks | closing blocks =>
    rw [hpc] at hat
    obtain ⟨row, hrow, hfinal, -⟩ := hat
    rcases h.row with ⟨hrows, -⟩ | ⟨other, hother, hpart, -⟩
    · exact hrows
    · rw [hrow] at hother
      obtain rfl := List.singleton_inj.mp hother
      rw [hfinal] at hpart
      cases hpart
  | _ =>
    rw [hpc] at hat
    exact hat.1

/-- What is raised over a call's arguments leaves the keys. -/
theorem built_of_settled (hs : Marked s) (h : s.turn.Cleared) :
    (∃ answer, s.streamedBlocks loads = .ok answer) ∧ ∃ answer, s.finalBlocks loads = .ok answer := by
  obtain ⟨hsilent, hfinal⟩ := silent_of_unmarked loads hs h.1
  refine ⟨⟨([], none), hsilent⟩, ([], none), ?_⟩
  rw [Completion.finalBlocks]
  rw [hfinal]
  exact hsilent

/-- A step that leaves the turn as the law has it is clean. -/
theorem clean_of_lawful {a : Action} (hs : Kept loads s) (h : completionStep str loads s a = some t)
    (hlawful : Lawful loads s a t) : Clean loads s a := by
  cases completionStep_cases str loads h with
  | finished hpc =>
    obtain ⟨hmarked, -⟩ := kept_at loads hs hpc (by simp)
    cases hbuilt : s.finalBlocks loads with
    | ok answer => exact ⟨answer, hbuilt⟩
    | error error =>
      have hfinish : s.finish loads = { s with pc := .ended (.unbuilt error) } := by
        rw [Completion.finish]
        rw [hbuilt]
      rw [hfinish] at hlawful
      exact (built_of_settled loads hmarked (hlawful.settled _ rfl).cleared).2
  | partialSaved e stored hpc =>
    obtain ⟨hmarked, -⟩ := kept_at loads hs hpc (by simp)
    cases hbuilt : s.streamedBlocks loads with
    | ok answer => exact ⟨answer, hbuilt⟩
    | error error =>
      have hkept : s.savePartial loads e stored = { s with pc := .ended (.unbuilt error) } := by
        rw [Completion.savePartial]
        rw [hbuilt]
      rw [hkept] at hlawful
      exact (built_of_settled loads hmarked (hlawful.settled _ rfl).cleared).1
  | cancelled hnot =>
    have hsettled := hlawful.settled .cancelled rfl
    exact untouched_of_lost loads hs hnot ⟨hsettled.cleared, hsettled.row⟩
  | lost e he hnot hhandles =>
    have hsettled := hlawful.settled e rfl
    rw [he] at hsettled
    exact .inr (untouched_of_lost loads hs hnot ⟨hsettled.cleared, hsettled.row⟩)
  | again hpc => exact .inl (by rw [Completion.handles, hpc])
  | raised rateLimit ops calls e hpc he => exact .inl (by rw [Completion.handles, hpc])
  | keysDeleted e hpc =>
    obtain ⟨-, hreturns, -⟩ := kept_at loads hs hpc (by simp)
    have hrow := (hlawful.settled e rfl).row
    rw [hreturns] at hrow
    intro hrows
    rcases hrow with ⟨-, hsilent⟩ | ⟨row, hrow, -⟩
    · exact hsilent
    · have hrow : s.rows = [row] := hrow
      rw [hrows] at hrow
      cases hrow
  | closed blocks hpc =>
    obtain ⟨-, row, hrow, -⟩ := kept_at loads hs hpc (by simp)
    intro hrows
    rw [hrows] at hrow
    cases hrow
  | _ => trivial

end

/-- EXACT CONDITION: over either API, whatever streams, wherever the turn fails and whenever it is
    aborted, it is stored and cleaned up as the law has it just when nothing but a decode error is
    raised over its calls' arguments, no partial is given up, and once there is a key, a row or
    anything streamed it is not cancelled and does not fail where nothing catches it. -/
theorem generic_run_iff (api : Api) (as : List Action) :
    EveryStep (completionStep str loads) (Lawful loads) (.opened api) as ↔
      Schemes.Guarded (completionStep str loads) (Clean loads) (.opened api) as :=
  everyStep_iff_guarded (kept_step str loads)
    (fun _ _ _ hs h => ⟨clean_of_lawful str loads hs h,
      fun hclean => lawful_of_kept loads (kept_step str loads _ _ _ hs hclean h)⟩)
    (kept_opened loads api)

end LunaCore.Providers.Generic
