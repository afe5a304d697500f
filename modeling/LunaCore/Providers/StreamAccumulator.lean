import Mathlib.Data.Finset.Sort
import LunaCore.Flow.NodeConfig
import LunaCore.Providers.StreamedTurn
import LunaCore.Schemes.Fallible
import LunaCore.Schemes.Filing

/-! `_StreamAccumulator`: the chunks of a streamed answer, gathered into its blocks.

    chunks   text  call 1  text  call 0  call 1  …
    answer   text · thinking · per index: last id, last name, arguments

    However the answer is cut into chunks, and however the calls' fragments are interleaved, what is
    gathered is the answer; the blocks are read from it. -/

namespace LunaCore.Providers
open LunaCore.Values LunaCore.Schemes

/-! ### The accumulator -/

/-- What `json.loads` does with a text. -/
inductive Loaded where
  | value (json : Json)
  | decodeError
  | raises (error : String)

/-- The `function` of a tool-call fragment. -/
structure FunctionFragment where
  name : Option String
  arguments : Option String

/-- A tool-call fragment of a chunk. -/
structure ToolFragment where
  index : ℤ
  id : Option String
  function : Option FunctionFragment

structure ToolSlot where
  id : Option String
  name : String
  argumentsText : String
  deriving DecidableEq

def ToolSlot.empty : ToolSlot := ⟨none, "", ""⟩

/-- `getattr(…) if …` of a text: an empty one counts as none. -/
def givenText (text : Option String) : Option String := text.filter fun s => decide (s ≠ "")

def ToolFragment.givenId (tc : ToolFragment) : Option String := givenText tc.id

def ToolFragment.givenName (tc : ToolFragment) : Option String :=
  givenText (tc.function.bind FunctionFragment.name)

def ToolFragment.arguments (tc : ToolFragment) : String :=
  (givenText (tc.function.bind FunctionFragment.arguments)).getD ""

/-- What a fragment changes in its slot. -/
def ToolSlot.add (slot : ToolSlot) (tc : ToolFragment) : ToolSlot where
  id := tc.givenId.or slot.id
  name := tc.givenName.getD slot.name
  argumentsText := slot.argumentsText ++ tc.arguments

structure Accumulator where
  textParts : List String
  thinkingParts : List String
  toolCalls : Table ℤ ToolSlot

namespace Accumulator

def empty : Accumulator := ⟨[], [], ∅⟩

/-- `add_text`. -/
def addText (a : Accumulator) (text : String) : Accumulator :=
  if text ≠ "" then { a with textParts := a.textParts ++ [text] } else a

/-- `add_thinking`. -/
def addThinking (a : Accumulator) (text : String) : Accumulator :=
  if text ≠ "" then { a with thinkingParts := a.thinkingParts ++ [text] } else a

/-- One fragment of `add_tool_call_delta`. -/
def addFragment (calls : Table ℤ ToolSlot) (tc : ToolFragment) : Table ℤ ToolSlot :=
  let calls := setDefault calls tc.index .empty
  calls.insert tc.index (((calls.lookup tc.index).getD .empty).add tc)

/-- `add_tool_call_delta`. -/
def addToolCallDelta (a : Accumulator) (fragments : List ToolFragment) : Accumulator :=
  { a with toolCalls := fragments.foldl addFragment a.toolCalls }

end Accumulator

/-- A canonical block of a streamed answer; a call's input is whatever its arguments say. -/
inductive StreamedBlock where
  | thinking (text : String)
  | text (text : String)
  | toolUse (id name : String) (input : Json)
  deriving DecidableEq

variable (loads : String → Loaded)

/-- The input of a call with these arguments. -/
def parseArguments (raw : String) : Except String Json :=
  if raw = "" then .ok (.obj [])
  else match loads raw with
    | .value json => .ok json
    | .decodeError => .ok (.obj [("_raw", .str raw)])
    | .raises error => .error error

/-- The block of one slot. -/
def toolBlock (index : ℤ) (slot : ToolSlot) : Except String StreamedBlock := do
  let input ← parseArguments loads slot.argumentsText
  return .toolUse ((givenText slot.id).getD ("tc_" ++ toString index)) slot.name input

/-- `sorted(self.tool_calls)`. -/
def sortedKeys (calls : Table ℤ ToolSlot) : List ℤ := calls.keys.insertionSort (· ≤ ·)

/-- `to_canonical`. -/
def Accumulator.toCanonical (a : Accumulator) :
    Except String (List StreamedBlock × Option String) := do
  let thinkingText := stripped (String.join a.thinkingParts)
  let text := String.join a.textParts
  let tools ← (sortedKeys a.toolCalls).mapM fun index =>
    toolBlock loads index ((a.toolCalls.lookup index).getD .empty)
  return ((thinkingText.map StreamedBlock.thinking).toList ++
    (if text = "" then [] else [.text text]) ++ tools, thinkingText)

/-! ### Streams -/

/-- A `choice.delta`; the extra fields are `model_extra`, when it is a dict. -/
structure ChoiceDelta where
  content : Option String
  reasoningContent : Option Json
  reasoning : Option Json
  modelExtra : Option Dict
  toolCalls : Option (List ToolFragment)

/-- `_extract_thinking_from_choice_delta`; `str` is Python's. -/
def extractThinking (str : Json → String) (delta : ChoiceDelta) : Option String :=
  let extra := delta.modelExtra.getD []
  ([delta.reasoningContent, delta.reasoning, extra.get "reasoning_content",
    extra.get "reasoning"].findSome? fun value => value.filter Flow.truthy).map fun
      | .str text => text
      | value => str value

/-- What a delta adds to the accumulator, in the order of `complete`. -/
inductive Delta where
  | text (text : String)
  | thinking (text : String)
  | toolCalls (fragments : List ToolFragment)

def Accumulator.add (a : Accumulator) : Delta → Accumulator
  | .text text => a.addText text
  | .thinking text => a.addThinking text
  | .toolCalls fragments => a.addToolCallDelta fragments

/-- What is gathered from a stream. -/
def gather (deltas : List Delta) : Accumulator := deltas.foldl Accumulator.add .empty

/-- One chunk of `complete`'s loop, by the deltas of its choices. -/
def Accumulator.feed (str : Json → String) (a : Accumulator) : List (Option ChoiceDelta) → Accumulator
  | some delta :: _ =>
    let a := match givenText delta.content with
      | some text => a.addText text
      | none => a
    let a := match givenText (extractThinking str delta) with
      | some text => a.addThinking text
      | none => a
    match delta.toolCalls with
    | some (tc :: fragments) => a.addToolCallDelta (tc :: fragments)
    | _ => a
  | _ => a

/-- What a chunk hands to the accumulator. -/
def chunkDeltas (str : Json → String) : List (Option ChoiceDelta) → List Delta
  | some delta :: _ =>
    ((givenText delta.content).map Delta.text).toList ++
      ((givenText (extractThinking str delta)).map Delta.thinking).toList ++
      (delta.toolCalls.map Delta.toolCalls).toList
  | _ => []

/-- STEP: a chunk is the deltas it hands over. -/
theorem feed_eq (str : Json → String) (a : Accumulator) (choices : List (Option ChoiceDelta)) :
    a.feed str choices = (chunkDeltas str choices).foldl Accumulator.add a := by
  match choices with
  | [] => rfl
  | none :: _ => rfl
  | some delta :: _ =>
    simp only [Accumulator.feed, chunkDeltas]
    cases givenText delta.content <;> cases givenText (extractThinking str delta) <;>
      rcases delta.toolCalls with _ | _ | ⟨tc, fragments⟩ <;> rfl

/-- RUN: `complete` gathers the deltas of its chunks. -/
theorem foldl_feed (str : Json → String) (chunks : List (List (Option ChoiceDelta))) :
    chunks.foldl (Accumulator.feed str) .empty = gather (chunks.flatMap (chunkDeltas str)) := by
  rw [gather, List.foldl_flatMap]
  congr 1
  funext a choices
  exact feed_eq str a choices

/-! ### The answer a stream carries -/

def Delta.textOf : Delta → String
  | .text s => s
  | _ => ""

def Delta.thinkingOf : Delta → String
  | .thinking s => s
  | _ => ""

def Delta.fragments : Delta → List ToolFragment
  | .toolCalls fragments => fragments
  | _ => []

/-- The fragments of one call, in the order they came. -/
def fragmentsAt (deltas : List Delta) (index : ℤ) : List ToolFragment :=
  (deltas.flatMap Delta.fragments).filter fun tc => tc.index = index

/-- An answer: its text, its thinking, and per index of a call the last id and the last name given and
    the whole of the arguments. -/
structure Answer where
  text : String
  thinking : String
  indices : Finset ℤ
  id : ℤ → Option String
  name : ℤ → Option String
  arguments : ℤ → String

/-- The answer a stream carries. -/
def answer (deltas : List Delta) : Answer where
  text := String.join (deltas.map Delta.textOf)
  thinking := String.join (deltas.map Delta.thinkingOf)
  indices := ((deltas.flatMap Delta.fragments).map ToolFragment.index).toFinset
  id index := ((fragmentsAt deltas index).filterMap ToolFragment.givenId).getLast?
  name index := ((fragmentsAt deltas index).filterMap ToolFragment.givenName).getLast?
  arguments index := String.join ((fragmentsAt deltas index).map ToolFragment.arguments)

/-- The calls' indices in increasing order. -/
def Answer.order (a : Answer) : List ℤ := a.indices.sort (· ≤ ·)

/-- The input of the call at an index, unless its arguments raise. -/
inductive InputOf (raw : String) : Json → Prop
  | empty (h : raw = "") : InputOf raw (.obj [])
  | parsed (h : raw ≠ "") (json : Json) (hloads : loads raw = .value json) : InputOf raw json
  | kept (h : raw ≠ "") (hloads : loads raw = .decodeError) : InputOf raw (.obj [("_raw", .str raw)])

/-- The blocks of an answer: thinking, text, then a call per index in increasing order. -/
def Blocks (inputOf : String → Json → Prop) (a : Answer) (blocks : List StreamedBlock) : Prop :=
  ∃ tools, blocks = ((stripped a.thinking).map StreamedBlock.thinking).toList ++
      (if a.text = "" then [] else [.text a.text]) ++ tools ∧
    List.Forall₂ (fun index block => ∃ input, inputOf (a.arguments index) input ∧
      block = .toolUse ((a.id index).getD ("tc_" ++ toString index)) ((a.name index).getD "") input)
      a.order tools

/-! ### Gathering -/

theorem addFragment_eq (calls : Table ℤ ToolSlot) (tc : ToolFragment) :
    Accumulator.addFragment calls tc =
      calls.insert tc.index (((calls.lookup tc.index).getD .empty).add tc) := by
  unfold Accumulator.addFragment
  cases h : calls.lookup tc.index with
  | some slot => simp only [setDefault, h, Option.getD_some]
  | none => simp only [setDefault, h, AList.lookup_insert, Option.getD_some, Option.getD_none,
      AList.insert_insert]

/-- STEP: what each delta adds. -/
theorem add_eq (a : Accumulator) (delta : Delta) :
    String.join (a.add delta).textParts = String.join a.textParts ++ delta.textOf ∧
    String.join (a.add delta).thinkingParts = String.join a.thinkingParts ++ delta.thinkingOf ∧
    (a.add delta).toolCalls = delta.fragments.foldl Accumulator.addFragment a.toolCalls := by
  cases delta with
  | text text =>
    by_cases h : text = ""
    · subst h
      simp [Accumulator.add, Accumulator.addText, Delta.textOf, Delta.thinkingOf, Delta.fragments]
    · simp [Accumulator.add, Accumulator.addText, h, Delta.textOf, Delta.thinkingOf, Delta.fragments,
        String.join_append]
  | thinking text =>
    by_cases h : text = ""
    · subst h
      simp [Accumulator.add, Accumulator.addThinking, Delta.textOf, Delta.thinkingOf, Delta.fragments]
    · simp [Accumulator.add, Accumulator.addThinking, h, Delta.textOf, Delta.thinkingOf,
        Delta.fragments, String.join_append]
  | toolCalls fragments =>
    simp [Accumulator.add, Accumulator.addToolCallDelta, Delta.textOf, Delta.thinkingOf,
      Delta.fragments]

/-- RUN: what a whole stream adds. -/
theorem foldl_add (deltas : List Delta) (a : Accumulator) :
    String.join (deltas.foldl Accumulator.add a).textParts =
      String.join a.textParts ++ String.join (deltas.map Delta.textOf) ∧
    String.join (deltas.foldl Accumulator.add a).thinkingParts =
      String.join a.thinkingParts ++ String.join (deltas.map Delta.thinkingOf) ∧
    (deltas.foldl Accumulator.add a).toolCalls =
      (deltas.flatMap Delta.fragments).foldl Accumulator.addFragment a.toolCalls := by
  induction deltas generalizing a with
  | nil => simp
  | cons delta deltas ih =>
    obtain ⟨htext, hthinking, hcalls⟩ := add_eq a delta
    obtain ⟨ihtext, ihthinking, ihcalls⟩ := ih (a.add delta)
    rw [List.foldl_cons, ihtext, ihthinking, ihcalls, htext, hthinking, hcalls, List.flatMap_cons,
      List.foldl_append, List.map_cons, List.map_cons, String.join_cons, String.join_cons,
      String.append_assoc, String.append_assoc]
    exact ⟨rfl, rfl, rfl⟩

theorem getLast?_filterMap_cons {α β : Type*} (f : α → Option β) (a : α) (l : List α) :
    ((a :: l).filterMap f).getLast? = ((l.filterMap f).getLast?).or (f a) := by
  cases h : f a with
  | none => rw [List.filterMap_cons_none h, Option.or_none]
  | some b =>
    rw [List.filterMap_cons_some h, List.getLast?_cons]
    cases (l.filterMap f).getLast? <;> rfl

/-- A slot after the fragments of its call. -/
theorem foldl_slot (fragments : List ToolFragment) (slot : ToolSlot) :
    fragments.foldl ToolSlot.add slot =
      ⟨(fragments.filterMap ToolFragment.givenId).getLast?.or slot.id,
        (fragments.filterMap ToolFragment.givenName).getLast?.getD slot.name,
        slot.argumentsText ++ String.join (fragments.map ToolFragment.arguments)⟩ := by
  induction fragments generalizing slot with
  | nil => simp
  | cons tc fragments ih =>
    rw [List.foldl_cons, ih, List.map_cons, String.join_cons, getLast?_filterMap_cons,
      getLast?_filterMap_cons, Option.or_assoc, Option.getD_or, ← String.append_assoc]
    rfl

/-- INVARIANT: a call has a slot once a fragment of it came, and the slot is what they add up to. -/
theorem lookup_gather (deltas : List Delta) (index : ℤ) :
    (gather deltas).toolCalls.lookup index =
      if fragmentsAt deltas index = [] then none
      else some ⟨(answer deltas).id index, ((answer deltas).name index).getD "",
        (answer deltas).arguments index⟩ := by
  have hstep : Accumulator.addFragment = fun calls tc =>
      calls.insert tc.index (((calls.lookup tc.index).getD .empty).add tc) := by
    funext calls tc
    exact addFragment_eq calls tc
  rw [gather, (foldl_add deltas .empty).2.2, hstep,
    lookup_foldl_gather ToolFragment.index .empty ToolSlot.add]
  change (if fragmentsAt deltas index = [] then _ else _) = _
  split
  case isTrue => exact AList.lookup_empty index
  case isFalse =>
    rw [show (Accumulator.empty.toolCalls.lookup index) = none from AList.lookup_empty index,
      Option.getD_none]
    change some ((fragmentsAt deltas index).foldl ToolSlot.add .empty) = _
    rw [foldl_slot]
    simp only [ToolSlot.empty, Option.or_none, String.empty_append]
    rfl

theorem mem_order_iff {a : Answer} {index : ℤ} : index ∈ a.order ↔ index ∈ a.indices :=
  Finset.mem_sort _

theorem mem_indices_iff {deltas : List Delta} {index : ℤ} :
    index ∈ (answer deltas).indices ↔ fragmentsAt deltas index ≠ [] := by
  constructor
  · intro h
    obtain ⟨tc, htc, rfl⟩ := List.mem_map.mp (List.mem_toFinset.mp h)
    exact List.ne_nil_of_mem (List.mem_filter.mpr ⟨htc, decide_eq_true rfl⟩)
  · intro h
    obtain ⟨tc, htc⟩ := List.exists_mem_of_ne_nil _ h
    obtain ⟨hmem, hindex⟩ := List.mem_filter.mp htc
    exact List.mem_toFinset.mpr (List.mem_map.mpr ⟨tc, hmem, of_decide_eq_true hindex⟩)

/-- The calls are gone through in increasing order. -/
theorem sorted_keys (deltas : List Delta) :
    sortedKeys (gather deltas).toolCalls = (answer deltas).order := by
  have hperm := List.perm_insertionSort (· ≤ ·) (gather deltas).toolCalls.keys
  have hmem : ((gather deltas).toolCalls.keys.insertionSort (· ≤ ·)).toFinset =
      (answer deltas).indices := by
    ext index
    rw [List.mem_toFinset, hperm.mem_iff, ← AList.mem_keys, ← AList.lookup_isSome, lookup_gather,
      mem_indices_iff]
    split
    case isTrue h => simp [h]
    case isFalse h => simp [h]
  have hnodup := hperm.nodup_iff.mpr (gather deltas).toolCalls.keys_nodup
  rw [sortedKeys, Answer.order, ← hmem]
  exact ((List.toFinset_sort _ hnodup).mpr (List.pairwise_insertionSort _ _)).symm

/-! ### What the accumulator answers -/

/-- The blocks of an answer, computed. -/
def Answer.blocks (a : Answer) : Except String (List StreamedBlock × Option String) := do
  let tools ← a.order.mapM fun index =>
    toolBlock loads index ⟨a.id index, (a.name index).getD "", a.arguments index⟩
  return (((stripped a.thinking).map StreamedBlock.thinking).toList ++
    (if a.text = "" then [] else [.text a.text]) ++ tools, stripped a.thinking)

/-- CORRECT: the accumulator's blocks are those of the answer its stream carries. -/
theorem toCanonical_gather (deltas : List Delta) :
    (gather deltas).toCanonical loads = (answer deltas).blocks loads := by
  obtain ⟨htext, hthinking, -⟩ := foldl_add deltas .empty
  have htext' : String.join (gather deltas).textParts = (answer deltas).text := by
    rw [gather, htext]
    exact String.empty_append
  have hthinking' : String.join (gather deltas).thinkingParts = (answer deltas).thinking := by
    rw [gather, hthinking]
    exact String.empty_append
  have hcalls : (answer deltas).order.mapM (fun index =>
      toolBlock loads index (((gather deltas).toolCalls.lookup index).getD .empty)) =
      (answer deltas).order.mapM fun index =>
        toolBlock loads index ⟨(answer deltas).id index, ((answer deltas).name index).getD "",
          (answer deltas).arguments index⟩ := by
    refine mapM_congr fun index hindex => ?_
    rw [lookup_gather, if_neg (mem_indices_iff.mp (mem_order_iff.mp hindex)), Option.getD_some]
  rw [Accumulator.toCanonical, Answer.blocks, htext', hthinking', sorted_keys, hcalls]

/-- What the arguments of a call come to, when they come to anything. -/
theorem parseArguments_eq_ok_iff {raw : String} {input : Json} :
    parseArguments loads raw = .ok input ↔ InputOf loads raw input := by
  unfold parseArguments
  constructor
  · intro h
    split at h
    case isTrue hraw => exact Except.ok.inj h ▸ .empty hraw
    case isFalse hraw =>
      split at h
      case h_1 json hloads => exact Except.ok.inj h ▸ .parsed hraw json hloads
      case h_2 hloads => exact Except.ok.inj h ▸ .kept hraw hloads
      case h_3 => cases h
  · intro h
    cases h with
    | empty hraw => rw [if_pos hraw]
    | parsed hraw json hloads => rw [if_neg hraw, hloads]
    | kept hraw hloads => rw [if_neg hraw, hloads]

theorem toolBlock_eq_ok_iff {index : ℤ} {slot : ToolSlot} {block : StreamedBlock} :
    toolBlock loads index slot = .ok block ↔ ∃ input, InputOf loads slot.argumentsText input ∧
      block = .toolUse ((givenText slot.id).getD ("tc_" ++ toString index)) slot.name input := by
  change (parseArguments loads slot.argumentsText).bind (fun input => .ok (StreamedBlock.toolUse
    ((givenText slot.id).getD ("tc_" ++ toString index)) slot.name input)) = .ok block ↔ _
  simp only [bind_eq_ok_iff, parseArguments_eq_ok_iff, Except.ok.injEq]
  exact exists_congr fun input => and_congr_right fun _ => eq_comm

/-- An id that was given is not empty. -/
theorem givenText_id (deltas : List Delta) (index : ℤ) :
    givenText ((answer deltas).id index) = (answer deltas).id index := by
  cases hid : (answer deltas).id index with
  | none => rfl
  | some id =>
    obtain ⟨tc, -, hgiven⟩ := List.mem_filterMap.mp (List.mem_of_getLast? hid)
    exact Option.filter_some_pos (Option.filter_eq_some_iff.mp hgiven).2

/-- What the blocks of an answer are, when they come to be. -/
theorem blocks_eq_ok_iff (deltas : List Delta) {blocks : List StreamedBlock} {thinking : Option String} :
    (answer deltas).blocks loads = .ok (blocks, thinking) ↔
      Blocks (InputOf loads) (answer deltas) blocks ∧ thinking = stripped (answer deltas).thinking := by
  change ((answer deltas).order.mapM fun index => toolBlock loads index
    ⟨(answer deltas).id index, ((answer deltas).name index).getD "",
      (answer deltas).arguments index⟩).bind (fun tools =>
    .ok ((((stripped (answer deltas).thinking).map StreamedBlock.thinking).toList ++
      (if (answer deltas).text = "" then [] else [.text (answer deltas).text]) ++ tools),
      stripped (answer deltas).thinking)) = .ok (blocks, thinking) ↔ _
  simp only [bind_eq_ok_iff, mapM_eq_ok_iff, toolBlock_eq_ok_iff, givenText_id, Except.ok.injEq,
    Prod.mk.injEq, Blocks]
  constructor
  · rintro ⟨tools, htools, rfl, rfl⟩
    exact ⟨⟨tools, rfl, htools⟩, rfl⟩
  · rintro ⟨⟨tools, rfl, htools⟩, rfl⟩
    exact ⟨tools, htools, rfl, rfl⟩

/-- The calls come to be when nothing but a decode error is raised over their arguments. -/
theorem blocks_isOk (deltas : List Delta) (h : ∀ index ∈ (answer deltas).indices,
    (answer deltas).arguments index ≠ "" →
      ∀ error, loads ((answer deltas).arguments index) ≠ .raises error) :
    ∃ blocks thinking, (answer deltas).blocks loads = .ok (blocks, thinking) := by
  have htools : ∃ tools, (answer deltas).order.mapM (fun index =>
      toolBlock loads index ⟨(answer deltas).id index, ((answer deltas).name index).getD "",
        (answer deltas).arguments index⟩) = .ok tools := by
    refine mapM_isOk_iff.mpr fun index hindex => ?_
    simp only [toolBlock_eq_ok_iff]
    by_cases hraw : (answer deltas).arguments index = ""
    · exact ⟨_, _, .empty hraw, rfl⟩
    · cases hloads : loads ((answer deltas).arguments index) with
      | value json => exact ⟨_, json, .parsed hraw json hloads, rfl⟩
      | decodeError => exact ⟨_, _, .kept hraw hloads, rfl⟩
      | raises error => exact absurd hloads (h index (mem_order_iff.mp hindex) hraw error)
  obtain ⟨tools, htools⟩ := htools
  refine ⟨((stripped (answer deltas).thinking).map StreamedBlock.thinking).toList ++
    (if (answer deltas).text = "" then [] else [.text (answer deltas).text]) ++ tools,
    stripped (answer deltas).thinking, ?_⟩
  rw [Answer.blocks, htools]
  rfl

/-- CORRECT: what a stream is gathered to is read off its answer: two streams of one answer give the
    same, and what they give is the answer's thinking, its text and its calls in order; and they
    give it unless something else than a decode error is raised over a call's arguments. -/
theorem toCanonical_correct (loads : String → Loaded) (deltas : List Delta) :
    (∀ others, answer others = answer deltas →
      (gather others).toCanonical loads = (gather deltas).toCanonical loads) ∧
    (∀ blocks thinking, (gather deltas).toCanonical loads = .ok (blocks, thinking) →
      Blocks (InputOf loads) (answer deltas) blocks ∧ thinking = stripped (answer deltas).thinking) ∧
    ((∀ index ∈ (answer deltas).indices, (answer deltas).arguments index ≠ "" →
      ∀ error, loads ((answer deltas).arguments index) ≠ .raises error) →
      ∃ blocks thinking, (gather deltas).toCanonical loads = .ok (blocks, thinking)) := by
  refine ⟨?_, ?_, ?_⟩
  · intro others h
    rw [toCanonical_gather, toCanonical_gather, h]
  · intro blocks thinking h
    rw [toCanonical_gather] at h
    exact (blocks_eq_ok_iff loads deltas).mp h
  · intro h
    rw [toCanonical_gather]
    exact blocks_isOk loads deltas h

/-- The input of a call with no more to say than: parsed, or kept as it is. -/
inductive ParsedOrRaw (raw : String) : Json → Prop
  | parsed (json : Json) (hloads : loads raw = .value json) : ParsedOrRaw raw json
  | kept (hloads : loads raw = .decodeError) : ParsedOrRaw raw (.obj [("_raw", .str raw)])

/-- One call, streamed without arguments. -/
def bareCall : List Delta :=
  [.toolCalls [⟨0, some "call_1", some ⟨some "list_devices", none⟩⟩]]

/-- A call without arguments has an empty dict for its input, though its text is no JSON. -/
theorem bareCall_input : ¬ ∀ (loads : String → Loaded) (deltas : List Delta),
    loads "" = .decodeError → ∃ blocks thinking,
      (gather deltas).toCanonical loads = .ok (blocks, thinking) ∧
        Blocks (ParsedOrRaw loads) (answer deltas) blocks := by
  intro h
  obtain ⟨_, thinking, hcanonical, tools, rfl, htools⟩ := h (fun _ => .decodeError) bareCall rfl
  have hanswer : (gather bareCall).toCanonical (fun _ => .decodeError) =
      .ok ([.toolUse "call_1" "list_devices" (.obj [])], none) := rfl
  have hindices : (answer bareCall).order = [0] := by decide +kernel
  rw [hindices, List.forall₂_cons_left_iff] at htools
  obtain ⟨block, rest, ⟨input, hinput, rfl⟩, -, rfl⟩ := htools
  rw [hanswer] at hcanonical
  have hinput' : Json.obj [] = input := by
    injection hcanonical with hcanonical
    injection hcanonical with hblocks
    injection hblocks with hblock
    injection hblock
  subst hinput'
  cases hinput with
  | parsed _ hloads => cases hloads

end LunaCore.Providers
