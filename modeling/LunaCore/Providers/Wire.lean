import LunaCore.Engine.History
import LunaCore.Providers.MediaLabels
import LunaCore.Schemes.Replies

/-! Tool calls and their results on the wire of each API.

        history         assistant: call a, call b        user: result b, result a, text
        chat            assistant {a, b}                 tool b   tool a   user
        responses       call a   call b                  output b   output a   user
        messages        assistant [a, b]                 user [result b, result a, text]

    Every API refuses a request in which a call stands without its result, and every translator
    leaves some messages out and cuts others up. What the history leaves to answer, the request
    leaves to answer, and it tells of the same calls and results in the same order. -/

namespace LunaCore.Providers
open LunaCore.Values LunaCore.Chat LunaCore.Schemes LunaCore.Engine

abbrev WireMove := Move (Option String)

/-! ### What an entry is to the replies -/

/-- Chat completions: an assistant entry asks for all its `tool_calls`. -/
def ChatEntry.moves : ChatEntry → List WireMove
  | .tool id _ => [.reply id]
  | .assistant _ toolCalls => [.say, .ask (toolCalls.map ToolUse.id)]
  | .system _ | .user _ | .userParts .. => [.say]

/-- Responses: calls and outputs are items of their own. -/
def ResponsesItem.moves : ResponsesItem → List WireMove
  | .functionCall use => [.ask [use.id]]
  | .functionCallOutput id _ => [.reply id]
  | .user _ | .userText _ | .assistant _ => [.say]

/-- The call a part holds. -/
def AnthropicPart.call : AnthropicPart → Option ToolUse
  | .toolUse use => some use
  | _ => none

/-- A part of a user message. A call is out of place there: what is said after it refuses it. -/
def AnthropicPart.moves : AnthropicPart → List WireMove
  | .toolResult id _ _ => [.reply id]
  | .toolUse use => [.ask [use.id], .say]
  | .text _ | .image _ | .called _ | .native _ => [.say]

/-- The result a part holds. -/
def AnthropicPart.result : AnthropicPart → Option (Option String × String)
  | .toolResult id content _ => some (id, content)
  | _ => none

/-- Messages API: an assistant message asks for all its calls, and holds no result; a user message
    gives its results before anything else. -/
def AnthropicMessage.moves (msg : AnthropicMessage) : List WireMove :=
  if msg.role = .assistant then
    .say :: (msg.parts.filterMap AnthropicPart.result).map (fun result => .reply result.1) ++
      [.ask ((msg.parts.filterMap AnthropicPart.call).map ToolUse.id)]
  else msg.parts.flatMap AnthropicPart.moves

/-- The moves of a request. -/
def wireMoves (imageUrls : String → Option String) (messages : List Canonical) :
    Translator → List WireMove
  | .chatCompletions system =>
    (canonicalToOpenaiMessages messages system imageUrls).flatMap ChatEntry.moves
  | .responses => (canonicalToResponsesInput messages imageUrls).flatMap ResponsesItem.moves
  | .anthropic toolsDeclared model =>
    (canonicalToAnthropicMessages messages imageUrls toolsDeclared model).flatMap
      AnthropicMessage.moves

/-- What the engine stores: results in user messages, and a compaction by itself. -/
structure Shaped (msg : Canonical) : Prop where
  results : msg.1 ≠ .user → resultIds msg.2 = []
  marker : compactionBlock msg ≠ none → callIds msg = [] ∧ resultIds msg.2 = []

theorem Shaped.waits {msg : Canonical} (h : Shaped msg) (hrole : msg.1 ≠ .user)
    {waiting : List (Option String)} (hanswers : Answers waiting (resultIds msg.2)) :
    waiting = [] := by
  rw [h.results hrole] at hanswers
  exact answers_nil.mp hanswers

/-! ### One message -/

theorem calls_eq_toolUses (content : List Block) : calls content = toolUses content :=
  List.filterMap_congr fun block _ => by cases block <;> rfl

/-- Entries made of the results alone are the replies. -/
theorem moves_of_results {β : Type} (part? : Block → Option β) (moves : β → List WireMove)
    (hresult : ∀ id content isError,
      (part? (.toolResult id content isError)).map moves = some [.reply id])
    (hother : ∀ block, (∀ id content isError, block ≠ .toolResult id content isError) →
      part? block = none) (content : List Block) :
    (content.filterMap part?).flatMap moves = (resultIds content).map .reply := by
  induction content with
  | nil => rfl
  | cons block rest ih =>
    by_cases hblock : ∃ id content isError, block = .toolResult id content isError
    · obtain ⟨id, content, isError, rfl⟩ := hblock
      obtain ⟨part, hpart, hmoves⟩ := Option.map_eq_some_iff.mp (hresult id content isError)
      rw [List.filterMap_cons_some hpart, List.flatMap_cons, hmoves, ih]
      rfl
    · have hnone : resultIds (block :: rest) = resultIds rest := by
        cases block with
        | toolResult id content isError => exact absurd ⟨id, content, isError, rfl⟩ hblock
        | _ => rfl
      rw [hnone, ← ih, List.filterMap_cons_none]
      exact hother block fun id content isError h => hblock ⟨id, content, isError, h⟩

/-- Replies that answer what waits, and then only saying. -/
theorem follows_answers {waiting : List (Option String)} {results : List (Option String)}
    (h : Answers waiting results) {moves : List WireMove} (htalk : ∀ move ∈ moves, move = .say) :
    follows waiting (results.map .reply ++ moves) = some [] := by
  rw [follows_append_some (follows_replies.mpr h)]
  exact follows_talk htalk

/-- SPEC: a message answers what waits and leaves its calls. -/
def Leads {β : Type} (moves : β → List WireMove) (out : List β) (msg : Canonical) : Prop :=
  ∀ waiting, Answers waiting (resultIds msg.2) →
    follows waiting (out.flatMap moves) = some (callIds msg)

/-- A message that asks for nothing, sent as results and talk. -/
theorem leads_talk {β : Type} {moves : β → List WireMove} {out : List β} {msg : Canonical}
    (hout : ∃ talk : List WireMove, (∀ move ∈ talk, move = .say) ∧
      out.flatMap moves = (resultIds msg.2).map .reply ++ talk)
    (hcalls : callIds msg = []) : Leads moves out msg := by
  obtain ⟨talk, htalk, heq⟩ := hout
  intro waiting hanswers
  rw [heq, hcalls]
  exact follows_answers hanswers htalk

/-- One that holds no result either, sent as talk. -/
theorem leads_quiet {β : Type} {moves : β → List WireMove} {out : List β} {msg : Canonical}
    (hout : ∀ move ∈ out.flatMap moves, move = .say) (hresults : resultIds msg.2 = [])
    (hcalls : callIds msg = []) : Leads moves out msg :=
  leads_talk ⟨out.flatMap moves, hout, by rw [hresults]; rfl⟩ hcalls

@[simp] theorem callIds_user (content : List Block) : callIds (.user, content) = [] := rfl

@[simp] theorem callIds_system (content : List Block) : callIds (.system, content) = [] := rfl

theorem openaiMessage_leads (imageUrls : String → Option String) (labels : MediaLabels)
    {msg : Canonical} (h : Shaped msg) :
    Leads ChatEntry.moves (openaiMessage imageUrls labels msg).1 msg := by
  rw [openaiMessage]
  split
  case h_1 compaction hc =>
    obtain ⟨hcalls, hresults⟩ := h.marker (by simp [hc])
    exact leads_quiet (by simp [ChatEntry.moves]) hresults hcalls
  case h_2 =>
    obtain ⟨role, content⟩ := msg
    cases role with
    | user =>
      have hreplies := moves_of_results toolEntry ChatEntry.moves
        (fun _ _ _ => rfl) (fun block hblock => by
          cases block with
          | toolResult id content isError => exact absurd rfl (hblock id content isError)
          | _ => rfl) content
      refine leads_talk ?_ rfl
      rw [openaiUser]
      dsimp only
      rw [List.flatMap_append, hreplies]
      refine ⟨_, ?_, rfl⟩
      split
      · simp [ChatEntry.moves]
      · split
        · simp
        · simp [ChatEntry.moves]
    | assistant =>
      intro waiting hanswers
      obtain rfl := h.waits (by simp) hanswers
      simp [ChatEntry.moves, calls_eq_toolUses]
    | system =>
      refine leads_quiet ?_ (h.results (by simp)) rfl
      dsimp only
      split
      · simp
      · simp [ChatEntry.moves]

theorem responsesMessage_leads (imageUrls : String → Option String) (labels : MediaLabels)
    {msg : Canonical} (h : Shaped msg) :
    Leads ResponsesItem.moves (responsesMessage imageUrls labels msg).1 msg := by
  rw [responsesMessage]
  split
  case h_1 compaction hc =>
    obtain ⟨hcalls, hresults⟩ := h.marker (by simp [hc])
    exact leads_quiet (by simp [ResponsesItem.moves]) hresults hcalls
  case h_2 =>
    obtain ⟨role, content⟩ := msg
    cases role with
    | user =>
      have hreplies := moves_of_results callOutput ResponsesItem.moves
        (fun _ _ _ => rfl) (fun block hblock => by
          cases block with
          | toolResult id content isError => exact absurd rfl (hblock id content isError)
          | _ => rfl) content
      refine leads_talk ?_ rfl
      dsimp only
      rw [List.flatMap_append, hreplies]
      refine ⟨_, ?_, rfl⟩
      split
      · simp
      · simp [ResponsesItem.moves]
    | assistant =>
      intro waiting hanswers
      obtain rfl := h.waits (by simp) hanswers
      have hasks : ((calls content).map ResponsesItem.functionCall).flatMap ResponsesItem.moves =
          (calls content).map fun use => .ask [use.id] := by
        rw [List.flatMap_map]
        exact List.map_eq_flatMap.symm
      dsimp only
      rw [List.flatMap_append, hasks]
      split
      · simpa [calls_eq_toolUses] using follows_asks (toolUses content) ToolUse.id []
      · simpa [calls_eq_toolUses, ResponsesItem.moves] using
          follows_asks (toolUses content) ToolUse.id []
    | system =>
      refine leads_quiet ?_ (h.results (by simp)) rfl
      dsimp only
      split
      · simp
      · simp [ResponsesItem.moves]

theorem message?_moves (parts : List AnthropicPart) :
    (message? .user parts).flatMap AnthropicMessage.moves = parts.flatMap AnthropicPart.moves := by
  rw [message?]
  split
  case isTrue hnone => rw [List.isEmpty_iff.mp hnone]; rfl
  case isFalse => simp [AnthropicMessage.moves]

/-- Without tools declared, what stands for a result is talk. -/
theorem undeclared_results (content : List Block) :
    ∀ move ∈ (content.filterMap (toolResultPart false)).flatMap AnthropicPart.moves,
      move = .say := by
  intro move hmove
  obtain ⟨part, hpart, hmove⟩ := List.mem_flatMap.mp hmove
  obtain ⟨block, -, hblock⟩ := List.mem_filterMap.mp hpart
  cases block with
  | toolResult id text isError =>
    obtain rfl := Option.some.inj hblock
    simpa [AnthropicPart.moves] using hmove
  | _ => cases hblock

/-- What follows the results of a user message is talk. -/
theorem anthropicUser_moves (imageUrls : String → Option String) (toolsDeclared : Bool)
    (labels : MediaLabels) (content : List Block) :
    ∃ talk : List WireMove, (∀ move ∈ talk, move = .say) ∧
      (anthropicUser imageUrls toolsDeclared labels content).1.flatMap AnthropicMessage.moves =
        (content.filterMap (toolResultPart toolsDeclared)).flatMap AnthropicPart.moves ++ talk := by
  rw [anthropicUser]
  dsimp only
  rw [message?_moves, List.flatMap_append, List.flatMap_append, List.append_assoc]
  refine ⟨_, fun move hmove => ?_, rfl⟩
  rcases List.mem_append.mp hmove with htext | himage
  · split at htext
    · cases htext
    · simpa [AnthropicPart.moves] using htext
  · obtain ⟨part, hpart, himage⟩ := List.mem_flatMap.mp himage
    obtain ⟨image, -, rfl⟩ := List.mem_map.mp hpart
    simpa [AnthropicPart.moves] using himage

/-- The calls and results among the parts of an assistant message. -/
theorem assistantPart_calls (content : List Block) :
    (content.filterMap (assistantPart true)).filterMap AnthropicPart.call = toolUses content := by
  rw [List.filterMap_filterMap]
  refine List.filterMap_congr fun block _ => ?_
  cases block with
  | text text =>
    rw [assistantPart]
    split <;> rfl
  | _ => rfl

theorem assistantPart_results (toolsDeclared : Bool) (content : List Block) :
    (content.filterMap (assistantPart toolsDeclared)).filterMap AnthropicPart.result = [] := by
  rw [List.filterMap_filterMap]
  refine List.filterMap_eq_nil_iff.mpr fun block _ => ?_
  cases block with
  | text text =>
    rw [assistantPart]
    split <;> rfl
  | toolUse use => cases toolsDeclared <;> rfl
  | _ => rfl

theorem anthropicMessage_leads (imageUrls : String → Option String) (model : Option String)
    (labels : MediaLabels) {msg : Canonical} (h : Shaped msg) :
    Leads AnthropicMessage.moves (anthropicMessage imageUrls true model labels msg).1 msg := by
  rw [anthropicMessage]
  split
  case h_1 compaction hc =>
    obtain ⟨hcalls, hresults⟩ := h.marker (by simp [hc])
    dsimp only
    split
    · intro waiting hanswers
      rw [hresults] at hanswers
      obtain rfl := answers_nil.mp hanswers
      rw [hcalls]
      rfl
    · exact leads_quiet (by simp [AnthropicMessage.moves, AnthropicPart.moves]) hresults hcalls
  case h_2 =>
    obtain ⟨role, content⟩ := msg
    cases role with
    | user =>
      have hreplies := moves_of_results (toolResultPart true) AnthropicPart.moves
        (fun _ _ _ => rfl) (fun block hblock => by
          cases block with
          | toolResult id content isError => exact absurd rfl (hblock id content isError)
          | _ => rfl) content
      obtain ⟨talk, htalk, hmoves⟩ := anthropicUser_moves imageUrls true labels content
      exact leads_talk ⟨talk, htalk, by rw [hmoves, hreplies]⟩ rfl
    | assistant =>
      intro waiting hanswers
      obtain rfl := h.waits (by simp) hanswers
      have hcalls := assistantPart_calls content
      dsimp only
      rw [message?]
      split
      case isTrue hnone =>
        rw [List.isEmpty_iff.mp hnone] at hcalls
        rw [callIds_assistant, ← hcalls]
        rfl
      case isFalse =>
        simp [AnthropicMessage.moves, assistantPart_results, hcalls]
    | system =>
      refine leads_quiet ?_ (h.results (by simp)) rfl
      dsimp only
      split
      · simp
      · simp [AnthropicMessage.moves, AnthropicPart.moves]

/-! ### A history -/

/-- STEP to RUN: where every message answers what waits and leaves its calls, the whole request
    leaves what the history leaves. -/
theorem follows_visit {β : Type} {emit : MediaLabels → Canonical → List β × MediaLabels}
    {moves : β → List WireMove} {messages : List Canonical}
    (hemit : ∀ msg ∈ messages, ∀ labels, Leads moves (emit labels msg).1 msg)
    {waiting left : List (Option String)} (h : Leaves waiting messages left)
    (labels : MediaLabels) :
    follows waiting ((visit emit labels messages).flatMap moves) = some left := by
  induction messages generalizing waiting labels with
  | nil => exact congrArg some h
  | cons msg rest ih =>
    obtain ⟨hanswers, hrest⟩ := h
    rw [visit, List.flatMap_append,
      follows_append_some (hemit msg List.mem_cons_self labels waiting hanswers)]
    exact ih (fun m hm => hemit m (List.mem_cons_of_mem _ hm)) hrest (emit labels msg).2

/-- A request that declares no tools holds neither a call nor a result. -/
theorem undeclared_talk (imageUrls : String → Option String) (model : Option String)
    (messages : List Canonical) :
    ∀ move ∈ wireMoves imageUrls messages (.anthropic false model),
      move = .say ∨ move = .ask [] := by
  intro move hmove
  obtain ⟨message, hmessage, hmove⟩ := List.mem_flatMap.mp hmove
  obtain ⟨msg, -, labels, hmessage⟩ := exists_of_mem_visit hmessage
  rw [anthropicMessage] at hmessage
  obtain ⟨role, content⟩ := msg
  split at hmessage
  case h_1 =>
    dsimp only at hmessage
    split at hmessage
    · obtain rfl := List.mem_singleton.mp hmessage
      simpa [AnthropicMessage.moves, AnthropicPart.result, AnthropicPart.call,
        List.filterMap_cons] using hmove
    · obtain rfl := List.mem_singleton.mp hmessage
      exact .inl (by simpa [AnthropicMessage.moves, AnthropicPart.moves] using hmove)
  case h_2 =>
    cases role with
    | user =>
      obtain ⟨talk, htalk, hmoves⟩ := anthropicUser_moves imageUrls false labels content
      have hmem := hmoves ▸ List.mem_flatMap.mpr ⟨message, hmessage, hmove⟩
      rcases List.mem_append.mp hmem with hresult | hrest
      · exact .inl (undeclared_results content move hresult)
      · exact .inl (htalk move hrest)
    | assistant =>
      dsimp only at hmessage
      rw [message?] at hmessage
      split at hmessage
      · cases hmessage
      · obtain rfl := List.mem_singleton.mp hmessage
        have hcalls : (content.filterMap (assistantPart false)).filterMap AnthropicPart.call =
            [] := by
          rw [List.filterMap_filterMap]
          refine List.filterMap_eq_nil_iff.mpr fun block _ => ?_
          cases block with
          | text text =>
            rw [assistantPart]
            split <;> rfl
          | _ => rfl
        simpa [AnthropicMessage.moves, assistantPart_results, hcalls] using hmove
    | system =>
      dsimp only at hmessage
      split at hmessage
      · cases hmessage
      · obtain rfl := List.mem_singleton.mp hmessage
        exact .inl (by simpa [AnthropicMessage.moves, AnthropicPart.moves] using hmove)

/-- Only saying and asking for nothing is answered. -/
theorem replied_of_quiet {moves : List WireMove}
    (h : ∀ move ∈ moves, move = .say ∨ move = .ask []) : Replied moves := by
  unfold Replied
  induction moves with
  | nil => rfl
  | cons move moves ih =>
    have hrest := ih fun m hm => h m (List.mem_cons_of_mem _ hm)
    rcases h move List.mem_cons_self with rfl | rfl
    · exact hrest
    · exact hrest

/-- What the history leaves to answer, each request that tells of calls leaves to answer. -/
theorem follows_wireMoves {messages : List Canonical} (hshaped : ∀ msg ∈ messages, Shaped msg)
    {left : List (Option String)} (h : Leaves [] messages left)
    (imageUrls : String → Option String) (translator : Translator)
    (hdeclared : ∀ model, translator ≠ .anthropic false model) :
    follows [] (wireMoves imageUrls messages translator) = some left := by
  cases translator with
  | chatCompletions system =>
    have hrun := follows_visit (fun msg hmsg labels =>
      openaiMessage_leads imageUrls labels (hshaped msg hmsg)) h (MediaLabels.start messages)
    rw [wireMoves, canonicalToOpenaiMessages, List.flatMap_append]
    split
    · exact hrun
    · exact hrun
  | responses =>
    exact follows_visit (fun msg hmsg labels =>
      responsesMessage_leads imageUrls labels (hshaped msg hmsg)) h (MediaLabels.start messages)
  | anthropic toolsDeclared model =>
    cases toolsDeclared with
    | true =>
      exact follows_visit (fun msg hmsg labels =>
        anthropicMessage_leads imageUrls model labels (hshaped msg hmsg)) h
          (MediaLabels.start messages)
    | false => exact absurd rfl (hdeclared model)

/-- A paired history is answered on every wire. -/
theorem replied_of_paired {messages : List Canonical} (hshaped : ∀ msg ∈ messages, Shaped msg)
    (h : Paired messages) (imageUrls : String → Option String) (translator : Translator) :
    Replied (wireMoves imageUrls messages translator) := by
  by_cases hdeclared : ∃ model, translator = .anthropic false model
  · obtain ⟨model, rfl⟩ := hdeclared
    exact replied_of_quiet (undeclared_talk imageUrls model messages)
  · exact follows_wireMoves hshaped h imageUrls translator fun model hmodel =>
      hdeclared ⟨model, hmodel⟩

/-! ### What a request tells of the tools -/

/-- What is told of a tool: a call, with whatever input a model wrote, or the result of one. -/
inductive Told where
  | call (use : ToolUse Json)
  | result (id : Option String) (content : String)

/-- A tool result, told. -/
def toldResult : Block Json → Option Told
  | .toolResult id content _ => some (.result id content)
  | _ => none

/-- What a message tells: the user's results, the assistant's calls; of a compacted one, nothing. -/
def told (msg : Canonical Json) : List Told :=
  match compactionBlock msg with
  | some _ => []
  | none => match msg.1 with
    | .user => msg.2.filterMap toldResult
    | .assistant => (calls msg.2).map .call
    | .system => []

def ChatEntry.told : ChatEntry Json → List Told
  | .tool id content => [.result id content]
  | .assistant _ toolCalls => toolCalls.map .call
  | .system _ | .user _ | .userParts .. => []

def ResponsesItem.told : ResponsesItem Json → List Told
  | .functionCall use => [.call use]
  | .functionCallOutput id output => [.result id output]
  | .user _ | .userText _ | .assistant _ => []

def AnthropicPart.told : AnthropicPart Json → Option Told
  | .toolUse use => some (.call use)
  | .toolResult id content _ => some (.result id content)
  | .text _ | .image _ | .called _ | .native _ => none

def AnthropicMessage.told (msg : AnthropicMessage Json) : List Told :=
  msg.parts.filterMap AnthropicPart.told

/-- What a request tells. -/
def toldBy (imageUrls : String → Option String) (messages : List (Canonical Json)) :
    Translator → List Told
  | .chatCompletions system =>
    (canonicalToOpenaiMessages messages system imageUrls).flatMap ChatEntry.told
  | .responses => (canonicalToResponsesInput messages imageUrls).flatMap ResponsesItem.told
  | .anthropic toolsDeclared model =>
    (canonicalToAnthropicMessages messages imageUrls toolsDeclared model).flatMap
      AnthropicMessage.told

/-- How a request shows it: the Messages API is sent `{}` for an input that is null, false, 0 or
    empty. -/
def Translator.shown : Translator → Told → Told
  | .anthropic _ _, .call use => .call { use with input := OrEmpty.orEmpty use.input }
  | _, t => t

/-- Entries made of the results alone tell them. -/
theorem told_of_results {β : Type} (part? : Block Json → Option β) (tell : β → List Told)
    (h : ∀ block, (part? block).toList.flatMap tell = (toldResult block).toList)
    (content : List (Block Json)) : (content.filterMap part?).flatMap tell =
      content.filterMap toldResult := by
  induction content with
  | nil => rfl
  | cons block rest ih =>
    have hblock := h block
    rw [List.filterMap_cons, List.filterMap_cons]
    cases hpart : part? block with
    | none =>
      rw [hpart] at hblock
      rw [Option.toList_eq_nil_iff.mp hblock.symm]
      exact ih
    | some part =>
      rw [hpart] at hblock
      cases hresult : toldResult block with
      | none =>
        rw [hresult] at hblock
        rw [List.flatMap_cons, ih]
        exact congrArg (· ++ _) (by simpa using hblock)
      | some result =>
        rw [hresult] at hblock
        rw [List.flatMap_cons, ih]
        exact congrArg (· ++ _) (by simpa using hblock)

theorem openaiMessage_told (imageUrls : String → Option String) (labels : MediaLabels)
    (msg : Canonical Json) :
    (openaiMessage imageUrls labels msg).1.flatMap ChatEntry.told = told msg := by
  obtain ⟨role, content⟩ := msg
  rw [openaiMessage, told]
  cases hc : compactionBlock (role, content) with
  | some compaction => rfl
  | none =>
    cases role with
    | user =>
      have hresults := told_of_results toolEntry ChatEntry.told
        (fun block => by cases block <;> rfl) content
      dsimp only
      rw [openaiUser]
      dsimp only
      rw [List.flatMap_append, hresults]
      split
      · simp [ChatEntry.told]
      · split
        · simp
        · simp [ChatEntry.told]
    | assistant => simp [ChatEntry.told]
    | system =>
      dsimp only
      split
      · rfl
      · rfl

theorem responsesMessage_told (imageUrls : String → Option String) (labels : MediaLabels)
    (msg : Canonical Json) :
    (responsesMessage imageUrls labels msg).1.flatMap ResponsesItem.told = told msg := by
  obtain ⟨role, content⟩ := msg
  rw [responsesMessage, told]
  cases hc : compactionBlock (role, content) with
  | some compaction => rfl
  | none =>
    cases role with
    | user =>
      have hresults := told_of_results callOutput ResponsesItem.told
        (fun block => by cases block <;> rfl) content
      dsimp only
      rw [List.flatMap_append, hresults]
      split
      · simp
      · simp [ResponsesItem.told]
    | assistant =>
      have hcalls : ((calls content).map ResponsesItem.functionCall).flatMap ResponsesItem.told =
          (calls content).map .call := by
        rw [List.flatMap_map]
        exact List.map_eq_flatMap.symm
      dsimp only
      rw [List.flatMap_append, hcalls]
      split
      · rfl
      · rfl
    | system =>
      dsimp only
      split
      · rfl
      · rfl

theorem message?_told (role : Role) (parts : List (AnthropicPart Json)) :
    (message? role parts).flatMap AnthropicMessage.told = parts.filterMap AnthropicPart.told := by
  rw [message?]
  split
  case isTrue hnone => rw [List.isEmpty_iff.mp hnone]; rfl
  case isFalse => exact List.flatMap_singleton ..

theorem shown_result (translator : Translator) (content : List (Block Json)) :
    (content.filterMap toldResult).map translator.shown = content.filterMap toldResult := by
  rw [List.map_filterMap]
  refine List.filterMap_congr fun block _ => ?_
  cases block with
  | toolResult => cases translator <;> rfl
  | _ => rfl

theorem anthropicMessage_told (imageUrls : String → Option String) (model : Option String)
    (labels : MediaLabels) (msg : Canonical Json) :
    (anthropicMessage imageUrls true model labels msg).1.flatMap AnthropicMessage.told =
      (told msg).map (Translator.anthropic true model).shown := by
  obtain ⟨role, content⟩ := msg
  rw [anthropicMessage, told]
  cases hc : compactionBlock (role, content) with
  | some compaction =>
    dsimp only
    split
    · rfl
    · rfl
  | none =>
    cases role with
    | user =>
      have hresults : (content.filterMap (toolResultPart true)).filterMap AnthropicPart.told =
          content.filterMap toldResult := by
        rw [List.filterMap_filterMap]
        exact List.filterMap_congr fun block _ => by cases block <;> rfl
      have htext (lines : List Line) : (if lines.isEmpty then [] else
          [AnthropicPart.text lines]).filterMap AnthropicPart.told = [] := by
        split
        · rfl
        · rfl
      have himages (images : List ImageSource) :
          (images.map AnthropicPart.image).filterMap AnthropicPart.told = [] := by
        simp [List.filterMap_eq_nil_iff, AnthropicPart.told]
      dsimp only
      rw [anthropicUser, shown_result]
      dsimp only
      rw [message?_told, List.filterMap_append, List.filterMap_append, hresults, htext, himages,
        List.append_nil, List.append_nil]
    | assistant =>
      dsimp only
      rw [message?_told, List.filterMap_filterMap, calls, List.map_filterMap, List.map_filterMap]
      refine List.filterMap_congr fun block _ => ?_
      cases block with
      | text text =>
        rw [assistantPart]
        split
        · rfl
        · rfl
      | _ => rfl
    | system =>
      dsimp only
      split
      · rfl
      · rfl

/-- CORRECT: whichever API a history is translated for, a request that declares tools tells of the
    same calls, with their names and inputs, and of the same results, in the order of the history;
    so does one of the other APIs, with or without tools. -/
theorem toldBy_eq (imageUrls : String → Option String) (messages : List (Canonical Json))
    (translator : Translator) (hdeclared : ∀ model, translator ≠ .anthropic false model) :
    toldBy imageUrls messages translator = (messages.flatMap told).map translator.shown := by
  have hplain (h : ∀ t, translator.shown t = t) :
      (messages.flatMap told).map translator.shown = messages.flatMap told := by
    rw [funext h]
    exact List.map_id _
  cases translator with
  | chatCompletions system =>
    rw [hplain fun _ => rfl, toldBy, canonicalToOpenaiMessages, List.flatMap_append,
      flatMap_visit (openaiMessage_told imageUrls)]
    split
    · rfl
    · rfl
  | responses =>
    rw [hplain fun _ => rfl, toldBy, canonicalToResponsesInput]
    exact flatMap_visit (responsesMessage_told imageUrls) _ messages
  | anthropic toolsDeclared model =>
    cases toolsDeclared with
    | true =>
      rw [toldBy, canonicalToAnthropicMessages, List.map_flatMap]
      exact flatMap_visit (anthropicMessage_told imageUrls model) _ messages
    | false => exact absurd rfl (hdeclared model)

/-- A call and its result, and a call that was written with an empty list. -/
def twoCalls : List (Canonical Json) :=
  [(.assistant, [.text "Let me look.",
      .toolUse ⟨some "call_1", "search", .obj [("q", .str "fern")]⟩]),
    (.user, [.toolResult (some "call_1") "three" false]),
    (.assistant, [.toolUse ⟨some "call_2", "list", .arr []⟩])]

/-- The Messages API is sent an object for the list. -/
theorem toldBy_eq_twoCalls :
    toldBy (fun _ => none) twoCalls (.anthropic true none) =
        (twoCalls.flatMap told).map (Translator.anthropic true none).shown ∧
      (twoCalls.flatMap told).map (Translator.anthropic true none).shown =
        [.call ⟨some "call_1", "search", .obj [("q", .str "fern")]⟩,
          .result (some "call_1") "three", .call ⟨some "call_2", "list", .obj []⟩] :=
  ⟨toldBy_eq _ _ (.anthropic true none) fun _ => by simp, rfl⟩

/-! ### A conversation -/

theorem shaped_fromProvider {role : Role} {blocks : List Block} (h : fromProvider blocks = true) :
    Shaped (role, blocks) where
  results := fun _ => resultIds_fromProvider h
  marker := fun hmarker => absurd (compactionBlock_fromProvider h) hmarker

theorem shaped_user {content : List Block} (h : ∀ block, .compaction block ∉ content) :
    Shaped (.user, content) where
  results := fun hrole => absurd rfl hrole
  marker := fun hmarker => absurd (compactionBlock_none h) hmarker

/-- A row that is kept tidy is well shaped. -/
theorem shaped_tidy {row : ConversationMessage} (h : Tidy row) : Shaped (canonical row) where
  results := h.results
  marker := fun hmarker => by
    have hsystem := h.marker (by simpa [isMarker, Option.isSome_iff_ne_none] using hmarker)
    exact ⟨by simp [callIds, canonical, hsystem], h.results (by simp [hsystem])⟩

theorem mem_historyRows {rows : List ConversationMessage} (ht : Table rows)
    {row : ConversationMessage} (h : row ∈ historyRows rows) : row ∈ rows := by
  rw [historyRows_eq ht.ordered ht.markersFinal] at h
  rcases List.mem_append.mp h with hmarker | hsent
  · exact (markerInForce_mem ht.ordered ht.markersFinal (Option.mem_toList.mp hmarker)).1
  · exact (mem_sentRows.mp hsent).1

theorem shaped_loadHistory {rows : List ConversationMessage} (h : Kept rows) :
    ∀ msg ∈ loadHistory rows, Shaped msg := by
  intro msg hmsg
  obtain ⟨row, hrow, rfl⟩ := List.mem_map.mp hmsg
  exact shaped_tidy (h.tidy row (mem_historyRows h.table hrow))

/-- INVARIANT: the conversation is sound, and the messages of its turn are well shaped. -/
def Wired (s : Session) : Prop :=
  Engine.Sound s ∧ ∀ turn path, s.request = some (.turn turn path) → ∀ msg ∈ turn.messages, Shaped msg

/-- Every history the step hands to the model is answered on every wire. -/
def HandsReplied (s : Session) (a : SessionAction) (t : Session) : Prop :=
  ∀ history ∈ handed s a t, ∀ imageUrls translator,
    Replied (wireMoves imageUrls history translator)

theorem shaped_concat {messages : List Canonical} {msg : Canonical}
    (h : ∀ m ∈ messages, Shaped m) (hmsg : Shaped msg) : ∀ m ∈ messages ++ [msg], Shaped m := by
  intro m hm
  rcases List.mem_append.mp hm with hm | hm
  · exact h m hm
  · rw [List.mem_singleton.mp hm]
    exact hmsg

/-- A step of a turn adds only well shaped messages. -/
theorem shaped_turnStep {s : Record} {t t' : Turn} {a : TurnAction} {record : Record}
    (hanswering : Answering s t) (hshaped : ∀ msg ∈ t.messages, Shaped msg)
    (h : turnStep s t a = some (record, .inl t')) : ∀ msg ∈ t'.messages, Shaped msg := by
  cases turnStep_cases h with
  | userSaved hpc =>
    simp only [Answering, hpc] at hanswering
    exact shaped_concat hshaped (shaped_user (compaction_not_fromUser hanswering.1))
  | called _ hblocks _ => exact shaped_concat hshaped (shaped_fromProvider hblocks)
  | nothingToSave | worded | resumed | rejected => exact hshaped
  | ran _ _ hnext =>
    rcases hnext with ⟨_, _, hended⟩ | ⟨_, _, _, hnext⟩
    · cases hended
    · cases hnext
      exact hshaped
  | resultsSaved hpc hnext =>
    simp only [Answering, hpc] at hanswering
    rcases hnext with hended | ⟨_, _, hnext⟩
    · cases hended
    · cases hnext
      exact shaped_concat hshaped (shaped_user hanswering.2)

/-- STEP: what breaks nothing off keeps the messages well shaped. -/
theorem wired_step (s : Session) (a : SessionAction) (t : Session) (hs : Wired s)
    (hok : Unbroken s a) (h : sessionStep s a = some t) : Wired t := by
  obtain ⟨hsound, hshaped⟩ := hs
  refine ⟨Engine.sound_step s a t hsound hok h, fun turn path hturn => ?_⟩
  cases sessionStep_cases h with
  | @sent record _ _ _ call hpending _ =>
    cases hturn
    have hkept := (kept_compacted hsound.1 (stands_idle hsound hpending) call).1
    have hhistory : loadHistory (compactedRows call record.rows) =
        (compactIfDue call (nextMessageSequence record.rows) (historyRows record.rows)).1.map
          canonical := congrArg (List.map canonical) (hsound.1.table.readback call).symm
    exact hhistory ▸ shaped_loadHistory hkept
  | @worked record t' path' a after hafter =>
    obtain ⟨record', next⟩ := after
    cases next with
    | inl next =>
      cases hturn
      exact shaped_turnStep hsound.2 (hshaped t' _ rfl) hafter
    | inr ended =>
      exfalso
      revert hturn
      cases ended with
      | aborted => cases hvia : path'.viaSend <;> simp [afterTurn, hvia]
      | _ => simp [afterTurn]
  | handedOff =>
    cases hturn
    exact shaped_loadHistory hsound.1
  | resumes _ _ =>
    cases hturn
    exact shaped_loadHistory hsound.1
  | finalized | responded | decided | waits | lost => cases hturn

/-- What a turn hands to the model is well shaped. -/
theorem shaped_handed {t : Turn} (h : ∀ msg ∈ t.messages, Shaped msg) :
    ∀ history ∈ t.handed, ∀ msg ∈ history, Shaped msg := by
  intro history hhistory
  rw [Turn.handed] at hhistory
  split at hhistory
  case h_1 =>
    split at hhistory
    · obtain rfl := List.mem_singleton.mp hhistory
      exact h
    · cases hhistory
  case h_2 =>
    obtain rfl := List.mem_singleton.mp hhistory
    exact shaped_concat h (shaped_user (by simp))
  case h_3 => cases hhistory

/-- What a compaction hands to the model is well shaped. -/
theorem shaped_summaryAsked {rows : List ConversationMessage} (hk : Kept rows)
    {call : CompactionCall} {history : List Canonical}
    (h : summaryAsked call (historyRows rows) = some history) : ∀ msg ∈ history, Shaped msg := by
  intro msg hmsg
  rw [summaryAsked] at h
  split at h
  case isFalse => cases h
  case isTrue =>
    obtain rfl := Option.some.inj h
    obtain ⟨row, hrow, rfl⟩ := List.mem_map.mp hmsg
    refine shaped_tidy (hk.tidy row (mem_historyRows hk.table ?_))
    rw [summarizedRows] at hrow
    split at hrow
    · exact List.mem_of_mem_dropLast hrow
    · exact hrow

theorem handsReplied_step (s : Session) (a : SessionAction) (t : Session) (hs : Wired s)
    (hok : Unbroken s a) (h : sessionStep s a = some t) : HandsReplied s a t := by
  have ht := wired_step s a t hs hok h
  have hpaired := handsPaired_step s a t hs.1 hok h
  intro history hhistory
  refine replied_of_paired ?_ (hpaired history hhistory)
  rcases List.mem_append.mp hhistory with hsummary | hturn
  · cases a with
    | send agent box content call =>
      exact shaped_summaryAsked hs.1.1 (Option.mem_toList.mp hsummary)
    | _ => cases hsummary
  · obtain ⟨record, request⟩ := t
    match request, ht, hturn with
    | some (.turn t path), ht, hturn => exact shaped_handed (ht.2 t path rfl) history hturn
    | none, _, hturn | some (.decided _), _, hturn | some (.answered _), _, hturn
    | some .aborted, _, hturn => cases hturn

/-- RUN: whatever a conversation goes through, every request its model is sent has a result right
    after each call, on every wire, as long as nothing is broken off with a call open. -/
theorem handsReplied_run {as : List SessionAction}
    (h : Schemes.Guarded sessionStep Unbroken .created as) :
    EveryStep sessionStep HandsReplied .created as :=
  everyStep_of_guarded wired_step handsReplied_step
    ⟨sound_created, fun _ _ hturn => by cases hturn⟩ h

/-- A send, a gated call decided and run, and the next turn. -/
theorem handsReplied_run_stoppedInText :
    EveryStep sessionStep HandsReplied .created stoppedInText := handsReplied_run (by decide +kernel)

end LunaCore.Providers
