import LunaCore.Providers.MediaLabels

/-! What the Messages API returned, kept in canonical blocks and sent back to it.

        returned     thinking  server call  result  text  call        _to_canonical
        canonical    native    native       native  text  tool_use
        sent         … the same, in place, when the request declares tools;
                     without tools, what the assistant said and called, as text

    A block that cannot be rebuilt from canonical fields carries what `_dump` gave of it. -/

namespace LunaCore.Providers.NativeReplay
open LunaCore.Values LunaCore.Chat LunaCore.Schemes LunaCore.Providers
open LunaCore.Flow (truthy)

/-! ### What the API returns -/

/-- A content block of a message: its type, the fields that are read of it, and `_dump(block)`. -/
structure ApiBlock where
  type : String
  thinking : Option String
  text : String
  citations : Option Json
  id : String
  name : String
  input : Option Dict
  dump : Json

/-- A canonical block of a stored message. -/
inductive HistoryBlock where
  | text (text : String) (native : Option Json)
  | thinking (text : String) (native : Option Json)
  | toolUse (use : ToolUse)
  | toolResult (toolUseId : Option String) (content : Json) (isError : Bool)
  | context (context : Json)
  | media (kind : MediaKind) (mediaId : String)
  | compaction (block : CompactionBlock)
  | webSearchCall (id : String) (queries : List Json) (native : Option Json)
  | webFetchCall (id : String) (url : Option Json) (native : Option Json)
  | native (native : Json)

/-- `block.get("native")`. -/
def HistoryBlock.native? : HistoryBlock → Option Json
  | .text _ n => n
  | .thinking _ n => n
  | .webSearchCall _ _ n => n
  | .webFetchCall _ _ n => n
  | .native n => some n
  | _ => none

/-- `_after_fallback`. -/
def afterFallback (content : List ApiBlock) : List ApiBlock :=
  let last := ((content.zipIdx.filter fun entry => entry.1.type = "fallback").map Prod.snd).max?
  match last with
  | none => content
  | some last =>
    ((content.take last).filter fun b => b.type = "text") ++ content.drop (last + 1)

/-- A block in the loop of `_to_canonical`. -/
def toCanonicalBlock (b : ApiBlock) : HistoryBlock :=
  if b.type = "thinking" then .thinking (b.thinking.getD "") (some b.dump)
  else if b.type = "redacted_thinking" then .thinking "" (some b.dump)
  else if b.type = "text" then
    .text b.text (if (b.citations.map truthy).getD false then some b.dump else none)
  else if b.type = "tool_use" then .toolUse ⟨some b.id, b.name, b.input.getD []⟩
  else if b.type = "server_tool_use" ∧ b.name = "web_search" then
    .webSearchCall b.id (((b.input.getD []).get "query").filter truthy).toList (some b.dump)
  else if b.type = "server_tool_use" ∧ b.name = "web_fetch" then
    .webFetchCall b.id ((b.input.getD []).get "url") (some b.dump)
  else .native b.dump

/-- `_to_canonical`. -/
def toCanonical (content : List ApiBlock) : List HistoryBlock :=
  (afterFallback content).map toCanonicalBlock

/-! ### What is sent -/

/-- `json.dumps(…, default=str)` and `str`. -/
structure Texts where
  dumps : Json → String
  str : Json → String

variable (write : Texts)

/-- `_tool_result_content`. -/
def toolResultContent : Json → String
  | .str content => content
  | payload => write.dumps payload

/-- `_context_as_text`. -/
def contextAsText : HistoryBlock → HistoryBlock
  | .context context => .text (if truthy context then write.str context else "") none
  | block => block

/-- A tool result, flattened to text where the call declares no tools. -/
def resultPart (toolsDeclared : Bool) : HistoryBlock → Option AnthropicPart
  | .toolResult id content isError => some <|
    if toolsDeclared then .toolResult id (toolResultContent write content) isError
    else .text [.text ("[tool result: " ++ toolResultContent write content ++ "]")]
  | _ => none

def attachments (content : List HistoryBlock) : List Attachment :=
  content.filterMap fun
    | .media kind mediaId => some (kind, mediaId)
    | _ => none

/-- The texts among blocks. -/
def blockTexts (content : List HistoryBlock) : List String :=
  content.filterMap fun
    | .text text _ => some text
    | _ => none

/-- A text part, where there is text. -/
def textPart (text : String) : Option AnthropicPart :=
  if text = "" then none else some (.text [.text text])

/-- The user branch. -/
def userParts (imageUrls : String → Option String) (toolsDeclared : Bool) (labels : MediaLabels)
    (content : List HistoryBlock) : List AnthropicPart × MediaLabels :=
  let content := content.map (contextAsText write)
  let (labeled, labels) := labelEach labels (attachments content)
  let notes := labeled.map fun l => Line.note ⟨l.1, l.2, (imageOf imageUrls l.1).isSome⟩
  let images := (attachments content).filterMap (imageOf imageUrls)
  let lines := ((blockTexts content).filter (· ≠ "")).map Line.text ++ notes
  (content.filterMap (resultPart write toolsDeclared) ++
    (if lines.isEmpty then [] else [.text lines]) ++ images.map AnthropicPart.image, labels)

/-- A block of the assistant branch. -/
def assistantPart (toolsDeclared : Bool) (b : HistoryBlock) : Option AnthropicPart :=
  match toolsDeclared, b, b.native? with
  | false, .toolUse use, _ => some (.called use)
  | false, .text text _, some _ => textPart text
  | false, _, some _ => none
  | true, _, some native => some (.native native)
  | _, .text text _, none => textPart text
  | true, .toolUse use, none => some (.toolUse use)
  | _, _, none => none

/-- The compaction block a message carries, if any. -/
def compactionOf (content : List HistoryBlock) : Option CompactionBlock :=
  content.findSome? fun
    | .compaction block => some block
    | _ => none

/-- One message of `_canonical_to_anthropic_messages`. -/
def historyMessage (imageUrls : String → Option String) (toolsDeclared : Bool)
    (model : Option String) (labels : MediaLabels) (msg : Role × List HistoryBlock) :
    List AnthropicMessage × MediaLabels :=
  match compactionOf msg.2 with
  | some compaction =>
    (if truthy compaction.native ∧ compaction.model ≠ "" ∧ model = some compaction.model then
      [⟨.assistant, [.native compaction.native]⟩]
    else [⟨.user, [.text [.text (compactionText compaction)]]⟩], labels)
  | none => match msg.1 with
    | .user =>
      let (parts, labels) := userParts write imageUrls toolsDeclared labels msg.2
      (message? .user parts, labels)
    | .assistant => (message? .assistant (msg.2.filterMap (assistantPart toolsDeclared)), labels)
    | .system => (message? .user (textPart ("\n".intercalate (blockTexts msg.2))).toList, labels)

/-- `_MediaLabels(messages)`. -/
def startLabels (messages : List (Role × List HistoryBlock)) : MediaLabels :=
  match messages.head?.bind fun msg => compactionOf msg.2 with
  | some block => mediaOf block.media
  | none => fun _ => 0

/-- `_canonical_to_anthropic_messages`. -/
def historyToAnthropicMessages (messages : List (Role × List HistoryBlock))
    (imageUrls : String → Option String) (toolsDeclared : Bool) (model : Option String) :
    List AnthropicMessage :=
  visit (historyMessage write imageUrls toolsDeclared model) (startLabels messages) messages

/-! ### Histories without native forms -/

/-- A stored block that carries no native form. -/
def historyBlock : Block → HistoryBlock
  | .text text => .text text none
  | .thinking text => .thinking text none
  | .media kind mediaId => .media kind mediaId
  | .toolUse use => .toolUse use
  | .toolResult id content isError => .toolResult id (.str content) isError
  | .compaction block => .compaction block

def historyOf (msg : Canonical) : Role × List HistoryBlock := (msg.1, msg.2.map historyBlock)

theorem compactionOf_history (msg : Canonical) :
    compactionOf (historyOf msg).2 = compactionBlock msg := by
  rw [compactionOf, historyOf, List.findSome?_map, compactionBlock]
  congr 1
  funext b
  cases b <;> rfl

theorem attachments_historyBlock (content : List Block) :
    attachments (content.map historyBlock) = attached content := by
  rw [attachments, List.filterMap_map, attached]
  congr 1
  funext b
  cases b <;> rfl

theorem blockTexts_historyBlock (content : List Block) :
    blockTexts (content.map historyBlock) = texts content := by
  rw [blockTexts, List.filterMap_map, texts]
  congr 1
  funext b
  cases b <;> rfl

theorem userParts_historyBlock (imageUrls : String → Option String) (toolsDeclared : Bool)
    (labels : MediaLabels) (content : List Block) :
    let (parts, left) := userParts write imageUrls toolsDeclared labels (content.map historyBlock)
    (message? .user parts, left) = anthropicUser imageUrls toolsDeclared labels content := by
  have hcontext : (content.map historyBlock).map (contextAsText write) =
      content.map historyBlock := by
    rw [List.map_map]
    exact List.map_congr_left fun b _ => by cases b <;> rfl
  have hresults : (content.map historyBlock).filterMap (resultPart write toolsDeclared) =
      content.filterMap (toolResultPart toolsDeclared) := by
    rw [List.filterMap_map]
    exact List.filterMap_congr fun b _ => by cases b <;> rfl
  simp only [userParts, hcontext, attachments_historyBlock, blockTexts_historyBlock, hresults]
  rfl

/-- CORRECT: on such histories this is the translator that `img-N` and `vid-N` are counted for. -/
theorem historyToAnthropicMessages_history (messages : List Canonical)
    (imageUrls : String → Option String) (toolsDeclared : Bool) (model : Option String) :
    historyToAnthropicMessages write (messages.map historyOf) imageUrls toolsDeclared model =
      canonicalToAnthropicMessages messages imageUrls toolsDeclared model := by
  have hmessage (labels : MediaLabels) (msg : Canonical) :
      historyMessage write imageUrls toolsDeclared model labels (historyOf msg) =
        anthropicMessage imageUrls toolsDeclared model labels msg := by
    obtain ⟨role, content⟩ := msg
    unfold historyMessage anthropicMessage
    rw [compactionOf_history]
    cases compactionBlock (role, content) with
    | some block => rfl
    | none =>
      cases role with
      | user => exact userParts_historyBlock write imageUrls toolsDeclared labels content
      | assistant =>
        have hparts : (content.map historyBlock).filterMap (assistantPart toolsDeclared) =
            content.filterMap (Providers.assistantPart toolsDeclared) := by
          rw [List.filterMap_map]
          exact List.filterMap_congr fun b _ => by cases b <;> cases toolsDeclared <;> rfl
        exact congrArg (fun parts => (message? .assistant parts, labels)) hparts
      | system =>
        change (message? .user (textPart _).toList, labels) = _
        rw [historyOf, blockTexts_historyBlock, textPart]
        dsimp only
        split_ifs <;> rfl
  have hstart : startLabels (messages.map historyOf) = MediaLabels.start messages := by
    cases messages with
    | nil => rfl
    | cons msg messages =>
      cases hblock : compactionBlock msg <;>
        simp only [startLabels, MediaLabels.start, List.map_cons, List.head?_cons, Option.bind_some,
          compactionOf_history, hblock]
  rw [historyToAnthropicMessages, hstart, canonicalToAnthropicMessages]
  clear hstart
  generalize MediaLabels.start messages = labels
  induction messages generalizing labels with
  | nil => rfl
  | cons msg messages ih => rw [List.map_cons, visit, visit, hmessage, ih]

/-! ### Blocks as they stand in the request -/

def textJson (text : String) : Json := .obj [("type", .str "text"), ("text", .str text)]

/-- `_flatten_tool_block` of a call. -/
def calledText (use : ToolUse) : String :=
  "[called " ++ use.name ++ " with " ++ write.dumps (.obj use.input) ++ "]"

def toolUseJson (use : ToolUse) : Json :=
  .obj [("type", .str "tool_use"), ("id", (use.id.map Json.str).getD .null), ("name", .str use.name),
    ("input", .obj use.input)]

def imageJson (source : ImageSource) : Json :=
  .obj [("type", .str "image"), ("source", .obj [("type", .str "base64"),
    ("media_type", .str source.mediaType), ("data", .str source.data)])]

/-- A part as it stands in the request. -/
def partJson : AnthropicPart → Json
  | .text lines => textJson ("\n".intercalate (lines.map Line.sent))
  | .image source => imageJson source
  | .toolResult id content isError =>
    .obj ([("type", .str "tool_result"), ("tool_use_id", (id.map Json.str).getD .null),
      ("content", .str content)] ++ if isError then [("is_error", .bool true)] else [])
  | .toolUse use => toolUseJson use
  | .called use => textJson (calledText write use)
  | .native block => block

/-! ### A call that declares tools -/

/-- `getattr(block, "citations", None)`, as a condition. -/
def ApiBlock.cited (b : ApiBlock) : Bool := (b.citations.map truthy).getD false

/-- A text block that says nothing. -/
def ApiBlock.empty (b : ApiBlock) : Bool := b.type = "text" && !b.cited && b.text = ""

/-- A call carries its id, name and input, uncited text only its text. -/
structure ApiBlock.Bare (b : ApiBlock) : Prop where
  text : b.type = "text" → b.cited = false → b.dump = textJson b.text
  call : b.type = "tool_use" → b.dump = toolUseJson ⟨some b.id, b.name, b.input.getD []⟩

theorem afterFallback_none {content : List ApiBlock} (h : ∀ b ∈ content, b.type ≠ "fallback") :
    afterFallback content = content := by
  have hnone : content.zipIdx.filter (fun entry => entry.1.type = "fallback") = [] := by
    rw [List.filter_eq_nil_iff]
    rintro ⟨b, i⟩ hmem
    rw [decide_eq_true_iff]
    exact h b (List.mem_of_getElem? (List.mem_zipIdx_iff_getElem?.mp hmem))
  simp only [afterFallback, hnone, List.map_nil, List.max?_nil]

/-- Before the last marker only text is kept, and the marker goes. -/
theorem afterFallback_last {before behind : List ApiBlock} {marker : ApiBlock}
    (hmarker : marker.type = "fallback") (h : ∀ b ∈ behind, b.type ≠ "fallback") :
    afterFallback (before ++ marker :: behind) =
      (before.filter fun b => b.type = "text") ++ behind := by
  have hlast : (((before ++ marker :: behind).zipIdx.filter fun entry =>
      entry.1.type = "fallback").map Prod.snd).max? = some before.length := by
    rw [List.max?_eq_some_iff]
    constructor
    · refine List.mem_map.mpr ⟨(marker, before.length), List.mem_filter.mpr ⟨?_, ?_⟩, rfl⟩
      · rw [List.mem_zipIdx_iff_getElem?]
        simp
      · rw [decide_eq_true_iff]
        exact hmarker
    · intro i hi
      obtain ⟨⟨b, j⟩, hmem, rfl⟩ := List.mem_map.mp hi
      obtain ⟨hget, htype⟩ := List.mem_filter.mp hmem
      rw [List.mem_zipIdx_iff_getElem?] at hget
      rw [decide_eq_true_iff] at htype
      by_contra hlt
      obtain ⟨k, hk⟩ : ∃ k, j = before.length + 1 + k := ⟨j - (before.length + 1), by omega⟩
      have hbehind : behind[k]? = some b := by
        rw [← hget, hk]
        simp [List.getElem?_append_right, Nat.add_assoc, Nat.add_comm 1 k]
      exact h b (List.mem_of_getElem? hbehind) htype
  simp only [afterFallback, hlast]
  rw [List.take_left, ← List.drop_drop, List.drop_left]
  rfl

theorem empty_of_not_text {b : ApiBlock} (h : b.type ≠ "text") : b.empty = false := by
  rw [ApiBlock.empty, decide_eq_false h, Bool.false_and, Bool.false_and]

theorem textPart_json (text : String) : (textPart text).map (partJson write) =
    if text = "" then none else some (textJson text) := by
  unfold textPart
  split
  case isTrue => rfl
  case isFalse => simp only [Option.map_some, partJson, List.map_cons, List.map_nil, Line.sent,
    String.intercalate_singleton]

/-- STEP: a block that comes back is sent as it came; only an empty text is not. -/
theorem assistantPart_toCanonicalBlock {b : ApiBlock} (h : b.Bare) :
    (assistantPart true (toCanonicalBlock b)).map (partJson write) =
      if b.empty = true then none else some b.dump := by
  have hnative : b.type ≠ "text" → some b.dump = if b.empty = true then none else some b.dump := by
    intro htype
    rw [empty_of_not_text htype, if_neg Bool.false_ne_true]
  unfold toCanonicalBlock
  split
  case isTrue ht => exact hnative (by rw [ht]; decide)
  split
  case isTrue ht => exact hnative (by rw [ht]; decide)
  split
  case isTrue ht =>
    change (match b.cited with | _ => _) = _
    cases hcited : b.cited with
    | true =>
      have hempty : b.empty = false := by rw [ApiBlock.empty, hcited, Bool.not_true, Bool.and_false,
        Bool.false_and]
      unfold ApiBlock.cited at hcited
      rw [hcited, hempty]
      rfl
    | false =>
      have hdump := h.text ht hcited
      have hempty : b.empty = decide (b.text = "") := by
        rw [ApiBlock.empty, hcited, ht, decide_eq_true rfl, Bool.not_false, Bool.true_and, Bool.true_and]
      unfold ApiBlock.cited at hcited
      rw [hcited, hempty, hdump]
      simp only [Bool.false_eq_true, if_false, decide_eq_true_eq]
      exact textPart_json write b.text
  split
  case isTrue ht =>
    rw [h.call ht, empty_of_not_text (by rw [ht]; decide), if_neg Bool.false_ne_true]
    rfl
  case isFalse htext hcall =>
    split
    case isTrue => exact hnative htext
    split
    case isTrue => exact hnative htext
    case isFalse => exact hnative htext

theorem mem_of_mem_afterFallback {content : List ApiBlock} {b : ApiBlock}
    (h : b ∈ afterFallback content) : b ∈ content := by
  unfold afterFallback at h
  dsimp only at h
  split at h
  · exact h
  · rcases List.mem_append.mp h with h | h
    · exact List.mem_of_mem_take (List.mem_of_mem_filter h)
    · exact List.mem_of_mem_drop h

/-- A turn comes back block by block. -/
theorem assistantParts_toCanonical {content : List ApiBlock} (h : ∀ b ∈ content, b.Bare) :
    ((toCanonical content).filterMap (assistantPart true)).map (partJson write) =
      ((afterFallback content).filter fun b => !b.empty).map ApiBlock.dump := by
  have hkept : ∀ b ∈ afterFallback content, b.Bare := fun b hb => h b (mem_of_mem_afterFallback hb)
  rw [toCanonical, List.filterMap_map, List.map_filterMap]
  generalize afterFallback content = kept at hkept
  induction kept with
  | nil => rfl
  | cons b kept ih =>
    have hrest := ih fun c hc => hkept c (List.mem_cons_of_mem _ hc)
    have hb := assistantPart_toCanonicalBlock write (hkept b List.mem_cons_self)
    cases hempty : b.empty with
    | true =>
      rw [hempty, if_pos rfl] at hb
      rw [List.filterMap_cons, Function.comp_apply, hb, hrest,
        List.filter_cons_of_neg (by rw [hempty]; decide)]
    | false =>
      rw [hempty, if_neg Bool.false_ne_true] at hb
      rw [List.filterMap_cons, Function.comp_apply, hb, hrest,
        List.filter_cons_of_pos (by rw [hempty]; decide), List.map_cons]

/-! ### One turn in a history -/

/-- A message as it stands in the request. -/
def asSent (msg : AnthropicMessage) : Role × List Json := (msg.role, msg.parts.map (partJson write))

/-- The assistant message of the blocks, where there are any. -/
def sentTurn (blocks : List Json) : List (Role × List Json) :=
  if blocks = [] then [] else [(.assistant, blocks)]

theorem asSent_message? (parts : List AnthropicPart) :
    (message? .assistant parts).map (asSent write) = sentTurn (parts.map (partJson write)) := by
  cases parts <;> rfl

theorem compactionOf_toCanonical (content : List ApiBlock) :
    compactionOf (toCanonical content) = none := by
  rw [compactionOf, toCanonical, List.findSome?_eq_none_iff]
  intro block hblock
  obtain ⟨b, -, rfl⟩ := List.mem_map.mp hblock
  unfold toCanonicalBlock
  split_ifs <;> rfl

/-- STEP: a turn is one message, whatever the labels. -/
theorem historyMessage_toCanonical (imageUrls : String → Option String) (toolsDeclared : Bool)
    (model : Option String) (labels : MediaLabels) (content : List ApiBlock) :
    historyMessage write imageUrls toolsDeclared model labels (.assistant, toCanonical content) =
      (message? .assistant ((toCanonical content).filterMap (assistantPart toolsDeclared)),
        labels) := by
  simp only [historyMessage, compactionOf_toCanonical]

theorem startLabels_toCanonical (before after : List (Role × List HistoryBlock))
    (content : List ApiBlock) :
    startLabels (before ++ (.assistant, toCanonical content) :: after) = startLabels before := by
  cases before with
  | nil =>
    rw [startLabels, List.nil_append, List.head?_cons, Option.bind_some, compactionOf_toCanonical]
    rfl
  | cons msg before => rfl

/-- Around a turn the request is the same whatever the turn holds. -/
theorem exists_around (imageUrls : String → Option String) (toolsDeclared : Bool)
    (model : Option String) (before after : List (Role × List HistoryBlock)) :
    ∃ front back, ∀ content, historyToAnthropicMessages write
        (before ++ (.assistant, toCanonical content) :: after) imageUrls toolsDeclared model =
      front ++ message? .assistant ((toCanonical content).filterMap (assistantPart toolsDeclared)) ++
        back := by
  let emit := historyMessage write imageUrls toolsDeclared model
  obtain ⟨left, hleft⟩ := visit_append emit (startLabels before) before
  refine ⟨visit emit (startLabels before) before, visit emit left after, fun content => ?_⟩
  have hturn : emit left (.assistant, toCanonical content) = _ :=
    historyMessage_toCanonical write imageUrls toolsDeclared model left content
  rw [historyToAnthropicMessages, startLabels_toCanonical, hleft, visit, hturn, List.append_assoc]

/-! ### Pieces that stand in a text -/

/-- The pieces stand in the text, in order and apart from each other. -/
def InOrder (pieces : List String) (text : String) : Prop :=
  ∃ parts, pieces.Sublist parts ∧ String.join parts = text

theorem InOrder.nil (text : String) : InOrder [] text :=
  ⟨[text], List.nil_sublist _, by rw [String.join_cons, String.join_nil, String.append_empty]⟩

theorem InOrder.join (pieces : List String) : InOrder pieces (String.join pieces) :=
  ⟨pieces, List.Sublist.refl _, rfl⟩

theorem InOrder.append {pieces others : List String} {text rest : String} (h : InOrder pieces text)
    (hrest : InOrder others rest) : InOrder (pieces ++ others) (text ++ rest) := by
  obtain ⟨parts, hsub, rfl⟩ := h
  obtain ⟨more, hmore, rfl⟩ := hrest
  exact ⟨parts ++ more, hsub.append hmore, String.join_append⟩

theorem InOrder.followed {pieces : List String} {text : String} (h : InOrder pieces text)
    (rest : String) : InOrder pieces (text ++ rest) := by
  have hmore := h.append (.nil rest)
  rwa [List.append_nil] at hmore

theorem InOrder.sublist {pieces fewer : List String} {text : String} (h : InOrder pieces text)
    (hsub : fewer.Sublist pieces) : InOrder fewer text := by
  obtain ⟨parts, hparts, htext⟩ := h
  exact ⟨parts, hsub.trans hparts, htext⟩

theorem InOrder.intercalate (sep : String) (pieces : List String) :
    InOrder pieces (sep.intercalate pieces) := by
  induction pieces with
  | nil => exact .nil _
  | cons piece rest ih =>
    have hpiece : InOrder [piece] piece :=
      ⟨[piece], List.Sublist.refl _, by rw [String.join_cons, String.join_nil, String.append_empty]⟩
    cases rest with
    | nil => rwa [String.intercalate_singleton]
    | cons next rest =>
      rw [String.intercalate_cons_cons]
      exact (hpiece.append (.nil sep)).append ih

/-! ### A call that declares no tools -/

/-- What a block of an assistant message says: its text, or the call it makes. -/
def spoken : HistoryBlock → Option String
  | .text text _ => if text = "" then none else some text
  | .toolUse use => some (calledText write use)
  | _ => none

/-- A tool result as text. -/
def resultText : HistoryBlock → Option String
  | .toolResult _ content _ => some ("[tool result: " ++ toolResultContent write content ++ "]")
  | _ => none

/-- The texts, calls and results of a message, in order; those of a user message results first. One
    that carries a compaction is the summary, not what it says itself. -/
def said (msg : Role × List HistoryBlock) : List String :=
  match compactionOf msg.2, msg.1 with
  | some _, _ => []
  | none, .user =>
    let content := msg.2.map (contextAsText write)
    content.filterMap (resultText write) ++ (blockTexts content).filter (· ≠ "")
  | none, .assistant => msg.2.filterMap (spoken write)
  | none, .system => (blockTexts msg.2).filter (· ≠ "")

/-- The text of a part. -/
def partText : AnthropicPart → Option String
  | .text lines => some ("\n".intercalate (lines.map Line.sent))
  | .called use => some (calledText write use)
  | _ => none

/-- All text a request shows. -/
def textOf (messages : List AnthropicMessage) : String :=
  String.join (messages.flatMap fun msg => msg.parts.filterMap (partText write))

theorem textOf_append (messages others : List AnthropicMessage) :
    textOf write (messages ++ others) = textOf write messages ++ textOf write others := by
  rw [textOf, List.flatMap_append, String.join_append]
  rfl

theorem textOf_message? (role : Role) (parts : List AnthropicPart) :
    textOf write (message? role parts) = String.join (parts.filterMap (partText write)) := by
  cases parts with
  | nil => rfl
  | cons part parts =>
    change String.join (List.flatMap _ [_]) = _
    rw [List.flatMap_singleton]

theorem textPart_text (text : String) : (textPart text).bind (partText write) =
    if text = "" then none else some text := by
  unfold textPart
  split
  · rfl
  · simp only [Option.bind_some, partText, List.map_cons, List.map_nil, Line.sent,
      String.intercalate_singleton]

theorem assistantPart_said (content : List HistoryBlock) :
    (content.filterMap (assistantPart false)).filterMap (partText write) =
      content.filterMap (spoken write) := by
  rw [List.filterMap_filterMap]
  refine List.filterMap_congr fun b _ => ?_
  cases b with
  | text text native => cases native <;> exact textPart_text write text
  | thinking text native => cases native <;> rfl
  | webSearchCall id queries native => cases native <;> rfl
  | webFetchCall id url native => cases native <;> rfl
  | _ => rfl

theorem resultPart_said (content : List HistoryBlock) :
    (content.filterMap (resultPart write false)).filterMap (partText write) =
      content.filterMap (resultText write) := by
  rw [List.filterMap_filterMap]
  refine List.filterMap_congr fun b _ => ?_
  cases b with
  | toolResult id payload isError =>
    simp only [resultPart, resultText, Bool.false_eq_true, if_false, Option.bind_some, partText,
      List.map_cons, List.map_nil, Line.sent, String.intercalate_singleton]
  | _ => rfl

/-- A user message's texts stand in the part they are sent in, its notes behind them. -/
theorem lines_inOrder (texts : List String) (notes : List Line) :
    let lines := texts.map Line.text ++ notes
    InOrder texts (String.join
      ((if lines.isEmpty then [] else [AnthropicPart.text lines]).filterMap (partText write))) := by
  intro lines
  split
  case isTrue hempty =>
    obtain rfl : texts = [] :=
      List.map_eq_nil_iff.mp (List.append_eq_nil_iff.mp (List.isEmpty_iff.mp hempty)).1
    exact .nil _
  case isFalse =>
    have hsent : lines.map Line.sent = texts ++ notes.map Line.sent := by
      rw [List.map_append, List.map_map]
      exact congrArg (· ++ _) (List.map_id texts)
    rw [List.filterMap_cons, partText, hsent, List.filterMap_nil, String.join_cons, String.join_nil,
      String.append_empty]
    exact (InOrder.intercalate _ _).sublist (List.sublist_append_left _ _)

/-- A system message's texts are one part, where they say anything. -/
theorem textPart_join (text : String) :
    String.join ((textPart text).toList.filterMap (partText write)) = text := by
  have htext := textPart_text write text
  by_cases hempty : text = ""
  · rw [textPart, if_pos hempty, hempty]
    rfl
  · rw [textPart, if_neg hempty, if_neg hempty, Option.bind_some] at htext
    rw [textPart, if_neg hempty, Option.toList_some, List.filterMap_cons, htext, List.filterMap_nil,
      String.join_cons, String.join_nil, String.append_empty]

/-- STEP: what a message says stands in what is sent for it. -/
theorem historyMessage_inOrder (imageUrls : String → Option String) (model : Option String)
    (labels : MediaLabels) (msg : Role × List HistoryBlock) :
    InOrder (said write msg)
      (textOf write (historyMessage write imageUrls false model labels msg).1) := by
  obtain ⟨role, content⟩ := msg
  unfold said historyMessage
  cases hcompaction : compactionOf content with
  | some block => exact .nil _
  | none =>
    cases role with
    | user =>
      simp only [userParts]
      rw [textOf_message?, List.filterMap_append, List.filterMap_append, resultPart_said,
        List.append_assoc, String.join_append, String.join_append]
      exact (InOrder.join _).append ((lines_inOrder write _ _).followed _)
    | assistant =>
      simp only
      rw [textOf_message?, assistantPart_said]
      exact .join _
    | system =>
      simp only
      rw [textOf_message?, textPart_join]
      exact (InOrder.intercalate _ _).sublist List.filter_sublist

/-- RUN: what the history says stands in what is sent. -/
theorem historyToAnthropicMessages_inOrder (history : List (Role × List HistoryBlock))
    (imageUrls : String → Option String) (model : Option String) :
    InOrder (history.flatMap (said write))
      (textOf write (historyToAnthropicMessages write history imageUrls false model)) := by
  unfold historyToAnthropicMessages
  generalize startLabels history = labels
  induction history generalizing labels with
  | nil => exact .nil _
  | cons msg history ih =>
    rw [List.flatMap_cons, visit, textOf_append]
    exact (historyMessage_inOrder write imageUrls model labels msg).append (ih _)

/-- What an answer's block says: its text, or the call to one of the request's own tools. -/
def ApiBlock.spoken (b : ApiBlock) : Option String :=
  if b.type = "text" then if b.text = "" then none else some b.text
  else if b.type = "tool_use" then some (calledText write ⟨some b.id, b.name, b.input.getD []⟩)
  else none

theorem spoken_toCanonicalBlock (b : ApiBlock) :
    spoken write (toCanonicalBlock b) = b.spoken write := by
  unfold toCanonicalBlock ApiBlock.spoken
  split
  case isTrue ht => rw [if_neg (by rw [ht]; decide), if_neg (by rw [ht]; decide)]; rfl
  split
  case isTrue ht => rw [if_neg (by rw [ht]; decide), if_neg (by rw [ht]; decide)]; rfl
  split
  case isTrue => rfl
  split
  case isTrue => rfl
  case isFalse => split_ifs <;> rfl

theorem said_toCanonical (content : List ApiBlock) :
    said write (.assistant, toCanonical content) =
      (afterFallback content).filterMap (ApiBlock.spoken write) := by
  rw [said, compactionOf_toCanonical]
  change List.filterMap _ (List.map _ _) = _
  rw [List.filterMap_map]
  exact List.filterMap_congr fun b _ => spoken_toCanonicalBlock write b

/-- What may stand in such a request: a text, a picture, or what a provider wrote of a compaction. -/
def Plain (history : List (Role × List HistoryBlock)) (part : AnthropicPart) : Prop :=
  (∃ text, partJson write part = textJson text) ∨
    (∃ source, partJson write part = imageJson source) ∨
      ∃ msg ∈ history, ∃ block, compactionOf msg.2 = some block ∧ part = .native block.native

theorem textPart_plain {text : String} {part : AnthropicPart} (h : textPart text = some part) :
    ∃ shown, partJson write part = textJson shown := by
  unfold textPart at h
  split at h
  · cases h
  · cases h
    exact ⟨_, rfl⟩

theorem assistantPart_plain {b : HistoryBlock} {part : AnthropicPart}
    (h : assistantPart false b = some part) : ∃ shown, partJson write part = textJson shown := by
  cases b with
  | text text native =>
    cases native with
    | none => exact textPart_plain write h
    | some native => exact textPart_plain write h
  | toolUse use =>
    cases h
    exact ⟨_, rfl⟩
  | thinking text native => cases native <;> cases h
  | webSearchCall id queries native => cases native <;> cases h
  | webFetchCall id url native => cases native <;> cases h
  | _ => cases h

theorem resultPart_plain {b : HistoryBlock} {part : AnthropicPart}
    (h : resultPart write false b = some part) : ∃ shown, partJson write part = textJson shown := by
  cases b with
  | toolResult id content isError =>
    cases h
    exact ⟨_, rfl⟩
  | _ => cases h

theorem mem_message? {role : Role} {parts : List AnthropicPart} {msg : AnthropicMessage}
    (h : msg ∈ message? role parts) : msg.parts = parts := by
  unfold message? at h
  split at h
  · cases h
  · rw [List.mem_singleton.mp h]

/-- STEP: a message is sent as plain parts. -/
theorem historyMessage_plain {history : List (Role × List HistoryBlock)}
    {imageUrls : String → Option String} {model : Option String} {labels : MediaLabels}
    {msg : Role × List HistoryBlock} (hmsg : msg ∈ history) {sent : AnthropicMessage}
    (hsent : sent ∈ (historyMessage write imageUrls false model labels msg).1) :
    ∀ part ∈ sent.parts, Plain write history part := by
  obtain ⟨role, content⟩ := msg
  unfold historyMessage at hsent
  intro part hpart
  cases hcompaction : compactionOf content with
  | some block =>
    simp only [hcompaction] at hsent
    split at hsent
    · obtain rfl := List.mem_singleton.mp hsent
      exact .inr (.inr ⟨_, hmsg, block, hcompaction, List.mem_singleton.mp hpart⟩)
    · obtain rfl := List.mem_singleton.mp hsent
      obtain rfl := List.mem_singleton.mp hpart
      exact .inl ⟨_, rfl⟩
  | none =>
    simp only [hcompaction] at hsent
    cases role with
    | user =>
      rw [mem_message? hsent] at hpart
      rcases List.mem_append.mp hpart with hpart | himage
      · rcases List.mem_append.mp hpart with hresult | hlines
        · obtain ⟨b, -, hb⟩ := List.mem_filterMap.mp hresult
          exact .inl (resultPart_plain write hb)
        · split at hlines
          · cases hlines
          · obtain rfl := List.mem_singleton.mp hlines
            exact .inl ⟨_, rfl⟩
      · obtain ⟨source, -, rfl⟩ := List.mem_map.mp himage
        exact .inr (.inl ⟨source, rfl⟩)
    | assistant =>
      rw [mem_message? hsent] at hpart
      obtain ⟨b, -, hb⟩ := List.mem_filterMap.mp hpart
      exact .inl (assistantPart_plain write hb)
    | system =>
      rw [mem_message? hsent] at hpart
      exact .inl (textPart_plain write (Option.mem_toList.mp hpart))

/-! ### Both calls -/

def webSearch : ApiBlock where
  type := "server_tool_use"
  thinking := none
  text := ""
  citations := none
  id := "srvtoolu_1"
  name := "web_search"
  input := some [("query", .str "rain")]
  dump := .obj [("type", .str "server_tool_use"), ("id", .str "srvtoolu_1"),
    ("name", .str "web_search"), ("input", .obj [("query", .str "rain")])]

def searchResult : ApiBlock where
  type := "web_search_tool_result"
  thinking := none
  text := ""
  citations := none
  id := ""
  name := ""
  input := none
  dump := .obj [("type", .str "web_search_tool_result"), ("tool_use_id", .str "srvtoolu_1"),
    ("content", .arr [])]

/-- Without tools a search of the provider's and its result leave no trace, and what a user says
    before a tool result comes after it. -/
theorem search_unsaid : let write : Texts := ⟨fun _ => "", fun _ => ""⟩
    historyToAnthropicMessages write [(.assistant, toCanonical [webSearch, searchResult])]
      (fun _ => none) false none = [] ∧
    historyToAnthropicMessages write
      [(.user, [.text "And now?" none, .toolResult (some "toolu_1") (.str "4") false])]
      (fun _ => none) false none =
        [⟨.user, [.text [.text "[tool result: 4]"], .text [.text "And now?"]]⟩] :=
  ⟨rfl, rfl⟩

/-- CORRECT: with tools a turn is sent as it came but for its empty texts and what a fallback
    replaced, wherever it stands in a history; without them every text, every call to the request's
    own tools and every result is sent as text, in order, and nothing else but pictures and what a
    provider wrote of a compaction. -/
theorem nativeReplay_correct (imageUrls : String → Option String) (model : Option String) :
    (∀ before after, ∃ front back, ∀ content, (∀ b ∈ content, b.Bare) →
      (historyToAnthropicMessages write (before ++ (.assistant, toCanonical content) :: after)
        imageUrls true model).map (asSent write) =
          front ++ sentTurn (((afterFallback content).filter fun b => !b.empty).map ApiBlock.dump) ++
            back) ∧
    (∀ content, (∀ b ∈ content, b.type ≠ "fallback") → afterFallback content = content) ∧
    (∀ before marker behind, marker.type = "fallback" → (∀ b ∈ behind, b.type ≠ "fallback") →
      afterFallback (before ++ marker :: behind) =
        (before.filter fun b => b.type = "text") ++ behind) ∧
    (∀ history, let sent := historyToAnthropicMessages write history imageUrls false model
      (∀ msg ∈ sent, ∀ part ∈ msg.parts, Plain write history part) ∧
        InOrder (history.flatMap (said write)) (textOf write sent)) ∧
    ∀ content, said write (.assistant, toCanonical content) =
      (afterFallback content).filterMap (ApiBlock.spoken write) := by
  refine ⟨fun before after => ?_, fun _ => afterFallback_none, fun _ _ _ => afterFallback_last,
    fun history => ⟨fun msg hmsg => ?_, ?_⟩, said_toCanonical write⟩
  · obtain ⟨front, back, haround⟩ := exists_around write imageUrls true model before after
    refine ⟨front.map (asSent write), back.map (asSent write), fun content hbare => ?_⟩
    rw [haround, List.map_append, List.map_append, asSent_message?,
      assistantParts_toCanonical write hbare]
  · obtain ⟨source, hsource, labels, hsent⟩ := exists_of_mem_visit hmsg
    exact historyMessage_plain write hsource hsent
  · exact historyToAnthropicMessages_inOrder write history imageUrls model

theorem search_replayed : let write : Texts := ⟨fun _ => "", fun _ => ""⟩
    ∃ front back, (historyToAnthropicMessages write
      [(.assistant, toCanonical [webSearch, searchResult])] (fun _ => none) true none).map
        (asSent write) = front ++ [(.assistant, [webSearch.dump, searchResult.dump])] ++ back := by
  intro write
  obtain ⟨front, back, hturn⟩ := (nativeReplay_correct write (fun _ => none) none).1 [] []
  refine ⟨front, back, hturn [webSearch, searchResult] fun b hb => ?_⟩
  rcases List.mem_pair.mp hb with rfl | rfl
  · exact ⟨fun h => absurd h (by decide), fun h => absurd h (by decide)⟩
  · exact ⟨fun h => absurd h (by decide), fun h => absurd h (by decide)⟩

end LunaCore.Providers.NativeReplay
