import LunaCore.Chat.Compaction
import LunaCore.Flow.NodeConfig
import LunaCore.Providers.StreamedTurn
import LunaCore.Schemes.Tally

/-! The `img-N` / `vid-N` labels of attachments, as the three translators of a history give them.

        history   compaction {image: 2}   "here" 🞏 🞏   "thanks"   "and" 🞏
        labels                                 3 4                     5

    Each translator walks the messages with counters of its own. A history that starts at a
    compaction starts them at the attachments the summary replaced. Assistant blocks are taken as
    the engine stores them, without the native form some providers keep beside them: it holds no
    attachment. The CLI provider is sent the chat-completions translation, rendered as one text. -/

namespace LunaCore.Providers
open LunaCore.Values LunaCore.Chat LunaCore.Schemes
open LunaCore.Flow (truthy)

variable {Input : Type}

/-! ### Labels and notes -/

/-- `_LABELED_KINDS`: the label's prefix, the note's wording and what "shown" means. -/
def labeledKinds : MediaKind → String × String × String
  | .image => ("img", "image attached", "shown below")
  | .video => ("vid", "video attached", "first frame shown below")

/-- The label of the `n`-th attachment of a kind. -/
def labelOf (kind : MediaKind) (n : ℕ) : String := (labeledKinds kind).1 ++ "-" ++ toString n

/-- `_MediaLabels._seq`. -/
abbrev MediaLabels := MediaKind → ℕ

/-- The counts of a compaction, by kind. -/
def mediaOf (counts : MediaCounts) : MediaLabels
  | .image => counts.image
  | .video => counts.video

/-- `_MediaLabels(messages)`. -/
def MediaLabels.start (messages : List (Canonical Input)) : MediaLabels :=
  match messages.head?.bind compactionBlock with
  | some block => mediaOf block.media
  | none => fun _ => 0

/-- `_MediaLabels.next`. -/
def MediaLabels.next (labels : MediaLabels) (kind : MediaKind) : String × MediaLabels :=
  let n := labels kind + 1
  (labelOf kind n, Function.update labels kind n)

/-- An attachment: its kind and its `media_id`. -/
abbrev Attachment := MediaKind × String

/-- The attachments among blocks. -/
def attached (content : List (Block Input)) : List Attachment :=
  content.filterMap fun
    | .media kind mediaId => some (kind, mediaId)
    | _ => none

/-- What a note tells of an attachment; the text names the label only. -/
structure Note where
  attachment : Attachment
  label : String
  shown : Bool

/-- `_media_note`. -/
def mediaNote (note : Note) : String :=
  let (_, what, shownText) := labeledKinds note.attachment.1
  if note.shown then "[" ++ what ++ ": " ++ note.label ++ " (" ++ shownText ++ ")]"
  else "[" ++ what ++ ": " ++ note.label ++ "]"

/-- A line of what a user turn reads: its text, or a note. The lines of a text are joined with a
    newline. -/
inductive Line where
  | text (text : String)
  | note (note : Note)

/-- The line as it is sent. -/
def Line.sent : Line → String
  | .text t => t
  | .note n => mediaNote n

def Line.note? : Line → Option Note
  | .text _ => none
  | .note n => some n

/-- The texts among blocks. -/
def texts (content : List (Block Input)) : List String :=
  content.filterMap fun
    | .text text => some text
    | _ => none

/-- Those that say anything, as lines. -/
def textLines (content : List (Block Input)) : List Line :=
  ((texts content).filter (· ≠ "")).map Line.text

/-- `(image_urls or {}).get(media_id)`, where it is worth anything. -/
def urlOf (imageUrls : String → Option String) (a : Attachment) : Option String :=
  (imageUrls a.2).filter (· ≠ "")

/-- `compaction_text`. -/
def compactionText (block : CompactionBlock) : String :=
  let summary := match block.native with
    | .obj fields => match Dict.get fields "content" with
      | some (.str summary) => strip summary
      | _ => ""
    | _ => ""
  "[Earlier conversation, summarized]\n" ++ summary

/-- The calls of `labels.next` over attachments in order. -/
def labelEach : MediaLabels → List Attachment → List (Attachment × String) × MediaLabels
  | labels, [] => ([], labels)
  | labels, a :: rest =>
    let (label, labels) := MediaLabels.next labels a.1
    let (labeled, labels) := labelEach labels rest
    ((a, label) :: labeled, labels)

/-! ### `_canonical_to_openai_messages` -/

/-- An entry of the chat-completions `messages`; a user text stands as its lines. -/
inductive ChatEntry (Input : Type := Dict) where
  | system (content : String)
  | tool (toolCallId : Option String) (content : String)
  | user (content : List Line)
  | userParts (text : List Line) (imageUrls : List String)
  | assistant (content : Option String) (toolCalls : List (ToolUse Input))

/-- The entry of a tool result. -/
def toolEntry : Block Input → Option (ChatEntry Input)
  | .toolResult id content _ => some (.tool id content)
  | _ => none

/-- The user branch. -/
def openaiUser (imageUrls : String → Option String) (labels : MediaLabels)
    (content : List (Block Input)) : List (ChatEntry Input) × MediaLabels :=
  let (labeled, labels) := labelEach labels (attached content)
  let renderedUrls := (attached content).filterMap (urlOf imageUrls)
  let shown := labeled.map fun l => Line.note ⟨l.1, l.2, (urlOf imageUrls l.1).isSome⟩
  let plain := labeled.map fun l => Line.note ⟨l.1, l.2, false⟩
  let entries :=
    if renderedUrls ≠ [] then [ChatEntry.userParts (textLines content ++ shown) renderedUrls]
    else if textLines content ++ plain = [] then []
    else [.user (textLines content ++ plain)]
  (content.filterMap toolEntry ++ entries, labels)

/-- The tool uses among blocks. -/
def calls (content : List (Block Input)) : List (ToolUse Input) :=
  content.filterMap fun
    | .toolUse use => some use
    | _ => none

/-- One message. -/
def openaiMessage (imageUrls : String → Option String) (labels : MediaLabels)
    (msg : Canonical Input) : List (ChatEntry Input) × MediaLabels :=
  match compactionBlock msg with
  | some compaction => ([.user [.text (compactionText compaction)]], labels)
  | none => match msg.1 with
    | .user => openaiUser imageUrls labels msg.2
    | .assistant =>
      let content := if texts msg.2 = [] then none else some ("\n".intercalate (texts msg.2))
      ([.assistant content (calls msg.2)], labels)
    | .system =>
      let text := "\n".intercalate (texts msg.2)
      (if text = "" then [] else [.system text], labels)

/-- `_canonical_to_openai_messages`. -/
def canonicalToOpenaiMessages (messages : List (Canonical Input)) (system : String)
    (imageUrls : String → Option String) : List (ChatEntry Input) :=
  (if system = "" then [] else [.system system]) ++
    visit (openaiMessage imageUrls) (MediaLabels.start messages) messages

/-- The notes an entry shows. -/
def ChatEntry.notes : ChatEntry Input → List Note
  | .user lines | .userParts lines _ => lines.filterMap Line.note?
  | _ => []

/-! ### `_canonical_to_responses_input` -/

inductive ResponsesPart where
  | inputText (line : Line)
  | inputImage (imageUrl : String)

/-- An item of the Responses `input`. -/
inductive ResponsesItem (Input : Type := Dict) where
  | user (parts : List ResponsesPart)
  | userText (content : String)
  | assistant (content : String)
  | functionCall (use : ToolUse Input)
  | functionCallOutput (callId : Option String) (output : String)

/-- The item of a tool result. -/
def callOutput : Block Input → Option (ResponsesItem Input)
  | .toolResult id content _ => some (.functionCallOutput id content)
  | _ => none

/-- The parts of a user turn, in content order. -/
def responsesParts (imageUrls : String → Option String) :
    MediaLabels → List (Block Input) → List ResponsesPart × MediaLabels
  | labels, [] => ([], labels)
  | labels, .text text :: rest =>
    let (parts, labels) := responsesParts imageUrls labels rest
    ((if text = "" then [] else [.inputText (.text text)]) ++ parts, labels)
  | labels, .media kind mediaId :: rest =>
    let (label, labels) := MediaLabels.next labels kind
    let (parts, labels) := responsesParts imageUrls labels rest
    (match urlOf imageUrls (kind, mediaId) with
      | some url => .inputText (.note ⟨(kind, mediaId), label, true⟩) :: .inputImage url :: parts
      | none => .inputText (.note ⟨(kind, mediaId), label, false⟩) :: parts, labels)
  | labels, _ :: rest => responsesParts imageUrls labels rest

/-- One message. -/
def responsesMessage (imageUrls : String → Option String) (labels : MediaLabels)
    (msg : Canonical Input) : List (ResponsesItem Input) × MediaLabels :=
  match compactionBlock msg with
  | some compaction => ([.user [.inputText (.text (compactionText compaction))]], labels)
  | none => match msg.1 with
    | .user =>
      let (parts, labels) := responsesParts imageUrls labels msg.2
      (msg.2.filterMap callOutput ++ if parts.isEmpty then [] else [.user parts], labels)
    | .assistant =>
      let textParts := (texts msg.2).filter (· ≠ "")
      ((if textParts = [] then [] else [.assistant ("\n".intercalate textParts)]) ++
        (calls msg.2).map ResponsesItem.functionCall, labels)
    | .system =>
      let text := "\n".intercalate (texts msg.2)
      (if text = "" then [] else [.userText text], labels)

/-- `_canonical_to_responses_input`. -/
def canonicalToResponsesInput (messages : List (Canonical Input))
    (imageUrls : String → Option String) : List (ResponsesItem Input) :=
  visit (responsesMessage imageUrls) (MediaLabels.start messages) messages

def ResponsesPart.note? : ResponsesPart → Option Note
  | .inputText line => line.note?
  | .inputImage _ => none

/-- The notes an item shows. -/
def ResponsesItem.notes : ResponsesItem Input → List Note
  | .user parts => parts.filterMap ResponsesPart.note?
  | _ => []

/-! ### `_canonical_to_anthropic_messages` -/

/-- The source of an image block. -/
structure ImageSource where
  mediaType : String
  data : String

/-- `_data_url_to_image_block`: what stands between `data:` and the comma names the type. -/
def dataUrlToImageBlock (url : String) : Option ImageSource :=
  let chars := url.toList
  let header := chars.takeWhile (· ≠ ',')
  if "data:".toList <+: chars ∧ ',' ∈ chars ∧ ";base64".toList <:+: header then
    let mediaType := (header.drop 5).takeWhile (· ≠ ';')
    some ⟨if mediaType = [] then "image/png" else String.ofList mediaType,
      String.ofList ((chars.dropWhile (· ≠ ',')).drop 1)⟩
  else none

/-- A part of a Messages API message; `called` is the text a call is flattened to. -/
inductive AnthropicPart (Input : Type := Dict) where
  | text (lines : List Line)
  | image (source : ImageSource)
  | toolResult (toolUseId : Option String) (content : String) (isError : Bool)
  | toolUse (use : ToolUse Input)
  | called (use : ToolUse Input)
  | native (block : Json)

structure AnthropicMessage (Input : Type := Dict) where
  role : Role
  parts : List (AnthropicPart Input)

/-- A tool result, flattened to text where the call declares no tools. -/
def toolResultPart (toolsDeclared : Bool) : Block Input → Option (AnthropicPart Input)
  | .toolResult id content isError => some <|
    if toolsDeclared then .toolResult id content isError
    else .text [.text ("[tool result: " ++ content ++ "]")]
  | _ => none

/-- `input or {}`. -/
class OrEmpty (Input : Type) where
  orEmpty : Input → Input

instance : OrEmpty Dict := ⟨id⟩

instance : OrEmpty Json := ⟨fun input => if truthy input then input else .obj []⟩

/-- A block of an assistant message. -/
def assistantPart [OrEmpty Input] (toolsDeclared : Bool) :
    Block Input → Option (AnthropicPart Input)
  | .text text => if text = "" then none else some (.text [.text text])
  | .toolUse use => some <|
    if toolsDeclared then .toolUse { use with input := OrEmpty.orEmpty use.input }
    else .called use
  | _ => none

/-- The picture of an attachment, where it can be shown. -/
def imageOf (imageUrls : String → Option String) (a : Attachment) : Option ImageSource :=
  (urlOf imageUrls a).bind dataUrlToImageBlock

/-- A message, where it has parts. -/
def message? (role : Role) (parts : List (AnthropicPart Input)) : List (AnthropicMessage Input) :=
  if parts.isEmpty then [] else [⟨role, parts⟩]

/-- The user branch. -/
def anthropicUser (imageUrls : String → Option String) (toolsDeclared : Bool) (labels : MediaLabels)
    (content : List (Block Input)) : List (AnthropicMessage Input) × MediaLabels :=
  let (labeled, labels) := labelEach labels (attached content)
  let notes := labeled.map fun l => Line.note ⟨l.1, l.2, (imageOf imageUrls l.1).isSome⟩
  let images := (attached content).filterMap (imageOf imageUrls)
  let text := textLines content ++ notes
  (message? .user (content.filterMap (toolResultPart toolsDeclared) ++
    (if text.isEmpty then [] else [.text text]) ++ images.map AnthropicPart.image), labels)

/-- One message. -/
def anthropicMessage [OrEmpty Input] (imageUrls : String → Option String) (toolsDeclared : Bool)
    (model : Option String) (labels : MediaLabels) (msg : Canonical Input) :
    List (AnthropicMessage Input) × MediaLabels :=
  match compactionBlock msg with
  | some compaction =>
    (if truthy compaction.native ∧ compaction.model ≠ "" ∧ model = some compaction.model then
      [⟨.assistant, [.native compaction.native]⟩]
    else [⟨.user, [.text [.text (compactionText compaction)]]⟩], labels)
  | none => match msg.1 with
    | .user => anthropicUser imageUrls toolsDeclared labels msg.2
    | .assistant =>
      (message? .assistant (msg.2.filterMap (assistantPart toolsDeclared)), labels)
    | .system =>
      let text := "\n".intercalate (texts msg.2)
      (if text = "" then [] else [⟨.user, [.text [.text text]]⟩], labels)

/-- `_canonical_to_anthropic_messages`. -/
def canonicalToAnthropicMessages [OrEmpty Input] (messages : List (Canonical Input))
    (imageUrls : String → Option String) (toolsDeclared : Bool) (model : Option String) :
    List (AnthropicMessage Input) :=
  visit (anthropicMessage imageUrls toolsDeclared model) (MediaLabels.start messages) messages

/-- The notes a part shows. -/
def AnthropicPart.notes : AnthropicPart Input → List Note
  | .text lines => lines.filterMap Line.note?
  | _ => []

/-- The notes a message shows. -/
def AnthropicMessage.notes (msg : AnthropicMessage Input) : List Note :=
  msg.parts.flatMap AnthropicPart.notes

/-! ### Every translator numbers the same attachments the same way -/

/-- The translator a request goes through, with what else it is handed. -/
inductive Translator where
  | chatCompletions (system : String)
  | responses
  | anthropic (toolsDeclared : Bool) (model : Option String)

/-- The notes a request shows, in order. -/
def shownNotes [OrEmpty Input] (imageUrls : String → Option String)
    (messages : List (Canonical Input)) : Translator → List Note
  | .chatCompletions system =>
    (canonicalToOpenaiMessages messages system imageUrls).flatMap ChatEntry.notes
  | .responses => (canonicalToResponsesInput messages imageUrls).flatMap ResponsesItem.notes
  | .anthropic toolsDeclared model =>
    (canonicalToAnthropicMessages messages imageUrls toolsDeclared model).flatMap
      AnthropicMessage.notes

/-- The attachment a note is about, with the label it shows. -/
def Note.named (note : Note) : Attachment × String := (note.attachment, note.label)

/-- An attachment with its label. -/
def named (entry : Attachment × ℕ) : Attachment × String := (entry.1, labelOf entry.1.1 entry.2)

/-- The attachments a message brings: those of a user message. -/
def brought (msg : Canonical Input) : List Attachment :=
  match compactionBlock msg with
  | some _ => []
  | none => if msg.1 = .user then attached msg.2 else []

/-- A note that is sent names its label. -/
theorem label_sent (note : Note) : note.label.toList <:+: (Line.note note).sent.toList := by
  have hinfix (a b c d : List Char) : c <:+: a ++ (b ++ (": ".toList ++ (c ++ d))) :=
    List.infix_append_of_infix_right (List.infix_append_of_infix_right (List.infix_append' _ c d))
  rw [Line.sent, mediaNote]
  dsimp only
  split
  case isTrue =>
    simp only [String.toList_append, List.append_assoc]
    exact hinfix _ _ _ _
  case isFalse =>
    simp only [String.toList_append, List.append_assoc]
    exact hinfix _ _ _ _

theorem labelEach_eq (labels : MediaLabels) (as : List Attachment) :
    labelEach labels as = ((tally Prod.fst labels as).map named, passed Prod.fst labels as) := by
  induction as generalizing labels with
  | nil => rfl
  | cons a rest ih =>
    rw [labelEach]
    simp only [MediaLabels.next, ih]
    rfl

@[simp] theorem note?_textLines (content : List (Block Input)) :
    (textLines content).filterMap Line.note? = [] := by
  simp [textLines, List.filterMap_eq_nil_iff, Line.note?]

/-- The notes among the lines of a turn are those of its attachments. -/
theorem named_lines (content : List (Block Input)) (labeled : List (Attachment × String))
    (shown : Attachment × String → Bool) :
    ((textLines content ++ labeled.map fun l => Line.note ⟨l.1, l.2, shown l⟩).filterMap
      Line.note?).map Note.named = labeled := by
  rw [List.filterMap_append, note?_textLines, List.nil_append, List.filterMap_map,
    List.map_filterMap]
  exact (List.filterMap_congr fun _ _ => rfl).trans List.filterMap_some

/-- What is made of single blocks shows no note. -/
theorem filterMap_notes {β : Type} {part? : Block Input → Option β} {notes : β → List Note}
    (h : ∀ block part, part? block = some part → notes part = [])
    (content : List (Block Input)) : (content.filterMap part?).flatMap notes = [] := by
  refine List.flatMap_eq_nil_iff.mpr fun part hpart => ?_
  obtain ⟨block, -, hblock⟩ := List.mem_filterMap.mp hpart
  exact h block part hblock

theorem toolEntry_notes (content : List (Block Input)) :
    (content.filterMap toolEntry).flatMap ChatEntry.notes = [] := by
  refine filterMap_notes (fun block entry hentry => ?_) content
  cases block with
  | toolResult => cases hentry; rfl
  | _ => cases hentry

theorem callOutput_notes (content : List (Block Input)) :
    (content.filterMap callOutput).flatMap ResponsesItem.notes = [] := by
  refine filterMap_notes (fun block item hitem => ?_) content
  cases block with
  | toolResult => cases hitem; rfl
  | _ => cases hitem

/-- What a translator put out for one message: the notes of its attachments, numbered on from
    `labels`, and the labels they leave. -/
structure Labeled {β : Type} (out : List β × MediaLabels) (notes : β → List Note)
    (labels : MediaLabels) (as : List Attachment) : Prop where
  notes : (out.1.flatMap notes).map Note.named = (tally Prod.fst labels as).map named
  labels : out.2 = passed Prod.fst labels as

theorem numbers_of_labeled {β : Type}
    {emit : MediaLabels → Canonical Input → List β × MediaLabels} {notes : β → List Note}
    (h : ∀ labels msg, Labeled (emit labels msg) notes labels (brought msg)) :
    Numbers Prod.fst named brought emit fun out => (notes out).map Note.named where
  marks := fun labels msg => by
    rw [← List.map_flatMap]
    exact (h labels msg).notes
  counters := fun labels msg => (h labels msg).labels

/-- What shows no note and leaves the labels alone. -/
theorem labeled_quiet {β : Type} {out : List β} {notes : β → List Note} (labels : MediaLabels)
    (h : out.flatMap notes = []) : Labeled (out, labels) notes labels [] :=
  ⟨by rw [h]; rfl, rfl⟩

theorem openaiUser_labeled (imageUrls : String → Option String) (labels : MediaLabels)
    (content : List (Block Input)) :
    Labeled (openaiUser imageUrls labels content) ChatEntry.notes labels (attached content) := by
  rw [openaiUser, labelEach_eq]
  refine ⟨?_, rfl⟩
  dsimp only
  rw [List.flatMap_append, toolEntry_notes, List.nil_append]
  split
  case isTrue => simp only [List.flatMap_singleton, ChatEntry.notes, named_lines]
  case isFalse =>
    split
    case isTrue hnone =>
      have h := named_lines content ((tally Prod.fst labels (attached content)).map named)
        fun _ => false
      rw [hnone] at h
      exact h
    case isFalse => simp only [List.flatMap_singleton, ChatEntry.notes, named_lines]

theorem openaiMessage_labeled (imageUrls : String → Option String) (labels : MediaLabels)
    (msg : Canonical Input) :
    Labeled (openaiMessage imageUrls labels msg) ChatEntry.notes labels (brought msg) := by
  obtain ⟨role, content⟩ := msg
  rw [openaiMessage, brought]
  split
  case h_1 => exact labeled_quiet labels rfl
  case h_2 =>
    cases role with
    | user => exact openaiUser_labeled imageUrls labels content
    | assistant => exact labeled_quiet labels rfl
    | system =>
      refine labeled_quiet labels ?_
      split <;> rfl

/-- The parts of a Responses user turn note its attachments in order. -/
theorem responsesParts_eq (imageUrls : String → Option String) (labels : MediaLabels)
    (content : List (Block Input)) :
    ((responsesParts imageUrls labels content).1.filterMap ResponsesPart.note?).map Note.named =
        (tally Prod.fst labels (attached content)).map named ∧
      (responsesParts imageUrls labels content).2 = passed Prod.fst labels (attached content) := by
  induction content generalizing labels with
  | nil => exact ⟨rfl, rfl⟩
  | cons block rest ih =>
    cases block with
    | text text =>
      obtain ⟨hnotes, hlabels⟩ := ih labels
      refine ⟨?_, hlabels⟩
      rw [responsesParts, List.filterMap_append]
      split
      · exact hnotes
      · exact hnotes
    | media kind mediaId =>
      obtain ⟨hnotes, hlabels⟩ := ih (passOne Prod.fst labels (kind, mediaId))
      refine ⟨?_, hlabels⟩
      have hattached : attached (.media kind mediaId :: rest) =
        (kind, mediaId) :: attached rest := rfl
      rw [hattached, tally, List.map_cons, ← hnotes, responsesParts]
      dsimp only
      split <;> rfl
    | thinking | toolUse | toolResult | compaction => exact ih labels

theorem responsesMessage_labeled (imageUrls : String → Option String) (labels : MediaLabels)
    (msg : Canonical Input) :
    Labeled (responsesMessage imageUrls labels msg) ResponsesItem.notes labels (brought msg) := by
  obtain ⟨role, content⟩ := msg
  rw [responsesMessage, brought]
  split
  case h_1 => exact labeled_quiet labels rfl
  case h_2 =>
    cases role with
    | user =>
      obtain ⟨hnotes, hlabels⟩ := responsesParts_eq imageUrls labels content
      refine ⟨?_, hlabels⟩
      dsimp only
      rw [List.flatMap_append, callOutput_notes, List.nil_append, if_pos rfl, ← hnotes]
      split
      case isTrue hnone => rw [List.isEmpty_iff.mp hnone]; rfl
      case isFalse => rw [List.flatMap_singleton]; rfl
    | assistant =>
      have hcalls : ((calls content).map ResponsesItem.functionCall).flatMap
          ResponsesItem.notes = [] := by
        simp [List.flatMap_eq_nil_iff, ResponsesItem.notes]
      refine labeled_quiet labels ?_
      rw [List.flatMap_append, hcalls, List.append_nil]
      split <;> rfl
    | system =>
      refine labeled_quiet labels ?_
      split <;> rfl

/-- A message is sent with its notes, or not at all where it holds none. -/
theorem message?_notes (role : Role) (parts : List (AnthropicPart Input)) :
    (message? role parts).flatMap AnthropicMessage.notes = parts.flatMap AnthropicPart.notes := by
  rw [message?]
  split
  case isTrue hnone => rw [List.isEmpty_iff.mp hnone]; rfl
  case isFalse => rw [List.flatMap_singleton]; rfl

theorem toolResultPart_notes (toolsDeclared : Bool) (content : List (Block Input)) :
    (content.filterMap (toolResultPart toolsDeclared)).flatMap AnthropicPart.notes = [] := by
  refine filterMap_notes (fun block part hpart => ?_) content
  cases block with
  | toolResult => cases toolsDeclared <;> cases hpart <;> rfl
  | _ => cases hpart

theorem assistantPart_notes [OrEmpty Input] (toolsDeclared : Bool) (content : List (Block Input)) :
    (content.filterMap (assistantPart toolsDeclared)).flatMap AnthropicPart.notes = [] := by
  refine filterMap_notes (fun block part hpart => ?_) content
  cases block with
  | text text =>
    simp only [assistantPart] at hpart
    split at hpart <;> cases hpart
    rfl
  | toolUse => cases toolsDeclared <;> cases hpart <;> rfl
  | _ => cases hpart

theorem anthropicUser_labeled (imageUrls : String → Option String) (toolsDeclared : Bool)
    (labels : MediaLabels) (content : List (Block Input)) :
    Labeled (anthropicUser imageUrls toolsDeclared labels content) AnthropicMessage.notes labels
      (attached content) := by
  have himages (images : List ImageSource) :
      (images.map (AnthropicPart.image : _ → AnthropicPart Input)).flatMap
        AnthropicPart.notes = [] := by
    simp [List.flatMap_eq_nil_iff, AnthropicPart.notes]
  have htext (lines : List Line) :
      (if lines.isEmpty then [] else [(AnthropicPart.text lines : AnthropicPart Input)]).flatMap
        AnthropicPart.notes = lines.filterMap Line.note? := by
    split
    case isTrue hnone => rw [List.isEmpty_iff.mp hnone]; rfl
    case isFalse => rw [List.flatMap_singleton]; rfl
  rw [anthropicUser, labelEach_eq]
  refine ⟨?_, rfl⟩
  simp only [message?_notes, List.flatMap_append, toolResultPart_notes, himages, htext,
    List.nil_append, List.append_nil, named_lines]

theorem anthropicMessage_labeled [OrEmpty Input] (imageUrls : String → Option String)
    (toolsDeclared : Bool) (model : Option String) (labels : MediaLabels) (msg : Canonical Input) :
    Labeled (anthropicMessage imageUrls toolsDeclared model labels msg) AnthropicMessage.notes
      labels (brought msg) := by
  obtain ⟨role, content⟩ := msg
  rw [anthropicMessage, brought]
  split
  case h_1 =>
    refine labeled_quiet labels ?_
    split <;> rfl
  case h_2 =>
    cases role with
    | user => exact anthropicUser_labeled imageUrls toolsDeclared labels content
    | assistant =>
      refine labeled_quiet labels ?_
      rw [message?_notes, assistantPart_notes]
    | system =>
      refine labeled_quiet labels ?_
      split <;> rfl

/-- Whatever translator a history goes through, the notes are those of its user messages'
    attachments, numbered on from the compaction it starts at. -/
theorem shownNotes_named [OrEmpty Input] (imageUrls : String → Option String)
    (messages : List (Canonical Input)) (translator : Translator) :
    (shownNotes imageUrls messages translator).map Note.named =
      (tally Prod.fst (MediaLabels.start messages) (messages.flatMap brought)).map named := by
  cases translator with
  | chatCompletions system =>
    rw [shownNotes, canonicalToOpenaiMessages, List.flatMap_append, List.map_append,
      ← (numbers_of_labeled (openaiMessage_labeled imageUrls)).visit, ← List.map_flatMap]
    split <;> rfl
  | responses =>
    rw [shownNotes, canonicalToResponsesInput,
      ← (numbers_of_labeled (responsesMessage_labeled imageUrls)).visit, ← List.map_flatMap]
  | anthropic toolsDeclared model =>
    rw [shownNotes, canonicalToAnthropicMessages,
      ← (numbers_of_labeled (anthropicMessage_labeled imageUrls toolsDeclared model)).visit,
      ← List.map_flatMap]

end LunaCore.Providers
