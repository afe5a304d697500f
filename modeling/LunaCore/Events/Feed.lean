import LunaCore.Chat.Message
import LunaCore.Events.Emitter
import LunaCore.Schemes.Parties
import LunaCore.Stream.Turn

/-! The REST event stream of one run, polled with `since_sequence`.

    `list_run_events` answers with every persisted event and with deltas it makes up: one per
    stored assistant message, marked complete, and one per chunk of a turn in flight. Both take
    their numbers from the started event of the turn.

        started b ─ chunks b+1, b+2, … ─ row: complete text at b+1 ─ completed event

    A poll reads three times, the events, then the messages, then the chunk lists, while emits and
    turns go on. The client's cursor is the highest number of a frame it was given. -/

namespace LunaCore.Events
open LunaCore.Schemes LunaCore.Chat
open LunaCore.Stream (Kind Chunk DeltaFrame Provider TurnAction turnStep readInflightChunks
  syntheticFrame)

/-- `RunEventType`, as far as the endpoint tells the types apart. -/
inductive RunEventType where
  | agentMessageStarted
  | other (name : String)
  deriving DecidableEq

/-- What a call of `emit` is to persist; of the payload, its message id and its iteration tag. -/
structure Draft where
  eventType : RunEventType
  nodeId : Option String
  messageId : Option ℕ
  iterationId : Option String
  deriving DecidableEq

/-- A row of `run_events`. -/
structure RunEvent extends Draft where
  sequence : ℕ
  deriving DecidableEq

/-- A row of `agent_messages`, less its own sequence. -/
structure AgentMessage where
  id : ℕ
  nodeId : String
  role : Role
  content : List Block
  isPartial : Bool
  thinking : Option String
  deriving DecidableEq

/-- A delta with `complete: true`, made of a message row. -/
structure CompleteDelta where
  kind : Kind
  messageId : ℕ
  nodeId : String
  sequence : ℕ
  text : String
  iterationId : Option String
  deriving DecidableEq

/-- An item of the response. -/
inductive Frame where
  | event (e : RunEvent)
  | complete (d : CompleteDelta)
  | chunk (f : DeltaFrame)
  deriving DecidableEq

def Frame.sequence : Frame → ℕ
  | .event e => e.sequence
  | .complete d => d.sequence
  | .chunk f => f.sequence

/-- `payload.get("iteration_id")`. -/
def Frame.iterationId : Frame → Option String
  | .event e => e.iterationId
  | .complete d => d.iterationId
  | .chunk f => f.iterationId

/-! ### `list_run_events` -/

/-- The message id a started event announces. -/
def Draft.announces (d : Draft) : Option ℕ :=
  match d.eventType with
  | .agentMessageStarted => d.messageId
  | .other _ => none

/-- `ORDER BY sequence`. -/
def selectEvents (events : List RunEvent) : List RunEvent :=
  events.insertionSort fun a b => a.sequence ≤ b.sequence

/-- `started_by_msg.get(id)`: the last event that announces the message. -/
def startedByMsg (persisted : List RunEvent) (id : ℕ) : Option RunEvent :=
  persisted.reverse.find? fun e => e.announces == some id

/-- The keys of `started_by_msg`, in the order they were first put in. -/
def startedIds (persisted : List RunEvent) : List ℕ :=
  (persisted.filterMap fun e => e.announces).eraseDups

/-- `full_text`. -/
def AgentMessage.fullText (m : AgentMessage) : String :=
  String.join (m.content.filterMap fun
    | .text text => some text
    | _ => none)

/-- The deltas of one message row. -/
def completeDeltas (started : RunEvent) (m : AgentMessage) : List CompleteDelta :=
  let delta (kind : Kind) (text : String) : CompleteDelta :=
    ⟨kind, m.id, m.nodeId, started.sequence + 1, text, started.iterationId⟩
  [(Kind.text, m.fullText), (.thinking, m.thinking.getD "")].filterMap fun (kind, text) =>
    if text = "" then none else some (delta kind text)

/-- The part of `_synthesize_message_deltas` for stored messages. A message without a started event
    is left alone. -/
def messageDeltas (persisted : List RunEvent) (messages : List AgentMessage) : List CompleteDelta :=
  (messages.filter fun m => m.role = .assistant).flatMap fun m =>
    (startedByMsg persisted m.id).toList.flatMap fun started => completeDeltas started m

/-- The turns in flight: announced, and without a row. -/
def inflight (persisted : List RunEvent) (messages : List AgentMessage) : List ℕ :=
  (startedIds persisted).filter fun id =>
    decide (id ∉ (messages.filter fun m => m.role = .assistant).map AgentMessage.id)

/-- The deltas of one turn in flight, from its chunk list; none without a node id. -/
def inflightDeltas (persisted : List RunEvent) (id : ℕ) (chunks : List Chunk) : List DeltaFrame :=
  match startedByMsg persisted id with
  | none => []
  | some started => match started.nodeId with
    | none | some "" => []
    | some nodeId => (readInflightChunks chunks).map
        (syntheticFrame id nodeId started.sequence started.iterationId)

/-- `since_sequence` lets the number through. -/
def Above (since : Option ℕ) (sequence : ℕ) : Prop := ∀ c ∈ since, c < sequence

instance (since : Option ℕ) (sequence : ℕ) : Decidable (Above since sequence) :=
  inferInstanceAs (Decidable (∀ c ∈ since, c < sequence))

/-- The response, from what the three reads gave. -/
def listRunEvents (persisted : List RunEvent) (deltas : List CompleteDelta)
    (chunks : List DeltaFrame) (since : Option ℕ) (iterationId : Option String) : List Frame :=
  let synthesized := deltas.map Frame.complete ++ chunks.map Frame.chunk
  let combined := if synthesized.isEmpty then persisted.map Frame.event
    else (persisted.map Frame.event ++ synthesized).insertionSort fun a b => a.sequence ≤ b.sequence
  (combined.filter fun f => decide (Above since f.sequence)).filter fun f =>
    iterationId.all fun id => f.iterationId == some id

/-- The highest sequence seen, after a response. -/
def advance (since : Option ℕ) (frames : List Frame) : Option ℕ :=
  frames.foldl (fun c f => some (max (c.getD 0) f.sequence)) since

/-! ### The run and its client -/

/-- Where the client's poll stands. `due` is a ghost: what the table and the rows held for the client
    when the poll began. -/
inductive Poll where
  | idle
  | selected (due : List Frame) (persisted : List RunEvent)
  | synthesizing (due : List Frame) (persisted : List RunEvent) (deltas : List CompleteDelta)
      (todo : List ℕ) (chunks : List DeltaFrame)

/-- One run: the sequence numbers of its emits and turns, what each call of `emit` is to persist, the
    two tables, the turns with their Redis keys, and the client. The timeline's `k`-th turn is the
    `k`-th of `turns`. `received` is the union of the responses. -/
structure Feed where
  timeline : Timeline
  drafts : List Draft
  events : List RunEvent
  messages : List AgentMessage
  turns : List Stream.Turn
  poll : Poll
  since : Option ℕ
  received : List Frame

def Feed.fresh : Feed := ⟨.fresh, [], [], [], [], .idle, none, []⟩

inductive FeedAction where
  | emit (draft : Draft)
  | timeline (a : Action)
  | beginTurn (i : ℕ) (provider : Provider) (returned : Bool)
  | turn (j : ℕ) (a : TurnAction)
  | saveMessage (j : ℕ) (content : List Block) (thinking : Option String)
  | savePartial (j : ℕ) (content : List Block) (thinking : Option String) (goesOn : Bool)
  | saveOther (m : AgentMessage)
  | selectEvents
  | selectMessages
  | readChunks
  | respond

/-- The steps of a call of `emit`, the SET of a delta, and the expiry of the mark. -/
def Action.isOwn : Action → Bool
  | .selectMax _ | .getMark _ | .insert _ | .publishEvent _ | .setMarkEvent _ | .setMarkDelta _
  | .expireMark => true
  | _ => false

/-- The row an INSERT adds, unless its number is taken. -/
def Feed.inserted (s : Feed) : Action → Option RunEvent
  | .insert i => match s.timeline.emits[i]?, s.drafts[i]? with
    | some (.inserting _ _ sequence _), some draft =>
      if sequence ∈ s.timeline.persisted then none else some ⟨draft, sequence⟩
    | _, _ => none
  | _ => none

/-- What a turn's step is on the timeline. A chunk is pushed once the SET of the one before it is
    done; the rows are saved by steps of their own. -/
def deltaStep (timeline : Timeline) (j : ℕ) : TurnAction → Option Timeline
  | .writeInflightMeta | .deleteKeys => some timeline
  | .pushStream _ _ => match timeline.turns[j]? with
    | some (.streaming _ _) => some timeline
    | _ => none
  | .nextDeltaSequence => step timeline (.incr j)
  | .publishDelta => step timeline (.publishDelta j)
  | .publishBuiltin => (step timeline (.incr j)).bind fun t => step t (.publishDelta j)
  | .retryDropped false => step timeline (.dropCounter j)
  | .retryDropped true | .emitStarted _ _ | .saveMessage => none

/-- A call of `emit` is over, and returned or raised: on a collision too many, or after its commit. -/
def Emit.ended (returned : Bool) : Emit → Bool
  | .done => returned
  | .raised | .publishing _ | .bumping _ => !returned
  | _ => false

/-- A turn begins when the emit of its started event is over. -/
def Feed.beginTurn (s : Feed) (i : ℕ) (provider : Provider) (returned : Bool) : Option Feed :=
  match s.drafts[i]?, s.timeline.emits[i]? with
  | some draft, some emit => match draft.announces with
    | none => none
    | some id =>
      if emit.ended returned ∧ ∀ turn ∈ s.turns, turn.messageId ≠ id then
        let persisted := (startedByMsg s.events id).map RunEvent.sequence
        (step s.timeline (.beginTurn (if returned then persisted.getD 0 else 0))).bind fun timeline =>
          (turnStep (.create provider id (draft.nodeId.getD "") draft.iterationId)
            (.emitStarted persisted returned)).map fun turn =>
              { s with timeline := timeline, turns := s.turns ++ [turn] }
      else none
  | _, _ => none

/-- The row of a turn. -/
def rowOf (turn : Stream.Turn) (content : List Block) (thinking : Option String)
    (isPartial : Bool) : AgentMessage :=
  ⟨turn.messageId, turn.nodeId, .assistant, content, isPartial, thinking⟩

/-- A row is stored under an id no row has. -/
def Feed.store (s : Feed) (m : AgentMessage) : Option Feed :=
  if ∀ row ∈ s.messages, row.id ≠ m.id then some { s with messages := m :: s.messages } else none

/-- The message is done, and says something. -/
def AgentMessage.completed (m : AgentMessage) : Bool :=
  m.role = .assistant && !m.isPartial && (m.fullText != "" || m.thinking.getD "" != "")

/-- What the client is to be given: every event, and the deltas of every completed message. -/
def Feed.visible (s : Feed) : List Frame :=
  s.events.map Frame.event ++
    (messageDeltas s.events (s.messages.filter AgentMessage.completed)).map Frame.complete

/-- One step of the run or of its client. -/
def feedStep (s : Feed) : FeedAction → Option Feed
  -- a message id is a fresh uuid4
  | .emit draft =>
    if ∀ id ∈ draft.announces, (∀ d ∈ s.drafts, d.announces ≠ some id) ∧
        ∀ e ∈ s.events, e.announces ≠ some id then
      (step s.timeline .beginEmit).map fun timeline =>
        { s with timeline := timeline, drafts := s.drafts ++ [draft] }
    else none
  | .timeline a =>
    if a.isOwn then (step s.timeline a).map fun timeline =>
      { s with timeline := timeline, events := (s.inserted a).toList ++ s.events }
    else none
  | .beginTurn i provider returned => s.beginTurn i provider returned
  | .turn j a => (s.turns[j]?).bind fun turn => (turnStep turn a).bind fun turn' =>
      (deltaStep s.timeline j a).map fun timeline =>
        { s with timeline := timeline, turns := s.turns.set j turn' }
  | .saveMessage j content thinking => (s.turns[j]?).bind fun turn =>
      (turnStep turn .saveMessage).bind fun turn' =>
        { s with turns := s.turns.set j turn' }.store (rowOf turn content thinking false)
  -- of a turn that ends, or of one whose dropped round is sent again
  | .savePartial j content thinking goesOn => (s.turns[j]?).bind fun turn =>
      if goesOn then (turnStep turn (.retryDropped true)).bind fun turn' =>
        (step s.timeline (.dropCounter j)).bind fun timeline =>
          { s with timeline := timeline, turns := s.turns.set j turn' }.store
            (rowOf turn content thinking true)
      else if turn.pc = .saved ∨ turn.pc = .ended then none
      else { s with turns := s.turns.set j { turn with stored := true, pc := .saved } }.store
        (rowOf turn content thinking true)
  | .saveOther m => if m.role = .assistant then none else s.store m
  | .selectEvents => match s.poll with
    | .idle => some { s with poll := .selected s.visible (selectEvents s.events) }
    | _ => none
  | .selectMessages => match s.poll with
    | .selected due persisted => some { s with
        poll := .synthesizing due persisted (messageDeltas persisted s.messages)
          (inflight persisted s.messages) [] }
    | _ => none
  | .readChunks => match s.poll with
    | .synthesizing due persisted deltas (id :: todo) chunks =>
      let cached := (s.turns.filter fun turn => turn.messageId = id).flatMap Stream.Turn.cache
      some { s with
        poll := .synthesizing due persisted deltas todo
          (chunks ++ inflightDeltas persisted id cached) }
    | _ => none
  | .respond => match s.poll with
    | .synthesizing _ persisted deltas [] chunks =>
      let frames := listRunEvents persisted deltas chunks s.since none
      some { s with
        poll := .idle, since := advance s.since frames, received := s.received ++ frames }
    | _ => none

/-! ### What a response holds -/

/-- No two events announce one message. -/
def Unique (events : List RunEvent) : Prop :=
  ∀ e ∈ events, ∀ e' ∈ events, ∀ id, e.announces = some id → e'.announces = some id → e = e'

theorem mem_selectEvents {events : List RunEvent} {e : RunEvent} :
    e ∈ selectEvents events ↔ e ∈ events :=
  List.mem_insertionSort _

theorem startedByMsg_iff {events : List RunEvent} (hu : Unique events) {id : ℕ} {e : RunEvent} :
    startedByMsg events id = some e ↔ e ∈ events ∧ e.announces = some id := by
  constructor
  · intro h
    have hid : e.announces = some id := by simpa using List.find?_some h
    exact ⟨List.mem_reverse.mp (List.mem_of_find?_eq_some h), hid⟩
  · rintro ⟨hmem, hid⟩
    cases h : startedByMsg events id with
    | none =>
      have hnone := List.find?_eq_none.mp h e (List.mem_reverse.mpr hmem)
      simp [hid] at hnone
    | some e' =>
      have hid' : e'.announces = some id := by simpa using List.find?_some h
      have hmem' := List.mem_reverse.mp (List.mem_of_find?_eq_some h)
      rw [hu e' hmem' e hmem id hid' hid]

theorem mem_messageDeltas {persisted : List RunEvent} {messages : List AgentMessage}
    {d : CompleteDelta} : d ∈ messageDeltas persisted messages ↔ ∃ m ∈ messages,
      m.role = .assistant ∧ ∃ started, startedByMsg persisted m.id = some started ∧
        d ∈ completeDeltas started m := by
  simp [messageDeltas, and_assoc]

theorem completeDeltas_id {started : RunEvent} {m : AgentMessage} {d : CompleteDelta}
    (h : d ∈ completeDeltas started m) :
    d.messageId = m.id ∧ d.sequence = started.sequence + 1 := by
  rw [completeDeltas] at h
  obtain ⟨⟨kind, text⟩, -, hd⟩ := List.mem_filterMap.mp h
  dsimp only at hd
  split at hd
  · cases hd
  · cases hd
    exact ⟨rfl, rfl⟩

/-- A completed message has a delta. -/
theorem completeDeltas_ne_nil {started : RunEvent} {m : AgentMessage} (h : m.completed = true) :
    ∃ d, d ∈ completeDeltas started m := by
  have hsays : m.fullText ≠ "" ∨ m.thinking.getD "" ≠ "" := by
    simpa using (Bool.and_eq_true_iff.mp h).2
  rcases hsays with htext | hthinking
  · exact ⟨_, List.mem_filterMap.mpr ⟨(.text, m.fullText), by simp, if_neg htext⟩⟩
  · exact ⟨_, List.mem_filterMap.mpr ⟨(.thinking, m.thinking.getD ""), by simp, if_neg hthinking⟩⟩

theorem completed_assistant {m : AgentMessage} (h : m.completed = true) : m.role = .assistant := by
  simp only [AgentMessage.completed, Bool.and_eq_true, decide_eq_true_eq] at h
  exact h.1.1

/-- What the client is to be given, by membership alone. -/
theorem mem_visible {s : Feed} (hu : Unique s.events) {f : Frame} :
    f ∈ s.visible ↔ (∃ e ∈ s.events, f = .event e) ∨ ∃ m ∈ s.messages, m.completed = true ∧
      ∃ started ∈ s.events, started.announces = some m.id ∧
        ∃ d ∈ completeDeltas started m, f = .complete d := by
  rw [Feed.visible]
  simp only [List.mem_append, List.mem_map, mem_messageDeltas, startedByMsg_iff hu,
    List.mem_filter]
  constructor
  · rintro (⟨e, he, rfl⟩ | ⟨d, ⟨m, ⟨hm, hcompleted⟩, -, started, ⟨hmem, hid⟩, hd⟩, rfl⟩)
    · exact .inl ⟨e, he, rfl⟩
    · exact .inr ⟨m, hm, hcompleted, started, hmem, hid, d, hd, rfl⟩
  · rintro (⟨e, he, rfl⟩ | ⟨m, hm, hcompleted, started, hmem, hid, d, hd, rfl⟩)
    · exact .inl ⟨e, he, rfl⟩
    · exact .inr ⟨d, ⟨m, ⟨hm, hcompleted⟩, completed_assistant hcompleted, started, ⟨hmem, hid⟩,
        hd⟩, rfl⟩

/-- The response holds what was read and lies above the cursor. -/
theorem mem_listRunEvents {persisted : List RunEvent} {deltas : List CompleteDelta}
    {chunks : List DeltaFrame} {since : Option ℕ} {f : Frame} :
    f ∈ listRunEvents persisted deltas chunks since none ↔
      f ∈ persisted.map Frame.event ++ (deltas.map Frame.complete ++ chunks.map Frame.chunk) ∧
        Above since f.sequence := by
  rw [listRunEvents]
  simp only [List.mem_filter, Option.all_none, and_true, decide_eq_true_eq]
  refine and_congr_left fun _ => ?_
  split
  case isTrue hnil => rw [List.isEmpty_iff.mp hnil, List.append_nil]
  case isFalse => exact List.mem_insertionSort _

/-- What lies above the cursor after a response. -/
theorem above_advance {frames : List Frame} {q : ℕ} : ∀ {since : Option ℕ},
    Above (advance since frames) q ↔ Above since q ∧ ∀ f ∈ frames, f.sequence < q := by
  induction frames with
  | nil => simp [advance]
  | cons f frames ih =>
    intro since
    have hstep : advance since (f :: frames) =
        advance (some (max (since.getD 0) f.sequence)) frames := rfl
    rw [hstep, ih]
    cases since with
    | none => simp [Above]
    | some c => simp [Above, and_assoc]

/-! ### The tables -/

/-- A call of `emit` that may still commit. -/
def Emit.isOpen : Emit → Bool
  | .selecting .. | .reading .. | .inserting .. => true
  | _ => false

/-- What the steps that commit nothing keep of the timeline: no call of `emit` opens. -/
structure Keeps (s t : Timeline) : Prop where
  persisted : t.persisted = s.persisted
  emits : t.emits.length = s.emits.length
  opens : ∀ (i : ℕ) (emit : Emit), t.emits[i]? = some emit → emit.isOpen = true →
    ∃ before : Emit, s.emits[i]? = some before ∧ before.isOpen = true

theorem Keeps.of_eq {s t : Timeline} (hp : t.persisted = s.persisted) (he : t.emits = s.emits) :
    Keeps s t :=
  ⟨hp, congrArg _ he, fun _ emit h hopen => ⟨emit, he ▸ h, hopen⟩⟩

theorem Keeps.trans {s t u : Timeline} (h : Keeps s t) (h' : Keeps t u) : Keeps s u where
  persisted := h'.persisted.trans h.persisted
  emits := h'.emits.trans h.emits
  opens := fun i emit hi hopen => by
    obtain ⟨before, hbefore, hb⟩ := h'.opens i emit hi hopen
    exact h.opens i before hbefore hb

/-- A step of one call that was open, or does not stay so. -/
theorem keeps_setEmit {s t : Timeline} {i : ℕ} {old new : Emit} (hi : s.emits[i]? = some old)
    (hp : t.persisted = s.persisted) (he : t.emits = s.emits.set i new)
    (hopen : new.isOpen = true → old.isOpen = true) : Keeps s t where
  persisted := hp
  emits := by rw [he, List.length_set]
  opens := by
    intro k emit hk hemit
    rw [he] at hk
    rcases moved_cases hk with ⟨rfl, rfl⟩ | ⟨-, hk⟩
    · exact ⟨old, hi, hopen hemit⟩
    · exact ⟨emit, hk, hemit⟩

/-- The steps of the timeline that neither begin an emit nor insert. -/
theorem keeps_step {s t : Timeline} {a : Action} (h : step s a = some t) (hb : a ≠ .beginEmit)
    (hi : ∀ i, a ≠ .insert i) : Keeps s t := by
  cases a with
  | beginEmit => exact absurd rfl hb
  | insert i => exact absurd rfl (hi i)
  | expireMark =>
    obtain rfl := Option.some.inj h
    exact .of_eq rfl rfl
  | beginTurn base =>
    simp only [step] at h
    split at h
    case isTrue =>
      obtain rfl := Option.some.inj h
      exact .of_eq rfl rfl
    case isFalse => cases h
  | selectMax i | getMark i | publishEvent i | setMarkEvent i =>
    simp only [step] at h
    split at h
    case h_1 hemit =>
      obtain rfl := Option.some.inj h
      exact keeps_setEmit hemit rfl rfl (by simp [Emit.isOpen])
    case h_2 => cases h
  | incr j | publishDelta j | setMarkDelta j | dropCounter j =>
    simp only [step] at h
    split at h
    case h_1 =>
      obtain rfl := Option.some.inj h
      exact .of_eq rfl rfl
    case h_2 => cases h

/-- The tables agree with the timeline, and a message is announced once: by a row, or by a call that
    may still commit one. -/
structure Rows (s : Feed) : Prop where
  sequences : s.timeline.persisted = s.events.map RunEvent.sequence
  calls : s.drafts.length = s.timeline.emits.length
  unique : Unique s.events
  apart : ∀ (i j : ℕ) (d d' : Draft), s.drafts[i]? = some d → s.drafts[j]? = some d' →
    ∀ id, d.announces = some id → d'.announces = some id → i = j
  pending : ∀ (i : ℕ) (emit : Emit) (d : Draft), s.timeline.emits[i]? = some emit → emit.isOpen = true →
    s.drafts[i]? = some d → ∀ id, d.announces = some id → ∀ e ∈ s.events, e.announces ≠ some id

theorem rows_fresh : Rows .fresh where
  sequences := rfl
  calls := rfl
  unique := by simp [Unique, Feed.fresh]
  apart := by simp [Feed.fresh]
  pending := by simp [Feed.fresh]

theorem Rows.of_keeps {s t : Feed} (hs : Rows s) (hk : Keeps s.timeline t.timeline)
    (he : t.events = s.events) (hd : t.drafts = s.drafts) : Rows t where
  sequences := by rw [hk.persisted, he, hs.sequences]
  calls := by rw [hd, hk.emits, hs.calls]
  unique := he ▸ hs.unique
  apart := hd ▸ hs.apart
  pending := by
    intro i emit d hemit hopen hdraft
    obtain ⟨before, hbefore, hb⟩ := hk.opens i emit hemit hopen
    exact he ▸ hs.pending i before d hbefore hb (hd ▸ hdraft)

/-- A call of `emit` begins, of a message that none announces yet. -/
theorem rows_emit {s : Feed} (hs : Rows s) {draft : Draft} {timeline : Timeline}
    (hfresh : ∀ id ∈ draft.announces, (∀ d ∈ s.drafts, d.announces ≠ some id) ∧
      ∀ e ∈ s.events, e.announces ≠ some id)
    (h : step s.timeline .beginEmit = some timeline) :
    Rows { s with timeline := timeline, drafts := s.drafts ++ [draft] } := by
  obtain rfl := Option.some.inj h
  have hlen := hs.calls
  refine
    { sequences := hs.sequences
      calls := by simp [hlen]
      unique := hs.unique
      apart := fun i j d d' hi hj id => one_joined
        (fun j k d d' hd hd' => hs.apart j k d d' hd hd' id) (fun hid => (hfresh id hid).1)
        i j d d' hi hj
      pending := ?_ }
  · intro i emit d hemit hopen hdraft id hid
    rcases joined_cases hdraft with hdraft | ⟨-, rfl⟩
    · rcases joined_cases hemit with hemit | ⟨rfl, -⟩
      · exact hs.pending i emit d hemit hopen hdraft id hid
      · exact absurd hlen.symm (ne_length_of_some hdraft)
    · exact (hfresh id hid).2

/-- An INSERT that finds its number free adds the row of its call. -/
theorem rows_insert {s : Feed} (hs : Rows s) {i attempt sequence : ℕ} {before missed : List ℕ}
    {draft : Draft} (hi : s.timeline.emits[i]? = some (.inserting attempt before sequence missed))
    (hdraft : s.drafts[i]? = some draft) (hfree : sequence ∉ s.timeline.persisted) :
    Rows { s with
      timeline := insertEvent s.timeline i attempt before sequence
      events := ⟨draft, sequence⟩ :: s.events } := by
  have hpending := hs.pending i _ draft hi rfl hdraft
  rw [insertEvent]
  rw [if_neg hfree]
  refine
    { sequences := by simp [hs.sequences]
      calls := by simp [hs.calls]
      unique := ?_
      apart := hs.apart
      pending := ?_ }
  · intro e he e' he' id hid hid'
    rcases List.mem_cons.mp he with rfl | he <;> rcases List.mem_cons.mp he' with rfl | he'
    · rfl
    · exact absurd hid' (hpending id hid e' he')
    · exact absurd hid (hpending id hid' e he)
    · exact hs.unique e he e' he' id hid hid'
  · intro k emit d hk hopen hd id hid e he
    dsimp only at hk hd
    rcases moved_cases hk with ⟨-, rfl⟩ | ⟨hik, hk⟩
    · cases hopen
    · rcases List.mem_cons.mp he with rfl | he
      · exact fun heq => hik (hs.apart i k draft d hdraft hd id heq hid)
      · exact hs.pending k emit d hk hopen hd id hid e he

/-- The steps of the calls of `emit`. -/
theorem rows_timeline {s : Feed} (hs : Rows s) {a : Action} {timeline : Timeline}
    (hown : a.isOwn = true) (h : step s.timeline a = some timeline) :
    Rows { s with timeline := timeline, events := (s.inserted a).toList ++ s.events } := by
  by_cases hinsert : ∃ i, a = .insert i
  · obtain ⟨i, rfl⟩ := hinsert
    simp only [step] at h
    split at h
    case h_2 => cases h
    case h_1 attempt before sequence missed hi =>
      obtain rfl := Option.some.inj h
      have hlt : i < s.drafts.length := hs.calls ▸ (List.getElem?_eq_some_iff.mp hi).1
      have hdraft : s.drafts[i]? = some s.drafts[i] := List.getElem?_eq_getElem hlt
      by_cases hfree : sequence ∈ s.timeline.persisted
      · have hnone : s.inserted (.insert i) = none := by simp [Feed.inserted, hi, hdraft, hfree]
        refine hs.of_keeps ?_ (by rw [hnone]; rfl) rfl
        rw [insertEvent]
        rw [if_pos hfree]
        split
        · exact keeps_setEmit hi rfl rfl fun _ => rfl
        · exact keeps_setEmit hi rfl rfl fun hopen => by cases hopen
      · have hsome : s.inserted (.insert i) = some ⟨s.drafts[i], sequence⟩ := by
          simp [Feed.inserted, hi, hdraft, hfree]
        rw [hsome]
        exact rows_insert hs hi hdraft hfree
  · have hnone : s.inserted a = none := by
      cases a with
      | insert i => exact absurd ⟨i, rfl⟩ hinsert
      | _ => rfl
    refine hs.of_keeps (keeps_step h ?_ fun i hi => hinsert ⟨i, hi⟩) (by rw [hnone]; rfl) rfl
    rintro rfl
    cases hown

/-- A turn's step is no emit's. -/
theorem keeps_deltaStep {s t : Timeline} {j : ℕ} {a : TurnAction} (h : deltaStep s j a = some t) :
    Keeps s t := by
  cases a with
  | writeInflightMeta | deleteKeys =>
    obtain rfl := Option.some.inj h
    exact .of_eq rfl rfl
  | pushStream kind text =>
    simp only [deltaStep] at h
    split at h
    case h_1 =>
      obtain rfl := Option.some.inj h
      exact .of_eq rfl rfl
    case h_2 => cases h
  | nextDeltaSequence => exact keeps_step (a := .incr j) h (by simp) (by simp)
  | publishDelta => exact keeps_step (a := .publishDelta j) h (by simp) (by simp)
  | publishBuiltin =>
    obtain ⟨u, hu, ht⟩ := Option.bind_eq_some_iff.mp h
    exact (keeps_step hu (by simp) (by simp)).trans (keeps_step ht (by simp) (by simp))
  | retryDropped saved =>
    cases saved with
    | false => exact keeps_step (a := .dropCounter j) h (by simp) (by simp)
    | true => cases h
  | emitStarted persisted returned => cases h
  | saveMessage => cases h

/-! ### A step of the run -/

/-- The event a step commits. -/
def Feed.commits (s : Feed) : FeedAction → Option RunEvent
  | .timeline a => s.inserted a
  | _ => none

/-- The row a step stores. -/
def Feed.stores (s : Feed) : FeedAction → Option AgentMessage
  | .saveMessage j content thinking =>
    (s.turns[j]?).map fun turn => rowOf turn content thinking false
  | .savePartial j content thinking _ =>
    (s.turns[j]?).map fun turn => rowOf turn content thinking true
  | .saveOther m => some m
  | _ => none

def FeedAction.isPoll : FeedAction → Bool
  | .selectEvents | .selectMessages | .readChunks | .respond => true
  | _ => false

/-- What a step of the run does: it leaves the client alone, and only adds to the tables. -/
structure RunStep (s : Feed) (a : FeedAction) (t : Feed) : Prop where
  rows : Rows t
  events : t.events = (s.commits a).toList ++ s.events
  messages : t.messages = (s.stores a).toList ++ s.messages
  new : ∀ e ∈ s.commits a, e ∉ s.events
  fresh : ∀ m ∈ s.stores a, ∀ row ∈ s.messages, row.id ≠ m.id
  single : s.commits a = none ∨ s.stores a = none
  poll : t.poll = s.poll
  since : t.since = s.since
  received : t.received = s.received

theorem store_some {s t : Feed} {m : AgentMessage} (h : s.store m = some t) :
    (∀ row ∈ s.messages, row.id ≠ m.id) ∧ t = { s with messages := m :: s.messages } := by
  rw [Feed.store] at h
  split at h
  case isTrue hfresh => exact ⟨hfresh, (Option.some.inj h).symm⟩
  case isFalse => cases h

theorem inserted_new {s : Feed} (hs : Rows s) {a : Action} {e : RunEvent}
    (h : e ∈ s.inserted a) : e ∉ s.events := by
  intro hmem
  unfold Feed.inserted at h
  split at h
  case h_2 => cases h
  case h_1 =>
    split at h
    case h_2 => cases h
    case h_1 sequence draft _ _ =>
      split at h
      case isTrue => cases h
      case isFalse hfree =>
        obtain rfl : _ = e := Option.some.inj h
        rw [hs.sequences] at hfree
        exact hfree (List.mem_map_of_mem hmem)

/-- A turn begins, or moves on. -/
theorem runStep_turn {s t : Feed} {a : FeedAction} (hs : Rows s)
    (hk : Keeps s.timeline t.timeline)
    (ht : t = { s with timeline := t.timeline, turns := t.turns })
    (hcommits : s.commits a = none) (hstores : s.stores a = none) : RunStep s a t where
  rows := hs.of_keeps hk (by rw [ht]) (by rw [ht])
  events := by rw [hcommits, ht]; rfl
  messages := by rw [hstores, ht]; rfl
  new := by simp [hcommits]
  fresh := by simp [hstores]
  single := .inl hcommits
  poll := by rw [ht]
  since := by rw [ht]
  received := by rw [ht]

/-- A turn, or another party, stores a row. -/
theorem runStep_store {s t : Feed} {a : FeedAction} (hs : Rows s) {u : Feed}
    (hk : Keeps s.timeline u.timeline)
    (hu : u = { s with timeline := u.timeline, turns := u.turns })
    {m : AgentMessage} (hcommits : s.commits a = none) (hstores : s.stores a = some m)
    (h : u.store m = some t) : RunStep s a t := by
  have hrows : Rows u := hs.of_keeps hk (by rw [hu]) (by rw [hu])
  have hmessages : u.messages = s.messages := by rw [hu]
  obtain ⟨hfresh, rfl⟩ := store_some h
  exact
    { rows := ⟨hrows.sequences, hrows.calls, hrows.unique, hrows.apart, hrows.pending⟩
      events := by rw [hcommits, hu]; rfl
      messages := by rw [hstores]; exact congrArg (m :: ·) hmessages
      new := by simp [hcommits]
      fresh := by
        intro m' hm' row hrow
        rw [hstores] at hm'
        obtain rfl := Option.some.inj hm'
        exact hfresh row (hmessages ▸ hrow)
      single := .inl hcommits
      poll := by rw [hu]
      since := by rw [hu]
      received := by rw [hu] }

theorem runStep_of {s t : Feed} {a : FeedAction} (hs : Rows s) (ha : a.isPoll = false)
    (h : feedStep s a = some t) : RunStep s a t := by
  cases a with
  | selectEvents | selectMessages | readChunks | respond => cases ha
  | emit draft =>
    simp only [feedStep] at h
    split at h
    case isFalse => cases h
    case isTrue hfresh =>
      obtain ⟨timeline, htimeline, rfl⟩ := Option.map_eq_some_iff.mp h
      exact ⟨rows_emit hs hfresh htimeline, rfl, rfl, by simp [Feed.commits], by simp [Feed.stores],
        .inl rfl, rfl, rfl, rfl⟩
  | timeline a =>
    simp only [feedStep] at h
    split at h
    case isFalse => cases h
    case isTrue hown =>
      obtain ⟨timeline, htimeline, rfl⟩ := Option.map_eq_some_iff.mp h
      exact ⟨rows_timeline hs hown htimeline, rfl, rfl, fun e he => inserted_new hs he,
        by simp [Feed.stores], .inr rfl, rfl, rfl, rfl⟩
  | beginTurn i provider returned =>
    simp only [feedStep, Feed.beginTurn] at h
    split at h
    case h_2 => cases h
    case h_1 =>
      split at h
      case h_1 => cases h
      case h_2 =>
        split at h
        case isFalse => cases h
        case isTrue =>
          obtain ⟨timeline, htimeline, h⟩ := Option.bind_eq_some_iff.mp h
          obtain ⟨turn, -, rfl⟩ := Option.map_eq_some_iff.mp h
          exact runStep_turn hs (keeps_step htimeline (by simp) (by simp)) rfl rfl rfl
  | turn j a =>
    obtain ⟨turn, -, h⟩ := Option.bind_eq_some_iff.mp h
    obtain ⟨turn', -, h⟩ := Option.bind_eq_some_iff.mp h
    obtain ⟨timeline, htimeline, rfl⟩ := Option.map_eq_some_iff.mp h
    exact runStep_turn hs (keeps_deltaStep htimeline) rfl rfl rfl
  | saveMessage j content thinking =>
    obtain ⟨turn, hturn, h⟩ := Option.bind_eq_some_iff.mp h
    obtain ⟨turn', -, h⟩ := Option.bind_eq_some_iff.mp h
    exact runStep_store (u := { s with turns := s.turns.set j turn' }) hs (.of_eq rfl rfl) rfl rfl
      (by simp [Feed.stores, hturn]) h
  | savePartial j content thinking goesOn =>
    obtain ⟨turn, hturn, h⟩ := Option.bind_eq_some_iff.mp h
    have hstores : s.stores (.savePartial j content thinking goesOn) =
        some (rowOf turn content thinking true) := by simp [Feed.stores, hturn]
    split at h
    case isTrue =>
      obtain ⟨turn', -, h⟩ := Option.bind_eq_some_iff.mp h
      obtain ⟨timeline, htimeline, h⟩ := Option.bind_eq_some_iff.mp h
      have hk : Keeps s.timeline timeline :=
        keeps_step (a := .dropCounter j) htimeline (by simp) (by simp)
      exact runStep_store (u := { s with timeline := timeline, turns := s.turns.set j turn' }) hs hk
        rfl rfl hstores h
    case isFalse =>
      split at h
      case isTrue => cases h
      case isFalse =>
        exact runStep_store
          (u := { s with turns := s.turns.set j { turn with stored := true, pc := .saved } }) hs
          (.of_eq rfl rfl) rfl rfl hstores h
  | saveOther m =>
    simp only [feedStep] at h
    split at h
    case isTrue => cases h
    case isFalse => exact runStep_store hs (.of_eq rfl rfl) rfl rfl rfl h

end LunaCore.Events
