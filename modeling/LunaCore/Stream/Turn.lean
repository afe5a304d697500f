import Mathlib.Data.List.Basic
import Mathlib.Tactic.Common
import LunaCore.Schemes.Machine

/-! One streaming turn: what a provider does with each chunk, and what is rebuilt from its cache.

    A chunk is appended to the turn's Redis list, numbered by the turn's INCR counter and then
    published. Built-in tool activity is numbered by the same counter and published, but has no
    entry in the list.

        started event → meta →  ( RPUSH → INCR → PUBLISH  |  INCR → PUBLISH of a builtin )*  → end

    Two readers rebuild the delta frames of a turn in flight from the list: the snapshot of a new
    WebSocket client, from the meta key, and the REST events endpoint, from the started event. -/

namespace LunaCore.Stream

/-- Which code drives the turn: chat completions and the Responses API of `GenericProvider`,
    `AnthropicProvider`, `ClaudeCLIProvider`. -/
inductive Provider where
  | chat
  | responses
  | anthropic
  | claudeCli
  deriving DecidableEq

inductive Kind where
  | text
  | thinking
  deriving DecidableEq

/-- An entry of the stream list. `ordinal` is a ghost: which chunk of the turn it is. -/
structure Chunk where
  kind : Kind
  text : String
  ordinal : ℕ
  deriving DecidableEq

/-- `delta_event_id`: uuid5 of `delta:{message_id}:{kind}:{chunk_index}`. -/
structure DeltaEventId where
  messageId : ℕ
  kind : Kind
  chunkIndex : ℕ
  deriving DecidableEq

/-- An `agent_text_delta` or `agent_thinking_delta` frame, as `kind` says. `ordinal` is a ghost. -/
structure DeltaFrame where
  id : DeltaEventId
  sequence : ℕ
  kind : Kind
  nodeId : String
  messageId : ℕ
  chunkIndex : ℕ
  text : String
  iterationId : Option String
  ordinal : ℕ
  deriving DecidableEq

/-- A frame of the turn on the run's channel. -/
inductive Frame where
  | delta (frame : DeltaFrame)
  | builtinToolCall (messageId sequence : ℕ) (iterationId : Option String)
  deriving DecidableEq

/-- The `stream_meta` value of a turn. -/
structure InflightMeta where
  messageId : ℕ
  nodeId : String
  startedSeq : ℕ
  iterationId : Option String
  deriving DecidableEq

/-- What the turn did, for the record: the input of a turn, seen from its stream (ghost). -/
inductive Activity where
  | chunk (kind : Kind) (text : String)
  | builtin
  | dropped
  deriving DecidableEq

/-- Where the turn stands between two awaits. -/
inductive Pc where
  | created
  | started
  | ready
  | pushed (chunk : Chunk)
  | numbered (chunk : Chunk) (sequence : ℕ)
  | saved
  | ended
  deriving DecidableEq

/-- A turn and its Redis keys. `startedEvent` is the sequence of the persisted started event,
    `stored` says that a row with the message id is in the table; `live` (the delta frames
    broadcast so far) and `activity` are ghosts. -/
structure Turn where
  provider : Provider
  messageId : ℕ
  nodeId : String
  iterationId : Option String
  startedEvent : Option ℕ
  deltaSeqBase : ℕ
  inflightMeta : Option InflightMeta
  cache : List Chunk
  deltaSeq : ℕ
  textChunkIndex : ℕ
  thinkingChunkIndex : ℕ
  stored : Bool
  pc : Pc
  live : List DeltaFrame
  activity : List Activity

def Turn.create (provider : Provider) (messageId : ℕ) (nodeId : String)
    (iterationId : Option String) : Turn where
  provider := provider
  messageId := messageId
  nodeId := nodeId
  iterationId := iterationId
  startedEvent := none
  deltaSeqBase := 0
  inflightMeta := none
  cache := []
  deltaSeq := 0
  textChunkIndex := 0
  thinkingChunkIndex := 0
  stored := false
  pc := .created
  live := []
  activity := []

/-- The counter that indexes the next chunk of a kind. -/
def Turn.chunkIndex (t : Turn) : Kind → ℕ
  | .text => t.textChunkIndex
  | .thinking => t.thinkingChunkIndex

/-- The frame the publisher broadcasts for a chunk numbered `sequence`. -/
def Turn.deltaFrame (t : Turn) (c : Chunk) (sequence : ℕ) : DeltaFrame where
  id := ⟨t.messageId, c.kind, t.chunkIndex c.kind⟩
  sequence := sequence
  kind := c.kind
  nodeId := t.nodeId
  messageId := t.messageId
  chunkIndex := t.chunkIndex c.kind
  text := c.text
  iterationId := t.iterationId
  ordinal := c.ordinal

/-- The counter of the published kind moves on. -/
def Turn.bumpIndex (t : Turn) (kind : Kind) : Turn :=
  { t with
    textChunkIndex := t.textChunkIndex + if kind = .text then 1 else 0
    thinkingChunkIndex := t.thinkingChunkIndex + if kind = .thinking then 1 else 0 }

/-- The frame about to be broadcast for a chunk that is already in the list. -/
def Turn.pending (t : Turn) : List DeltaFrame :=
  match t.pc with
  | .pushed chunk => [t.deltaFrame chunk (t.deltaSeqBase + (t.deltaSeq + 1))]
  | .numbered chunk sequence => [t.deltaFrame chunk sequence]
  | _ => []

/-- The turn's activity, a chunk that is already in the list included. -/
def Turn.history (t : Turn) : List Activity :=
  t.activity ++ match t.pc with
    | .pushed chunk | .numbered chunk _ => [.chunk chunk.kind chunk.text]
    | _ => []

/-- `emitStarted` says what became of the started event: persisted or not, and whether its emit
    returned (a failure after the commit makes the base 0 all the same). -/
inductive TurnAction where
  | emitStarted (persisted : Option ℕ) (returned : Bool)
  | writeInflightMeta
  | pushStream (kind : Kind) (text : String)
  | nextDeltaSequence
  | publishDelta
  | publishBuiltin
  | saveMessage
  | retryDropped (saved : Bool)
  | deleteKeys
  deriving DecidableEq

/-- One step of a turn.

    `retryDropped`: `AnthropicProvider` sends a round again whose connection dropped before it
    showed text; when an earlier round of the turn had, the cache is deleted (and a partial row
    saved) first. No other code path deletes the keys of a turn that goes on. -/
def turnStep (t : Turn) : TurnAction → Option Turn
  | .emitStarted persisted returned =>
    if t.pc = .created then
      some { t with
        startedEvent := persisted
        deltaSeqBase := if returned then persisted.getD 0 else 0
        pc := .started }
    else none
  | .writeInflightMeta =>
    if t.pc = .started then
      some { t with
        inflightMeta := some ⟨t.messageId, t.nodeId, t.deltaSeqBase, t.iterationId⟩
        pc := .ready }
    else none
  | .pushStream kind text =>
    if t.pc = .ready then
      let chunk : Chunk := ⟨kind, text, t.textChunkIndex + t.thinkingChunkIndex⟩
      some { t with cache := t.cache ++ [chunk], pc := .pushed chunk }
    else none
  | .nextDeltaSequence => match t.pc with
    | .pushed chunk =>
      some { t with
        deltaSeq := t.deltaSeq + 1
        pc := .numbered chunk (t.deltaSeqBase + (t.deltaSeq + 1)) }
    | _ => none
  | .publishDelta => match t.pc with
    | .numbered chunk sequence =>
      some { t.bumpIndex chunk.kind with
        live := t.live ++ [t.deltaFrame chunk sequence]
        activity := t.activity ++ [.chunk chunk.kind chunk.text]
        pc := .ready }
    | _ => none
  | .publishBuiltin =>
    if t.pc = .ready ∧ t.provider ≠ .chat then
      some { t with deltaSeq := t.deltaSeq + 1, activity := t.activity ++ [.builtin] }
    else none
  | .saveMessage =>
    if t.pc = .ready then some { t with stored := true, pc := .saved } else none
  | .retryDropped saved =>
    if t.pc = .ready ∧ t.provider = .anthropic ∧ 0 < t.textChunkIndex then
      some { t with
        inflightMeta := none
        cache := []
        deltaSeq := 0
        stored := t.stored || saved
        activity := t.activity ++ [.dropped] }
    else none
  | .deleteKeys =>
    if t.pc = .ended then none
    else some { t with
      inflightMeta := none
      cache := []
      deltaSeq := 0
      activity := t.history
      pc := .ended }

/-- What a step of a turn takes it from and leaves of it. -/
inductive TurnStepped (t : Turn) : TurnAction → Turn → Prop where
  | emitStarted (persisted : Option ℕ) (returned : Bool) (hpc : t.pc = .created) :
      TurnStepped t (.emitStarted persisted returned) { t with
        startedEvent := persisted
        deltaSeqBase := if returned then persisted.getD 0 else 0
        pc := .started }
  | writeInflightMeta (hpc : t.pc = .started) :
      TurnStepped t .writeInflightMeta { t with
        inflightMeta := some ⟨t.messageId, t.nodeId, t.deltaSeqBase, t.iterationId⟩
        pc := .ready }
  | pushStream (kind : Kind) (text : String) (hpc : t.pc = .ready) :
      TurnStepped t (.pushStream kind text) { t with
        cache := t.cache ++ [⟨kind, text, t.textChunkIndex + t.thinkingChunkIndex⟩]
        pc := .pushed ⟨kind, text, t.textChunkIndex + t.thinkingChunkIndex⟩ }
  | nextDeltaSequence (chunk : Chunk) (hpc : t.pc = .pushed chunk) :
      TurnStepped t .nextDeltaSequence { t with
        deltaSeq := t.deltaSeq + 1
        pc := .numbered chunk (t.deltaSeqBase + (t.deltaSeq + 1)) }
  | publishDelta (chunk : Chunk) (sequence : ℕ) (hpc : t.pc = .numbered chunk sequence) :
      TurnStepped t .publishDelta { t.bumpIndex chunk.kind with
        live := t.live ++ [t.deltaFrame chunk sequence]
        activity := t.activity ++ [.chunk chunk.kind chunk.text]
        pc := .ready }
  | publishBuiltin (hpc : t.pc = .ready) (hprovider : t.provider ≠ .chat) :
      TurnStepped t .publishBuiltin { t with
        deltaSeq := t.deltaSeq + 1
        activity := t.activity ++ [.builtin] }
  | saveMessage (hpc : t.pc = .ready) :
      TurnStepped t .saveMessage { t with stored := true, pc := .saved }
  | retryDropped (saved : Bool) (hpc : t.pc = .ready) (hprovider : t.provider = .anthropic)
      (htext : 0 < t.textChunkIndex) : TurnStepped t (.retryDropped saved) { t with
        inflightMeta := none
        cache := []
        deltaSeq := 0
        stored := t.stored || saved
        activity := t.activity ++ [.dropped] }
  | deleteKeys (hpc : t.pc ≠ .ended) : TurnStepped t .deleteKeys { t with
        inflightMeta := none
        cache := []
        deltaSeq := 0
        activity := t.history
        pc := .ended }

/-- Every step is one of these. -/
theorem stepped_of_turnStep {t u : Turn} {a : TurnAction} (h : turnStep t a = some u) :
    TurnStepped t a u := by
  cases a with
  | emitStarted persisted returned =>
    simp only [turnStep, Option.ite_none_right_eq_some] at h
    obtain ⟨hpc, rfl⟩ := h.imp_right Option.some.inj
    exact .emitStarted persisted returned hpc
  | writeInflightMeta =>
    simp only [turnStep, Option.ite_none_right_eq_some] at h
    obtain ⟨hpc, rfl⟩ := h.imp_right Option.some.inj
    exact .writeInflightMeta hpc
  | pushStream kind text =>
    simp only [turnStep, Option.ite_none_right_eq_some] at h
    obtain ⟨hpc, rfl⟩ := h.imp_right Option.some.inj
    exact .pushStream kind text hpc
  | nextDeltaSequence =>
    simp only [turnStep] at h
    split at h
    · rename_i chunk hpc
      obtain rfl := Option.some.inj h
      exact .nextDeltaSequence chunk hpc
    · cases h
  | publishDelta =>
    simp only [turnStep] at h
    split at h
    · rename_i chunk sequence hpc
      obtain rfl := Option.some.inj h
      exact .publishDelta chunk sequence hpc
    · cases h
  | publishBuiltin =>
    simp only [turnStep, Option.ite_none_right_eq_some] at h
    obtain ⟨⟨hpc, hprovider⟩, rfl⟩ := h.imp_right Option.some.inj
    exact .publishBuiltin hpc hprovider
  | saveMessage =>
    simp only [turnStep, Option.ite_none_right_eq_some] at h
    obtain ⟨hpc, rfl⟩ := h.imp_right Option.some.inj
    exact .saveMessage hpc
  | retryDropped saved =>
    simp only [turnStep, Option.ite_none_right_eq_some] at h
    obtain ⟨⟨hpc, hprovider, htext⟩, rfl⟩ := h.imp_right Option.some.inj
    exact .retryDropped saved hpc hprovider htext
  | deleteKeys =>
    simp only [turnStep, Option.ite_none_left_eq_some] at h
    obtain ⟨hpc, rfl⟩ := h.imp_right Option.some.inj
    exact .deleteKeys hpc

/-- An ended turn takes no step. -/
theorem turnStep_not_ended {t u : Turn} {a : TurnAction} (h : turnStep t a = some u) :
    t.pc ≠ .ended := by
  intro hended
  cases stepped_of_turnStep h <;> simp_all

/-- The frame a step broadcasts, if any. -/
def broadcast (t : Turn) : TurnAction → Option Frame
  | .publishDelta => match t.pc with
    | .numbered chunk sequence => some (.delta (t.deltaFrame chunk sequence))
    | _ => none
  | .publishBuiltin =>
    some (.builtinToolCall t.messageId (t.deltaSeqBase + (t.deltaSeq + 1)) t.iterationId)
  | _ => none

/-! ### Rebuilding frames from the list -/

/-- A record of `_read_inflight_chunks`. -/
structure ChunkRecord where
  kind : Kind
  text : String
  chunkIndex : ℕ
  sequenceOffset : ℕ
  ordinal : ℕ
  deriving DecidableEq

/-- The loop of `_read_inflight_chunks` from a list index and the two kind counters on. -/
def readFrom (index textCount thinkingCount : ℕ) : List Chunk → List ChunkRecord
  | [] => []
  | c :: cs => match c.kind with
    | .text => ⟨.text, c.text, textCount, index + 1, c.ordinal⟩ ::
        readFrom (index + 1) (textCount + 1) thinkingCount cs
    | .thinking => ⟨.thinking, c.text, thinkingCount, index + 1, c.ordinal⟩ ::
        readFrom (index + 1) textCount (thinkingCount + 1) cs

/-- `_read_inflight_chunks`. -/
def readInflightChunks (cache : List Chunk) : List ChunkRecord := readFrom 0 0 0 cache

/-- The synthetic frame of one record. -/
def syntheticFrame (messageId : ℕ) (nodeId : String) (startedSeq : ℕ) (iterationId : Option String)
    (r : ChunkRecord) : DeltaFrame where
  id := ⟨messageId, r.kind, r.chunkIndex⟩
  sequence := startedSeq + r.sequenceOffset
  kind := r.kind
  nodeId := nodeId
  messageId := messageId
  chunkIndex := r.chunkIndex
  text := r.text
  iterationId := iterationId
  ordinal := r.ordinal

/-- `build_run_stream_snapshot`, one meta key and the list read for it. -/
def snapshotFrames (info : Option InflightMeta) (cache : List Chunk) : List DeltaFrame :=
  match info with
  | none => []
  | some m => (readInflightChunks cache).map
      (syntheticFrame m.messageId m.nodeId m.startedSeq m.iterationId)

/-- `_synthesize_message_deltas`, the part for a turn in flight: its started event is persisted, no
    row has its message id yet, and its node id is not empty. -/
def synthesizedDeltas (t : Turn) : List DeltaFrame :=
  match t.startedEvent with
  | none => []
  | some sequence =>
    if t.stored ∨ t.nodeId = "" then []
    else (readInflightChunks t.cache).map
      (syntheticFrame t.messageId t.nodeId sequence t.iterationId)

end LunaCore.Stream
