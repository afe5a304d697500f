import LunaCore.Schemes.Parties
import LunaCore.Stream.Cache

/-! A reconnecting WebSocket client against the turns that are streaming.

    The client registers, waits for the acknowledgement of SUBSCRIBE, reads the snapshot (SCAN of
    the meta keys, then GET and LRANGE for each), sends the snapshot frames and only then what the
    pump has queued for it. Meanwhile the turns go on, each step of theirs between any two of the
    client's.

        turn     RPUSH ─ INCR ─ PUBLISH ─▶ wire ─ fanout ─▶ queue ─┐
        client   register ─ ack ─ SCAN ─ (GET ─ LRANGE)* ─▶ snapshot ─▶ received

    A chunk pushed before the LRANGE is in the snapshot; one pushed after it is published after the
    acknowledgement. -/

namespace LunaCore.Stream
open LunaCore.Schemes

/-- Where `connect` stands for the client. -/
inductive Phase where
  | disconnected
  | registered
  | reading (keys : List ℕ)
  | listing (info : InflightMeta) (keys : List ℕ)
  | sending
  deriving DecidableEq

/-- Which loop of `_send_loop` sent a frame. -/
inductive Source where
  | snapshot
  | live
  deriving DecidableEq

/-- The client's state in the manager. `gone` is a ghost: the messages whose turn had ended when the
    snapshot looked for them. -/
structure Client where
  phase : Phase
  iterationSubscriptions : List String
  snapshotFrames : List DeltaFrame
  queue : List Frame
  received : List (Source × Frame)
  gone : List ℕ
  deriving DecidableEq

/-- The turns of one run (the message id is the index), the pump's subscription, what is published
    to it and not fanned out yet, and the client. -/
structure Session where
  turns : List Turn
  subscribed : Bool
  wire : List Frame
  client : Client

def Session.start : Session where
  turns := []
  subscribed := false
  wire := []
  client :=
    { phase := .disconnected, iterationSubscriptions := [], snapshotFrames := [], queue := []
      received := [], gone := [] }

def Frame.iterationId : Frame → Option String
  | .delta frame => frame.iterationId
  | .builtinToolCall _ _ iterationId => iterationId

/-- `_frame_allowed`, and the rule of `_fanout`: no frame of a turn is an iteration lifecycle event,
    so a tagged one needs the subscription. -/
def frameAllowed (frame : Frame) (iterationSubscriptions : List String) : Bool :=
  match frame.iterationId with
  | none => true
  | some iterationId => iterationSubscriptions.contains iterationId

inductive SessionAction where
  | beginTurn (provider : Provider) (nodeId : String) (iterationId : Option String)
  | turn (j : ℕ) (a : TurnAction)
  | subscribe
  | fanout
  | connect
  | control (subscribe : Bool) (iterationId : String)
  | scan
  | getMeta
  | lrange
  | sendLoop
  | sendSnapshot
  | sendQueued
  deriving DecidableEq

/-- The message, if its turn has ended. -/
def ifEnded (turns : List Turn) (key : ℕ) : List ℕ :=
  if (turns[key]?).any fun t => t.pc = .ended then [key] else []

/-- One step of a turn, of the pump or of the client. -/
def sessionStep (s : Session) : SessionAction → Option Session
  | .beginTurn provider nodeId iterationId =>
    some { s with turns := s.turns ++ [.create provider s.turns.length nodeId iterationId] }
  | .turn j a => match s.turns[j]? with
    | none => none
    | some t => (turnStep t a).map fun u =>
        { s with
          turns := s.turns.set j u
          wire := if s.subscribed then s.wire ++ (broadcast t a).toList else s.wire }
  | .subscribe => some { s with subscribed := true }
  | .fanout => match s.wire with
    | [] => none
    | frame :: wire =>
      if s.client.phase ≠ .disconnected ∧ frameAllowed frame s.client.iterationSubscriptions then
        some { s with wire := wire, client := { s.client with queue := s.client.queue ++ [frame] } }
      else some { s with wire := wire }
  | .connect =>
    if s.client.phase = .disconnected then
      some { s with client := { s.client with phase := .registered } }
    else none
  | .control subscribe iterationId =>
    some { s with client := { s.client with
      iterationSubscriptions :=
        if subscribe then iterationId :: s.client.iterationSubscriptions
        else s.client.iterationSubscriptions.filter (· ≠ iterationId) } }
  | .scan =>
    if s.client.phase = .registered ∧ s.subscribed then
      some { s with client := { s.client with
        phase := .reading ((s.turns.filter fun t => t.inflightMeta.isSome).map Turn.messageId)
        gone := (List.range s.turns.length).flatMap (ifEnded s.turns) } }
    else none
  | .getMeta => match s.client.phase with
    | .reading (key :: keys) =>
      match (s.turns[key]?).bind Turn.inflightMeta with
      | some info => some { s with client := { s.client with phase := .listing info keys } }
      | none => some { s with client := { s.client with
          phase := .reading keys
          gone := s.client.gone ++ ifEnded s.turns key } }
    | _ => none
  | .lrange => match s.client.phase with
    | .listing info keys =>
      let cache := ((s.turns[info.messageId]?).map Turn.cache).getD []
      some { s with client := { s.client with
        phase := .reading keys
        snapshotFrames := s.client.snapshotFrames ++ snapshotFrames (some info) cache
        gone := s.client.gone ++ ifEnded s.turns info.messageId } }
    | _ => none
  | .sendLoop =>
    if s.client.phase = .reading [] then
      some { s with client := { s.client with phase := .sending } }
    else none
  | .sendSnapshot =>
    if s.client.phase = .sending then match s.client.snapshotFrames with
      | [] => none
      | frame :: frames =>
        let received :=
          if frameAllowed (.delta frame) s.client.iterationSubscriptions then
            s.client.received ++ [(.snapshot, .delta frame)]
          else s.client.received
        some { s with client := { s.client with snapshotFrames := frames, received := received } }
    else none
  | .sendQueued =>
    if s.client.phase = .sending ∧ s.client.snapshotFrames = [] then match s.client.queue with
      | [] => none
      | frame :: queue => some { s with client := { s.client with
          queue := queue
          received := s.client.received ++ [(.live, frame)] } }
    else none

/-! ### What a step of a turn broadcasts -/

/-- A frame up to its sequence. -/
def DeltaFrame.unnumbered (f : DeltaFrame) : DeltaFrame := { f with sequence := 0 }

theorem of_unnumbered_eq {f g : DeltaFrame} (h : f.unnumbered = g.unnumbered) :
    f.id = g.id ∧ f.text = g.text ∧ f.ordinal = g.ordinal ∧ f.messageId = g.messageId := by
  obtain ⟨⟩ := f
  obtain ⟨⟩ := g
  simp only [DeltaFrame.unnumbered, DeltaFrame.mk.injEq] at h
  tauto

/-- The frames of the turn's whole history: those broadcast and one that may be pending. -/
def Turn.frames (t : Turn) : List DeltaFrame := liveFrames t.tag .zero t.history

/-- Builtin events shift sequences only: up to these, the list gives back every frame. -/
theorem unnumbered_rebuilt (m : InflightMeta) (as : List Activity) (c : Counters) (index : ℕ)
    (hd : .dropped ∉ as) : (rebuiltFrom m index c.text c.thinking (chunksOf c as)).map
      DeltaFrame.unnumbered = (liveFrames m c as).map DeltaFrame.unnumbered := by
  induction as generalizing c index with
  | nil => rfl
  | cons a as ih =>
    have hd' : Activity.dropped ∉ as := fun hmem => hd (List.mem_cons_of_mem _ hmem)
    cases a with
    | chunk kind text =>
      rw [liveFrames, chunksOf, rebuiltFrom_cons, List.map_cons, List.map_cons,
        ih _ (index + 1) hd']
      rfl
    | builtin =>
      rw [liveFrames, chunksOf]
      exact ih (c.next .builtin) index hd'
    | dropped => exact absurd List.mem_cons_self hd

theorem messageId_of_mem_liveFrames (m : InflightMeta) (as : List Activity) (c : Counters)
    {f : DeltaFrame} (h : f ∈ liveFrames m c as) : f.messageId = m.messageId := by
  induction as generalizing c with
  | nil => cases h
  | cons a as ih =>
    cases a with
    | chunk kind text =>
      rw [liveFrames] at h
      rcases List.mem_cons.mp h with rfl | h
      · rfl
      · exact ih _ h
    | builtin => exact ih (c.next .builtin) h
    | dropped => exact ih (c.next .dropped) h

/-- The ordinals of a turn's frames are strictly increasing. -/
theorem ordinal_le_of_mem (m : InflightMeta) (as : List Activity) (c : Counters)
    {f : DeltaFrame} (h : f ∈ liveFrames m c as) : c.text + c.thinking ≤ f.ordinal := by
  induction as generalizing c with
  | nil => cases h
  | cons a as ih =>
    cases a with
    | chunk kind text =>
      rw [liveFrames] at h
      rcases List.mem_cons.mp h with rfl | h
      · exact Nat.le_refl _
      · have hle := ih _ h
        cases kind <;> simp only [Counters.next] at hle <;> omega
    | builtin => exact ih (c.next .builtin) h
    | dropped => exact ih (c.next .dropped) h

/-- The ordinal identifies the frame: one chunk of a turn is broadcast once. -/
theorem eq_of_ordinal (m : InflightMeta) (as : List Activity) (c : Counters)
    {f g : DeltaFrame} (hf : f ∈ liveFrames m c as) (hg : g ∈ liveFrames m c as)
    (heq : f.ordinal = g.ordinal) : f = g := by
  induction as generalizing c with
  | nil => cases hf
  | cons a as ih =>
    cases a with
    | chunk kind text =>
      rw [liveFrames] at hf hg
      have hlater : ∀ e ∈ liveFrames m (c.next (.chunk kind text)) as,
          c.text + c.thinking < e.ordinal := by
        intro e he
        have hle := ordinal_le_of_mem m as _ he
        cases kind <;> simp only [Counters.next] at hle <;> omega
      have hhead : (frameAt m c kind text).ordinal = c.text + c.thinking := rfl
      rcases List.mem_cons.mp hf with rfl | hf
      · rcases List.mem_cons.mp hg with rfl | hg
        · rfl
        · have := hlater g hg
          omega
      · rcases List.mem_cons.mp hg with rfl | hg
        · have := hlater f hf
          omega
        · exact ih _ hf hg
    | builtin => exact ih (c.next .builtin) hf hg
    | dropped => exact ih (c.next .dropped) hf hg

theorem mem_ifEnded {turns : List Turn} {key : ℕ} {t : Turn} (h : turns[key]? = some t)
    (hended : t.pc = .ended) : key ∈ ifEnded turns key := by
  simp [ifEnded, h, hended]

/-- A step of a turn adds to its frames and never changes one. -/
theorem frames_turnStep {t u : Turn} {a : TurnAction} (ht : Valid t) (h : turnStep t a = some u) :
    ∃ more, u.frames = t.frames ++ more := by
  have hgrow : u.tag = t.tag → (∃ more, u.history = t.history ++ more) →
      ∃ more, u.frames = t.frames ++ more := by
    rintro htag ⟨more, hmore⟩
    exact ⟨_, by rw [Turn.frames, htag, hmore, liveFrames_append]; rfl⟩
  cases stepped_of_turnStep h with
  | emitStarted persisted returned hpc =>
    -- the base changes, but nothing was broadcast yet
    have hact := (ht.early (.inl hpc)).1
    exact ⟨[], by simp [Turn.frames, Turn.history, hact, hpc, liveFrames]⟩
  | writeInflightMeta hpc => exact hgrow rfl ⟨[], by simp [Turn.history, hpc]⟩
  | saveMessage hpc => exact hgrow rfl ⟨[], by simp [Turn.history, hpc]⟩
  | pushStream kind text hpc => exact hgrow rfl ⟨[.chunk kind text], by simp [Turn.history, hpc]⟩
  | nextDeltaSequence chunk hpc => exact hgrow rfl ⟨[], by simp [Turn.history, hpc]⟩
  | publishDelta chunk sequence hpc => exact hgrow rfl ⟨[], by simp [Turn.history, hpc]⟩
  | publishBuiltin hpc => exact hgrow rfl ⟨[.builtin], by simp [Turn.history, hpc]⟩
  | retryDropped saved hpc => exact hgrow rfl ⟨[.dropped], by simp [Turn.history, hpc]⟩
  | deleteKeys =>
    refine hgrow rfl ⟨[], ?_⟩
    rw [List.append_nil]
    simp [Turn.history]

/-- What a step broadcasts is one of the turn's frames, and all it adds to those broadcast. -/
theorem broadcast_turnStep {t u : Turn} {a : TurnAction} (ht : Valid t)
    (h : turnStep t a = some u) :
    (∀ f, broadcast t a = some (.delta f) → f ∈ t.frames) ∧
      ∀ f ∈ u.live, f ∈ t.live ∨ broadcast t a = some (.delta f) := by
  cases stepped_of_turnStep h with
  | publishDelta chunk sequence hpc =>
    have hpending : t.pending = [t.deltaFrame chunk sequence] := by simp [Turn.pending, hpc]
    have hframes := live_pending_eq ht
    rw [hpending] at hframes
    refine ⟨fun f hf => ?_, fun f hf => ?_⟩
    · simp only [broadcast, hpc, Option.some.injEq, Frame.delta.injEq] at hf
      rw [Turn.frames, ← hframes, ← hf]
      exact List.mem_append_right _ (List.mem_singleton_self _)
    · rcases List.mem_append.mp hf with hf | hf
      · exact .inl hf
      · rw [List.mem_singleton.mp hf]
        exact .inr (by simp [broadcast, hpc])
  | _ => exact ⟨by simp [broadcast], fun f hf => .inl hf⟩

/-- Every frame that reached the client or is on its way to it, in the order of the pipeline. -/
def Session.arriving (s : Session) : List Frame :=
  s.client.received.map Prod.snd ++ (s.client.snapshotFrames.map Frame.delta ++
    (s.client.queue ++ s.wire))

theorem mem_arriving {s : Session} {frame : Frame} : frame ∈ s.arriving ↔
    frame ∈ s.client.received.map Prod.snd ∨ frame ∈ s.client.snapshotFrames.map Frame.delta ∨
      frame ∈ s.client.queue ∨ frame ∈ s.wire := by
  simp only [Session.arriving, List.mem_append]

/-- A broadcast puts at most its own frame on the way, and takes none off it. -/
theorem mem_arriving_broadcast {s : Session} {turns : List Turn} {frame? : Option Frame}
    {g : Frame} :
    g ∈ Session.arriving { s with
      turns := turns
      wire := if s.subscribed then s.wire ++ frame?.toList else s.wire } ↔
        g ∈ s.arriving ∨ s.subscribed = true ∧ frame? = some g := by
  rw [mem_arriving, mem_arriving]
  cases hsub : s.subscribed with
  | true => simp [or_assoc]
  | false => simp

/-- Once the started event is out, a turn's tag stays what it is; its message id always does. -/
theorem tag_turnStep {t u : Turn} {a : TurnAction} (h : turnStep t a = some u) :
    u.messageId = t.messageId ∧ (t.pc ≠ .created → u.tag = t.tag ∧ u.pc ≠ .created) := by
  cases stepped_of_turnStep h with
  | emitStarted persisted returned hpc => exact ⟨rfl, fun hne => absurd hpc hne⟩
  | publishBuiltin hpc => exact ⟨rfl, fun _ => ⟨rfl, by simp [hpc]⟩⟩
  | retryDropped saved hpc => exact ⟨rfl, fun _ => ⟨rfl, by simp [hpc]⟩⟩
  | _ => exact ⟨rfl, fun _ => ⟨rfl, by simp⟩⟩

/-! ### The invariant of a session, for one message -/

/-- The snapshot is past the message: its key was read, or was not among those scanned. -/
def Processed (j : ℕ) : Phase → Prop
  | .disconnected | .registered => False
  | .reading keys => j ∉ keys
  | .listing info keys => info.messageId ≠ j ∧ j ∉ keys
  | .sending => True

/-- The message whose key the snapshot looks for next. -/
def Phase.looksFor : Phase → Option ℕ
  | .reading (key :: _) => some key
  | .listing info _ => some info.messageId
  | _ => none

def Frame.isDeltaOf (j : ℕ) : Frame → Bool
  | .delta f => f.messageId == j
  | .builtinToolCall .. => false

/-- No turn of the message goes on over a dropped cache. -/
def Intact (s : Session) (j : ℕ) : Prop :=
  ∀ t ∈ s.turns[j]?, .dropped ∈ t.activity → t.pc = .ended

/-- The client's filter admits the message's iteration wherever it is asked. -/
def Admits (j : ℕ) (s : Session) (a : SessionAction) : Prop :=
  (a = .fanout → ∀ frame ∈ s.wire.head?, frame.isDeltaOf j = true →
    frameAllowed frame s.client.iterationSubscriptions = true) ∧
  (a = .sendSnapshot → ∀ f ∈ s.client.snapshotFrames.head?, f.messageId = j →
    frameAllowed (.delta f) s.client.iterationSubscriptions = true)

/-- The snapshot never looks for the message while its turn goes on over a dropped cache. -/
def Undisturbed (j : ℕ) (s : Session) (a : SessionAction) : Prop :=
  (a = .scan → Intact s j) ∧
  (a = .getMeta ∨ a = .lrange → s.client.phase.looksFor = some j → Intact s j)

instance (s : Session) (j : ℕ) : Decidable (Intact s j) :=
  inferInstanceAs (Decidable (∀ t ∈ s.turns[j]?, .dropped ∈ t.activity → t.pc = .ended))

instance (j : ℕ) (s : Session) (a : SessionAction) : Decidable (Admits j s a) :=
  inferInstanceAs (Decidable (_ ∧ _))

instance (j : ℕ) (s : Session) (a : SessionAction) : Decidable (Undisturbed j s a) :=
  inferInstanceAs (Decidable (_ ∧ _))

/-- What holds of each turn: its place, its own invariant while it goes on, its frames' label. -/
structure TurnValid (k : ℕ) (t : Turn) : Prop where
  messageId : t.messageId = k
  valid : t.pc = .ended ∧ t.inflightMeta = none ∧ t.cache = [] ∨ t.pc ≠ .ended ∧ Valid t
  mine : ∀ f ∈ t.live, f.messageId = k

/-- What holds of the turns and the client, for message `j`: the frames on their way echo frames of
    the turn, and once the snapshot is past the message every frame broadcast is on its way. -/
structure SessionValid (j : ℕ) (s : Session) : Prop where
  turns : ∀ k t, s.turns[k]? = some t → TurnValid k t
  acked : s.client.phase ≠ .disconnected → s.client.phase ≠ .registered → s.subscribed = true
  listed : ∀ info keys, s.client.phase = .listing info keys → info.messageId = j →
    ∃ t, s.turns[j]? = some t ∧ t.tag = info ∧ t.pc ≠ .created
  echoed : ∀ g, .delta g ∈ s.arriving → g.messageId = j →
    ∃ t, s.turns[j]? = some t ∧ ∃ f ∈ t.frames, f.unnumbered = g.unnumbered
  covered : Processed j s.client.phase → j ∉ s.client.gone → ∀ t, s.turns[j]? = some t →
    ∀ f ∈ t.live, ∃ g, .delta g ∈ s.arriving ∧ g.unnumbered = f.unnumbered
  ordered : s.client.received.Pairwise fun a b => ¬ (a.1 = .live ∧ b.1 = .snapshot)
  first : (∃ a ∈ s.client.received, a.1 = .live) →
    s.client.phase = .sending ∧ s.client.snapshotFrames = []

theorem sessionValid_start (j : ℕ) : SessionValid j .start where
  turns := by simp [Session.start]
  acked := by simp [Session.start]
  listed := by simp [Session.start]
  echoed := by simp [Session.start, Session.arriving]
  covered := by simp [Session.start]
  ordered := List.Pairwise.nil
  first := by simp [Session.start]

theorem turnValid_create (provider : Provider) (k : ℕ) (nodeId : String)
    (iterationId : Option String) : TurnValid k (.create provider k nodeId iterationId) where
  messageId := rfl
  valid := .inr ⟨by simp [Turn.create], valid_create provider k nodeId iterationId⟩
  mine := by simp [Turn.create]

/-- A turn ends by deleting its keys. -/
theorem keys_of_ended {t u : Turn} {a : TurnAction} (ht : t.pc ≠ .ended)
    (h : turnStep t a = some u) (hu : u.pc = .ended) : u.inflightMeta = none ∧ u.cache = [] := by
  cases stepped_of_turnStep h with
  | deleteKeys => exact ⟨rfl, rfl⟩
  | publishBuiltin => exact absurd hu ht
  | retryDropped => exact absurd hu ht
  | _ => simp at hu

/-- A turn that moves was valid, and stays so or ends. -/
theorem turnValid_step {k : ℕ} {t u : Turn} {a : TurnAction} (ht : TurnValid k t)
    (h : turnStep t a = some u) : Valid t ∧ TurnValid k u := by
  have hended : t.pc ≠ .ended := turnStep_not_ended h
  have hvalid : Valid t := (ht.valid.resolve_left fun hv => hended hv.1).2
  refine ⟨hvalid, (tag_turnStep h).1.trans ht.messageId, ?_, fun f hf => ?_⟩
  · by_cases hu : u.pc = .ended
    · obtain ⟨hmeta, hcache⟩ := keys_of_ended hended h hu
      exact .inl ⟨hu, hmeta, hcache⟩
    · exact .inr ⟨hu, valid_turnStep hvalid h hu⟩
  · obtain ⟨hframe, hlive⟩ := broadcast_turnStep hvalid h
    rcases hlive f hf with hf | hf
    · exact ht.mine f hf
    · exact (messageId_of_mem_liveFrames _ _ _ (hframe f hf)).trans ht.messageId

/-- A step of some turn preserves the invariant: what it broadcasts goes on the wire of an
    acknowledged subscriber. -/
theorem sessionValid_turn {j : ℕ} {s : Session} (hs : SessionValid j s) {k : ℕ} {t u : Turn}
    {a : TurnAction} (hk : s.turns[k]? = some t) (hu : turnStep t a = some u) :
    SessionValid j { s with
      turns := s.turns.set k u
      wire := if s.subscribed then s.wire ++ (broadcast t a).toList else s.wire } := by
  obtain ⟨hvalid, huvalid⟩ := turnValid_step (hs.turns k t hk) hu
  obtain ⟨hframe, hlive⟩ := broadcast_turnStep hvalid hu
  have hself : (s.turns.set k u)[k]? = some u := moved_self u hk
  refine
    { turns := forall_moved hs.turns huvalid, acked := hs.acked
      listed := fun info keys hphase hj => ?_, echoed := fun g hg hj => ?_
      covered := fun hp hgone v hv f hf => ?_, ordered := hs.ordered, first := hs.first }
  · obtain ⟨v, hv, htag, hpc⟩ := hs.listed info keys hphase hj
    by_cases hkj : k = j
    · subst hkj
      obtain rfl : t = v := Option.some.inj (hk.symm.trans hv)
      obtain ⟨hutag, hupc⟩ := (tag_turnStep hu).2 hpc
      exact ⟨u, hself, hutag.trans htag, hupc⟩
    · exact ⟨v, (moved_other u hkj).trans hv, htag, hpc⟩
  · obtain ⟨more, hmore⟩ := frames_turnStep hvalid hu
    rcases mem_arriving_broadcast.mp hg with hg | ⟨-, hg⟩
    · obtain ⟨v, hv, f, hf, heq⟩ := hs.echoed g hg hj
      by_cases hkj : k = j
      · subst hkj
        obtain rfl : t = v := Option.some.inj (hk.symm.trans hv)
        exact ⟨u, hself, f, hmore ▸ List.mem_append_left _ hf, heq⟩
      · exact ⟨v, (moved_other u hkj).trans hv, f, hf, heq⟩
    · have hmem := hframe g hg
      have hkj : k = j := by
        rw [← hj, messageId_of_mem_liveFrames _ _ _ hmem]
        exact (hs.turns k t hk).messageId.symm
      subst hkj
      exact ⟨u, hself, g, hmore ▸ List.mem_append_left _ hmem, rfl⟩
  · rcases moved_cases hv with ⟨rfl, rfl⟩ | ⟨-, hv⟩
    · rcases hlive f hf with hf | hf
      · obtain ⟨g, hg, heq⟩ := hs.covered hp hgone t hk f hf
        exact ⟨g, mem_arriving_broadcast.mpr (.inl hg), heq⟩
      · -- broadcast now: the client is past the acknowledgement
        have hsub : s.subscribed = true := by
          refine hs.acked (fun h => ?_) (fun h => ?_)
          · rw [h] at hp
            exact hp
          · rw [h] at hp
            exact hp
        exact ⟨f, mem_arriving_broadcast.mpr (.inr ⟨hsub, hf⟩), rfl⟩
    · obtain ⟨g, hg, heq⟩ := hs.covered hp hgone v hv f hf
      exact ⟨g, mem_arriving_broadcast.mpr (.inl hg), heq⟩

/-- What the snapshot rebuilds of a turn whose cache was never dropped: all its frames. -/
theorem unnumbered_snapshot {t : Turn} (ht : Valid t) (hd : .dropped ∉ t.activity) :
    (snapshotFrames (some t.tag) t.cache).map DeltaFrame.unnumbered =
      t.frames.map DeltaFrame.unnumbered := by
  rw [ht.cache hd]
  exact unnumbered_rebuilt t.tag t.history .zero 0 (mt dropped_mem_history.mp hd)

/-- A turn in flight over an intact cache and without a meta key has broadcast nothing. -/
theorem live_nil_of_no_meta {t : Turn} (ht : Valid t) (hd : .dropped ∉ t.activity)
    (hmeta : t.inflightMeta = none) : t.live = [] := by
  by_cases hpc : t.pc = .created ∨ t.pc = .started
  · rw [ht.live, (ht.early hpc).1]
    rfl
  · obtain ⟨hcreated, hstarted⟩ := not_or.mp hpc
    simp [ht.written hcreated hstarted hd] at hmeta

/-- A meta key that is there holds the turn's tag. -/
theorem tag_of_meta {k : ℕ} {t : Turn} (ht : TurnValid k t) {info : InflightMeta}
    (hmeta : t.inflightMeta = some info) : t.tag = info ∧ t.pc ≠ .created := by
  have hvalid : Valid t := (ht.valid.resolve_left fun h => by simp [h.2.1] at hmeta).2
  have hpc : ¬ (t.pc = .created ∨ t.pc = .started) := fun hpc => by
    simp [(hvalid.early hpc).2] at hmeta
  obtain ⟨hcreated, hstarted⟩ := not_or.mp hpc
  have hd : .dropped ∉ t.activity := fun hd => by simp [(hvalid.dropped hd).1] at hmeta
  rw [hvalid.written hcreated hstarted hd] at hmeta
  exact ⟨Option.some.inj hmeta, hcreated⟩

/-- A message whose key was not found and whose turn had not ended has broadcast nothing. -/
theorem live_nil_of_not_found {j : ℕ} {s : Session} (hs : SessionValid j s) (hi : Intact s j)
    {t : Turn} (ht : s.turns[j]? = some t) (hmeta : t.inflightMeta = none)
    (hended : t.pc ≠ .ended) : t.live = [] := by
  have hvalid : Valid t := ((hs.turns j t ht).valid.resolve_left fun h => hended h.1).2
  exact live_nil_of_no_meta hvalid (fun hd => hended (hi t ht hd)) hmeta

/-- SCAN: messages without a meta key have ended or broadcast nothing yet. -/
theorem sessionValid_scan {j : ℕ} {s : Session} (hs : SessionValid j s) (hi : Intact s j)
    (hphase : s.client.phase = .registered) (hsub : s.subscribed = true) :
    SessionValid j { s with client := { s.client with
      phase := .reading ((s.turns.filter fun t => t.inflightMeta.isSome).map Turn.messageId)
      gone := (List.range s.turns.length).flatMap (ifEnded s.turns) } } where
  turns := hs.turns
  acked := fun _ _ => hsub
  listed := by simp
  echoed := hs.echoed
  covered := fun hp hgone t ht f hf => by
    have hlt : j < s.turns.length := (List.getElem?_eq_some_iff.mp ht).1
    have hended : t.pc ≠ .ended := fun hended =>
      hgone (List.mem_flatMap.mpr ⟨j, List.mem_range.mpr hlt, mem_ifEnded ht hended⟩)
    have hmeta : t.inflightMeta = none := by
      by_contra hsome
      refine hp (List.mem_map.mpr ⟨t, List.mem_filter.mpr ⟨List.mem_of_getElem? ht, ?_⟩, ?_⟩)
      · simpa [Option.isSome_iff_ne_none] using hsome
      · exact (hs.turns j t ht).messageId
    simp [live_nil_of_not_found hs hi ht hmeta hended] at hf
  ordered := hs.ordered
  first := fun hlive => by simpa [hphase] using (hs.first hlive).1

/-- GET of a key that is there. -/
theorem sessionValid_found {j : ℕ} {s : Session} (hs : SessionValid j s) {key : ℕ} {keys : List ℕ}
    (hphase : s.client.phase = .reading (key :: keys)) {t : Turn} (ht : s.turns[key]? = some t)
    {info : InflightMeta} (hmeta : t.inflightMeta = some info) :
    SessionValid j { s with client := { s.client with phase := .listing info keys } } := by
  have htv := hs.turns key t ht
  obtain ⟨htag, hcreated⟩ := tag_of_meta htv hmeta
  have hkey : info.messageId = key := by
    rw [← htag]
    exact htv.messageId
  refine
    { turns := hs.turns, acked := fun _ _ => hs.acked (by simp [hphase]) (by simp [hphase])
      listed := fun i ks hlist hj => ?_, echoed := hs.echoed
      covered := fun hp => hs.covered ?_, ordered := hs.ordered
      first := fun hlive => by simpa [hphase] using (hs.first hlive).1 }
  · obtain ⟨rfl, rfl⟩ : info = i ∧ keys = ks := by simpa using hlist
    have hjk : key = j := hkey.symm.trans hj
    exact ⟨t, hjk ▸ ht, htag, hcreated⟩
  · rw [hphase]
    intro hmem
    rcases List.mem_cons.mp hmem with heq | hmem
    · exact hp.1 (hkey.trans heq.symm)
    · exact hp.2 hmem

/-- GET of a key that is gone: the turn has ended, or was not the message's. -/
theorem sessionValid_notFound {j : ℕ} {s : Session} (hs : SessionValid j s) {key : ℕ}
    {keys : List ℕ} (hphase : s.client.phase = .reading (key :: keys))
    (hnone : (s.turns[key]?).bind Turn.inflightMeta = none) (hi : key = j → Intact s j) :
    SessionValid j { s with client := { s.client with
      phase := .reading keys, gone := s.client.gone ++ ifEnded s.turns key } } := by
  refine
    { turns := hs.turns, acked := fun _ _ => hs.acked (by simp [hphase]) (by simp [hphase])
      listed := by simp, echoed := hs.echoed
      covered := fun hp hgone t ht f hf => ?_, ordered := hs.ordered
      first := fun hlive => by simpa [hphase] using (hs.first hlive).1 }
  obtain ⟨hgone, hnotEnded⟩ := not_or.mp (mt List.mem_append.mpr hgone)
  by_cases hkey : key = j
  · subst hkey
    have hmeta : t.inflightMeta = none := by simpa [ht] using hnone
    have hended : t.pc ≠ .ended := fun hended => hnotEnded (mem_ifEnded ht hended)
    simp [live_nil_of_not_found hs (hi rfl) ht hmeta hended] at hf
  · refine hs.covered ?_ hgone t ht f hf
    rw [hphase]
    intro hmem
    rcases List.mem_cons.mp hmem with heq | hmem
    · exact hkey heq.symm
    · exact hp hmem

/-- LRANGE: the frames rebuilt from the list echo all frames of a turn over an intact cache. -/
theorem sessionValid_lrange {j : ℕ} {s : Session} (hs : SessionValid j s) {info : InflightMeta}
    {keys : List ℕ} (hphase : s.client.phase = .listing info keys)
    (hi : info.messageId = j → Intact s j) :
    SessionValid j { s with client := { s.client with
      phase := .reading keys
      snapshotFrames := s.client.snapshotFrames ++ snapshotFrames (some info)
        (((s.turns[info.messageId]?).map Turn.cache).getD [])
      gone := s.client.gone ++ ifEnded s.turns info.messageId } } := by
  have hold : ∀ g, .delta g ∈ s.arriving → .delta g ∈ Session.arriving { s with
      client := { s.client with
        phase := .reading keys
        snapshotFrames := s.client.snapshotFrames ++ snapshotFrames (some info)
          (((s.turns[info.messageId]?).map Turn.cache).getD [])
        gone := s.client.gone ++ ifEnded s.turns info.messageId } } := by
    intro g hg
    rw [mem_arriving, List.map_append, List.mem_append]
    rcases mem_arriving.mp hg with hg | hg | hg
    · exact .inl hg
    · exact .inr (.inl (.inl hg))
    · exact .inr (.inr hg)
  refine
    { turns := hs.turns, acked := fun _ _ => hs.acked (by simp [hphase]) (by simp [hphase])
      listed := by simp, echoed := fun g hg hj => ?_
      covered := fun hp hgone t ht f hf => ?_, ordered := hs.ordered
      first := fun hlive => by simpa [hphase] using (hs.first hlive).1 }
  · have hcases : .delta g ∈ s.arriving ∨ g ∈ snapshotFrames (some info)
        (((s.turns[info.messageId]?).map Turn.cache).getD []) := by
      rw [mem_arriving, List.map_append, List.mem_append] at hg
      rcases hg with hg | (hg | hg) | hg
      · exact .inl (mem_arriving.mpr (.inl hg))
      · exact .inl (mem_arriving.mpr (.inr (.inl hg)))
      · obtain ⟨g', hg', heq⟩ := List.mem_map.mp hg
        exact .inr (Frame.delta.inj heq ▸ hg')
      · exact .inl (mem_arriving.mpr (.inr (.inr hg)))
    rcases hcases with hg | hg
    · exact hs.echoed g hg hj
    · have hinfo : info.messageId = j := by
        obtain ⟨r, -, rfl⟩ := List.mem_map.mp hg
        exact hj
      obtain ⟨t, ht, htag, -⟩ := hs.listed info keys hphase hinfo
      rw [hinfo, ht, ← htag] at hg
      rcases (hs.turns j t ht).valid with hended | ⟨hended, hvalid⟩
      · simp [hended.2.2, snapshotFrames, readInflightChunks, readFrom] at hg
      · refine ⟨t, ht, ?_⟩
        have hd : .dropped ∉ t.activity := fun hd => hended (hi hinfo t ht hd)
        have hmem := List.mem_map_of_mem (f := DeltaFrame.unnumbered) hg
        rw [Option.map_some, Option.getD_some, unnumbered_snapshot hvalid hd] at hmem
        obtain ⟨f, hf, heq⟩ := List.mem_map.mp hmem
        exact ⟨f, hf, heq⟩
  · obtain ⟨hgone, hnotEnded⟩ := not_or.mp (mt List.mem_append.mpr hgone)
    by_cases hinfo : info.messageId = j
    · obtain ⟨v, hv, htag, -⟩ := hs.listed info keys hphase hinfo
      obtain rfl : t = v := Option.some.inj (ht.symm.trans hv)
      have hended : t.pc ≠ .ended := fun hended => hnotEnded (by
        rw [hinfo]
        exact mem_ifEnded ht hended)
      have hvalid : Valid t := ((hs.turns j t ht).valid.resolve_left fun h => hended h.1).2
      have hframes : f ∈ t.frames := by
        rw [Turn.frames, ← live_pending_eq hvalid]
        exact List.mem_append_left _ hf
      have hmem := List.mem_map_of_mem (f := DeltaFrame.unnumbered) hframes
      rw [← unnumbered_snapshot hvalid (fun hd => hended (hi hinfo t ht hd))] at hmem
      obtain ⟨g, hg, heq⟩ := List.mem_map.mp hmem
      refine ⟨g, ?_, heq⟩
      have hg' : g ∈ snapshotFrames (some info)
          (((s.turns[info.messageId]?).map Turn.cache).getD []) := by
        simpa [hinfo, ht, htag] using hg
      rw [mem_arriving, List.map_append, List.mem_append]
      exact .inr (.inl (.inr (List.mem_map_of_mem hg')))
    · have hproc : Processed j s.client.phase := by
        rw [hphase]
        exact ⟨hinfo, hp⟩
      obtain ⟨g, hg, heq⟩ := hs.covered hproc hgone t ht f hf
      exact ⟨g, hold g hg, heq⟩

/-- A new turn has broadcast nothing. -/
theorem sessionValid_beginTurn {j : ℕ} {s : Session} (hs : SessionValid j s) (provider : Provider)
    (nodeId : String) (iterationId : Option String) :
    SessionValid j { s with
      turns := s.turns ++ [.create provider s.turns.length nodeId iterationId] } := by
  refine
    { turns := forall_joined hs.turns (turnValid_create provider _ nodeId iterationId)
      acked := hs.acked, listed := fun info keys hphase hj => ?_
      echoed := fun g hg hj => ?_, covered := fun hp hgone v hv f hf => ?_
      ordered := hs.ordered, first := hs.first }
  · obtain ⟨t, ht, hrest⟩ := hs.listed info keys hphase hj
    exact ⟨t, joined_old _ ht, hrest⟩
  · obtain ⟨t, ht, hrest⟩ := hs.echoed g hg hj
    exact ⟨t, joined_old _ ht, hrest⟩
  · rcases joined_cases hv with hv | ⟨-, rfl⟩
    · exact hs.covered hp hgone v hv f hf
    · simp [Turn.create] at hf

/-- Handing a frame on, or dropping one that is not the message's, loses nothing of the message. -/
theorem sessionValid_move {j : ℕ} {s u : Session} (hs : SessionValid j s)
    (hturns : u.turns = s.turns) (hsub : u.subscribed = s.subscribed)
    (hphase : u.client.phase = s.client.phase) (hgone : u.client.gone = s.client.gone)
    (hback : ∀ g, .delta g ∈ u.arriving → .delta g ∈ s.arriving)
    (hkeep : Processed j s.client.phase → ∀ g, g.messageId = j → .delta g ∈ s.arriving →
      .delta g ∈ u.arriving)
    (hordered : u.client.received.Pairwise fun a b => ¬ (a.1 = .live ∧ b.1 = .snapshot))
    (hfirst : (∃ a ∈ u.client.received, a.1 = .live) →
      u.client.phase = .sending ∧ u.client.snapshotFrames = []) :
    SessionValid j u where
  turns := fun k t ht => hs.turns k t (hturns ▸ ht)
  acked := by
    rw [hphase, hsub]
    exact hs.acked
  listed := by
    rw [hphase, hturns]
    exact hs.listed
  echoed := fun g hg hj => by
    rw [hturns]
    exact hs.echoed g (hback g hg) hj
  covered := fun hp hg t ht f hf => by
    rw [hphase] at hp
    rw [hturns] at ht
    obtain ⟨g, hmem, heq⟩ := hs.covered hp (hgone ▸ hg) t ht f hf
    have hj : g.messageId = j :=
      (of_unnumbered_eq heq).2.2.2.trans ((hs.turns j t ht).mine f hf)
    exact ⟨g, hkeep hp g hj hmem, heq⟩
  ordered := hordered
  first := hfirst

/-- The pump hands the first frame of the wire to the client's queue. -/
theorem sessionValid_fanout {j : ℕ} {s u : Session} (hs : SessionValid j s)
    (hadmits : Admits j s .fanout) (h : sessionStep s .fanout = some u) : SessionValid j u := by
  simp only [sessionStep] at h
  split at h
  · simp at h
  · rename_i frame wire hwire
    split at h
    · obtain rfl := Option.some.inj h
      have hiff : ∀ g, g ∈ Session.arriving { s with
          wire := wire, client := { s.client with queue := s.client.queue ++ [frame] } } ↔
            g ∈ s.arriving := fun g => by
        rw [Session.arriving, Session.arriving, hwire]
        simp only [List.append_assoc, List.singleton_append]
      exact sessionValid_move hs rfl rfl rfl rfl (fun g hg => (hiff _).mp hg)
        (fun _ g _ hg => (hiff _).mpr hg) hs.ordered hs.first
    · rename_i hnot
      obtain rfl := Option.some.inj h
      refine sessionValid_move hs rfl rfl rfl rfl (fun g hg => ?_) (fun hp g hj hg => ?_)
        hs.ordered hs.first
      · rw [mem_arriving] at hg ⊢
        rcases hg with hg | hg | hg | hg
        · exact .inl hg
        · exact .inr (.inl hg)
        · exact .inr (.inr (.inl hg))
        · exact .inr (.inr (.inr (hwire ▸ List.mem_cons_of_mem _ hg)))
      · rw [mem_arriving] at hg ⊢
        rcases hg with hg | hg | hg | hg
        · exact .inl hg
        · exact .inr (.inl hg)
        · exact .inr (.inr (.inl hg))
        · rw [hwire] at hg
          rcases List.mem_cons.mp hg with heq | hg
          · -- a frame of the message that is not admitted, or a client that is not connected
            subst heq
            have hadmit := hadmits.1 rfl (.delta g) (by simp [hwire])
              (by simpa [Frame.isDeltaOf] using hj)
            refine absurd ⟨fun hphase => ?_, hadmit⟩ hnot
            rw [hphase] at hp
            exact hp
          · exact .inr (.inr (.inr hg))

/-- The send loop sends, or filters, the next snapshot frame. -/
theorem sessionValid_sendSnapshot {j : ℕ} {s u : Session} (hs : SessionValid j s)
    (hadmits : Admits j s .sendSnapshot) (h : sessionStep s .sendSnapshot = some u) :
    SessionValid j u := by
  simp only [sessionStep] at h
  split at h
  · rename_i hphase
    split at h
    · simp at h
    · rename_i frame frames hframes
      obtain rfl := Option.some.inj h
      have hnolive : ∀ a ∈ s.client.received, a.1 ≠ .live := fun a ha hlive => by
        simpa [hframes] using (hs.first ⟨a, ha, hlive⟩).2
      refine sessionValid_move hs rfl rfl rfl rfl (fun g hg => ?_) (fun _ g hj hg => ?_) ?_ ?_
      · rw [mem_arriving] at hg ⊢
        rw [hframes, List.map_cons, List.mem_cons]
        rcases hg with hg | hg | hg
        · split at hg
          · rw [List.map_append, List.mem_append] at hg
            rcases hg with hg | hg
            · exact .inl hg
            · exact .inr (.inl (.inl (by simpa using hg)))
          · exact .inl hg
        · exact .inr (.inl (.inr hg))
        · exact .inr (.inr hg)
      · rw [mem_arriving] at hg ⊢
        rw [hframes, List.map_cons, List.mem_cons] at hg
        rcases hg with hg | (hg | hg) | hg
        · refine .inl ?_
          split
          · rw [List.map_append, List.mem_append]
            exact .inl hg
          · exact hg
        · obtain rfl : g = frame := Frame.delta.inj hg
          refine .inl ?_
          rw [if_pos (hadmits.2 rfl g (by simp [hframes]) hj), List.map_append, List.mem_append]
          exact .inr (by simp)
        · exact .inr (.inl hg)
        · exact .inr (.inr hg)
      · dsimp only
        split
        · refine List.pairwise_append.mpr ⟨hs.ordered, List.pairwise_singleton _ _, ?_⟩
          rintro a ha b - ⟨hlive, -⟩
          exact hnolive a ha hlive
        · exact hs.ordered
      · rintro ⟨a, ha, hlive⟩
        exfalso
        dsimp only at ha
        split at ha
        · rcases List.mem_append.mp ha with ha | ha
          · exact hnolive a ha hlive
          · rw [List.mem_singleton.mp ha] at hlive
            simp at hlive
        · exact hnolive a ha hlive
  · simp at h

/-- The send loop forwards the next queued frame, after the whole snapshot. -/
theorem sessionValid_sendQueued {j : ℕ} {s u : Session} (hs : SessionValid j s)
    (h : sessionStep s .sendQueued = some u) : SessionValid j u := by
  simp only [sessionStep] at h
  split at h
  · rename_i hphase
    split at h
    · simp at h
    · rename_i frame queue hqueue
      obtain rfl := Option.some.inj h
      have hiff : ∀ g, g ∈ Session.arriving { s with client := { s.client with
          queue := queue, received := s.client.received ++ [(.live, frame)] } } ↔
            g ∈ s.arriving := fun g => by
        rw [Session.arriving, Session.arriving, hphase.2, hqueue]
        simp only [List.map_append, List.map_cons, List.map_nil, List.append_assoc,
          List.nil_append, List.cons_append]
      refine sessionValid_move hs rfl rfl rfl rfl (fun g hg => (hiff _).mp hg)
        (fun _ g _ hg => (hiff _).mpr hg) ?_ fun _ => hphase
      refine List.pairwise_append.mpr ⟨hs.ordered, List.pairwise_singleton _ _, ?_⟩
      rintro a - b hb ⟨-, hsnap⟩
      rw [List.mem_singleton.mp hb] at hsnap
      simp at hsnap
  · simp at h

/-- The step preserves the invariant when the filter admits the message and the snapshot does not
    look for it over a dropped cache. -/
theorem sessionValid_step {j : ℕ} (s : Session) (a : SessionAction) (u : Session)
    (hs : SessionValid j s) (hok : Admits j s a ∧ Undisturbed j s a)
    (h : sessionStep s a = some u) : SessionValid j u := by
  cases a with
  | beginTurn provider nodeId iterationId =>
    obtain rfl := Option.some.inj h
    exact sessionValid_beginTurn hs provider nodeId iterationId
  | turn k a =>
    simp only [sessionStep] at h
    split at h
    · simp at h
    · rename_i t hk
      obtain ⟨v, hv, rfl⟩ := Option.map_eq_some_iff.mp h
      exact sessionValid_turn hs hk hv
  | subscribe =>
    obtain rfl := Option.some.inj h
    exact
      { turns := hs.turns, acked := fun _ _ => rfl, listed := hs.listed, echoed := hs.echoed
        covered := hs.covered, ordered := hs.ordered, first := hs.first }
  | fanout => exact sessionValid_fanout hs hok.1 h
  | connect =>
    simp only [sessionStep] at h
    split at h
    · rename_i hphase
      obtain rfl := Option.some.inj h
      exact
        { turns := hs.turns, acked := by simp, listed := by simp, echoed := hs.echoed
          covered := fun hp => absurd hp id, ordered := hs.ordered
          first := fun hlive => by simpa [hphase] using (hs.first hlive).1 }
    · simp at h
  | control subscribe iterationId =>
    obtain rfl := Option.some.inj h
    exact sessionValid_move hs rfl rfl rfl rfl (fun _ hg => hg) (fun _ _ _ hg => hg) hs.ordered
      hs.first
  | scan =>
    simp only [sessionStep] at h
    split at h
    · rename_i hphase
      obtain rfl := Option.some.inj h
      exact sessionValid_scan hs (hok.2.1 rfl) hphase.1 hphase.2
    · simp at h
  | getMeta =>
    simp only [sessionStep] at h
    split at h
    · rename_i key keys hphase
      split at h
      · rename_i info hinfo
        obtain rfl := Option.some.inj h
        obtain ⟨t, ht, hmeta⟩ := Option.bind_eq_some_iff.mp hinfo
        exact sessionValid_found hs hphase ht hmeta
      · rename_i hnone
        obtain rfl := Option.some.inj h
        refine sessionValid_notFound hs hphase hnone fun hkey => ?_
        exact hok.2.2 (.inl rfl) (by rw [hphase, hkey]; rfl)
    · simp at h
  | lrange =>
    simp only [sessionStep] at h
    split at h
    · rename_i info keys hphase
      obtain rfl := Option.some.inj h
      exact sessionValid_lrange hs hphase fun hj =>
        hok.2.2 (.inr rfl) (by rw [hphase, ← hj]; rfl)
    · simp at h
  | sendLoop =>
    simp only [sessionStep] at h
    split at h
    · rename_i hphase
      obtain rfl := Option.some.inj h
      have hproc : Processed j s.client.phase := by
        rw [hphase]
        exact List.not_mem_nil
      exact
        { turns := hs.turns, acked := fun _ _ => hs.acked (by simp [hphase]) (by simp [hphase])
          listed := by simp, echoed := hs.echoed, covered := fun _ => hs.covered hproc
          ordered := hs.ordered
          first := fun hlive => by simpa [hphase] using (hs.first hlive).1 }
    · simp at h
  | sendSnapshot => exact sessionValid_sendSnapshot hs hok.1 h
  | sendQueued => exact sessionValid_sendQueued hs h

/-! ### Zero loss -/

/-- What the client is promised about message `j`: every delta broadcast has been received or is on
    its way, no snapshot frame follows a live one, and frames for one chunk are the same up to the
    sequence, in particular in id and text. -/
structure Delivered (j : ℕ) (s : Session) : Prop where
  complete : s.client.phase = .sending → j ∉ s.client.gone → ∀ t, s.turns[j]? = some t →
    ∀ f ∈ t.live, ∃ g, .delta g ∈ s.arriving ∧ g.id = f.id ∧ g.text = f.text
  snapshotFirst : s.client.received.Pairwise fun a b => ¬ (a.1 = .live ∧ b.1 = .snapshot)
  consistent : ∀ a ∈ s.client.received, ∀ b ∈ s.client.received, ∀ f g, a.2 = .delta f →
    b.2 = .delta g → f.messageId = j → g.messageId = j → f.ordinal = g.ordinal →
      f.id = g.id ∧ f.text = g.text

theorem delivered_of_valid {j : ℕ} {s : Session} (hs : SessionValid j s) : Delivered j s where
  complete := fun hphase hgone t ht f hf => by
    have hproc : Processed j s.client.phase := by
      rw [hphase]
      trivial
    obtain ⟨g, hg, heq⟩ := hs.covered hproc hgone t ht f hf
    obtain ⟨hid, htext, -⟩ := of_unnumbered_eq heq
    exact ⟨g, hg, hid, htext⟩
  snapshotFirst := hs.ordered
  consistent := fun a ha b hb f g hf hg hfj hgj hord => by
    have hmem : ∀ c ∈ s.client.received, ∀ e, c.2 = Frame.delta e → .delta e ∈ s.arriving :=
      fun c hc e he => mem_arriving.mpr (.inl (List.mem_map.mpr ⟨c, hc, he⟩))
    obtain ⟨t, ht, f', hf', hfeq⟩ := hs.echoed f (hmem a ha f hf) hfj
    obtain ⟨u, hu, g', hg', hgeq⟩ := hs.echoed g (hmem b hb g hg) hgj
    obtain rfl : t = u := Option.some.inj (ht.symm.trans hu)
    have hsame : f' = g' := by
      refine eq_of_ordinal _ _ _ hf' hg' ?_
      calc f'.ordinal = f.ordinal := (of_unnumbered_eq hfeq).2.2.1
        _ = g.ordinal := hord
        _ = g'.ordinal := (of_unnumbered_eq hgeq).2.2.1.symm
    have heq : f.unnumbered = g.unnumbered := hfeq.symm.trans (hsame ▸ hgeq)
    obtain ⟨hid, htext, -⟩ := of_unnumbered_eq heq
    exact ⟨hid, htext⟩

/-- CORRECT (zero loss): in every run in which the filter admits message `j` and the snapshot never
    looks for it while its turn goes on over a dropped cache, every state delivers it. -/
theorem delivered_run {j : ℕ} {as : List SessionAction} {s : Session}
    (hadmits : Guarded sessionStep (Admits j) .start as)
    (hundisturbed : Guarded sessionStep (Undisturbed j) .start as)
    (h : runFrom sessionStep .start as = some s) : Delivered j s :=
  delivered_of_valid
    (inv_guarded sessionValid_step (sessionValid_start j) (hadmits.and hundisturbed) h)

/-- A client that connects between the RPUSH and the PUBLISH of a chunk: it is in the snapshot and
    comes again over the wire. -/
def overlap : List SessionAction :=
  [.beginTurn .chat "n" none, .turn 0 (.emitStarted (some 5) true), .turn 0 .writeInflightMeta,
    .turn 0 (.pushStream .text "a"), .connect, .subscribe, .scan, .getMeta, .lrange, .sendLoop,
    .turn 0 .nextDeltaSequence, .turn 0 .publishDelta, .fanout, .sendSnapshot, .sendQueued]

theorem delivered_overlap : ∃ s, runFrom sessionStep .start overlap = some s ∧
    s.client.received.map Prod.fst = [.snapshot, .live] ∧ Delivered 0 s :=
  ⟨_, rfl, by decide, delivered_run (by decide) (by decide)
    (rfl : runFrom sessionStep .start overlap = some _)⟩

/-- An `AnthropicProvider` turn that showed "a" in a first round and whose second round dropped and
    is sent again; then a client connects. -/
def connectAfterDrop : List SessionAction :=
  [.beginTurn .anthropic "n" none, .turn 0 (.emitStarted (some 5) true),
    .turn 0 .writeInflightMeta, .turn 0 (.pushStream .text "a"), .turn 0 .nextDeltaSequence,
    .turn 0 .publishDelta, .turn 0 (.retryDropped true), .connect, .subscribe, .scan, .sendLoop]

/-- The client never receives the first delta of a turn still in flight. -/
theorem lost_after_drop : ∃ s, runFrom sessionStep .start connectAfterDrop = some s ∧
    (∃ t, s.turns[0]? = some t ∧ t.InFlight) ∧ 0 ∉ s.client.gone ∧ ¬ Delivered 0 s := by
  refine ⟨_, rfl, ⟨_, rfl, by decide, by decide⟩, by decide, fun h => ?_⟩
  obtain ⟨g, hg, -⟩ := h.complete (by decide) (by decide) _ rfl _ List.mem_cons_self
  simp [Session.arriving, Session.start] at hg

end LunaCore.Stream
