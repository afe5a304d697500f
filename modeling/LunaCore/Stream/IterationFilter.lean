import Mathlib.Data.Finset.Basic
import LunaCore.Providers.StreamAccumulator
import LunaCore.Schemes.Machine
import LunaCore.Stream.Websocket

/-! Which frames of a run reach which of its clients.

        frame      {event_type, payload: {iteration_id}}
        publish ─▶ parsed once ─▶ each client: no iteration, its lifecycle, or subscribed? ─▶ queue
        control ─▶ subscribe / unsubscribe                                                      │
        snapshot ─▶ the same question at each frame ─▶ sent              sent ◀─────────────────┘

    `json.loads` refuses most texts with a ValueError, which every caller takes for a frame without
    keys. A text nested too deep it leaves with a RecursionError, which none of them takes: the
    client whose control message it was is dropped, and so is the pump by such a frame. -/

namespace LunaCore.Stream.IterationFilter
open LunaCore.Values LunaCore.Schemes LunaCore.Providers

/-! ### Routing keys and control messages -/

/-- `ITERATION_LIFECYCLE_TYPES`. -/
def iterationLifecycleTypes : List String :=
  ["iteration_started", "iteration_completed", "iteration_failed"]

def str? : Json → Option String
  | .str s => some s
  | _ => none

variable (loads : String → Loaded)

/-- `_extract_routing_keys`: the iteration id and the event type; `none` where it raises. -/
def extractRoutingKeys (payload : String) : Option (Option String × Option String) :=
  match loads payload with
  | .raises _ => none
  | .value (.obj obj) =>
    let eventType := (Dict.get obj "event_type").bind str?
    match Dict.get obj "payload" with
    | some (.obj inner) => some ((Dict.get inner "iteration_id").bind str?, eventType)
    | _ => some (none, eventType)
  | _ => some (none, none)

/-- The rule of `_fanout` for a client with this subscription set. -/
def passes (keys : Option String × Option String) (iterationSubscriptions : Finset String) : Bool :=
  match keys.1 with
  | none => true
  | some iterationId =>
    keys.2.any iterationLifecycleTypes.contains || decide (iterationId ∈ iterationSubscriptions)

/-- `_frame_allowed`. -/
def frameAllowed (frame : String) (iterationSubscriptions : Finset String) : Option Bool :=
  (extractRoutingKeys loads frame).map fun keys => passes keys iterationSubscriptions

inductive Control where
  | subscribe (id : String)
  | unsubscribe (id : String)
  deriving DecidableEq

/-- What a control message asks for, if it is well formed. -/
def readControl : Json → Option Control
  | .obj msg =>
    match Dict.get msg "type", Dict.get msg "scope", Dict.get msg "id" with
    | some (.str msgType), some (.str scope), some (.str targetId) =>
      if scope ≠ "iteration" ∨ targetId = "" then none
      else if msgType = "subscribe" then some (.subscribe targetId)
      else if msgType = "unsubscribe" then some (.unsubscribe targetId)
      else none
    | _, _, _ => none
  | _ => none

/-- What a text asks for; most ask for nothing. -/
def controlOf (raw : String) : Option Control :=
  match loads raw with
  | .value json => readControl json
  | _ => none

/-- `_handle_control_message`. -/
def handleControlMessage (iterationSubscriptions : Finset String) (raw : String) :
    Option (Finset String) :=
  match loads raw with
  | .raises _ => none
  | .decodeError => some iterationSubscriptions
  | .value json => match readControl json with
    | some (.subscribe id) => some (insert id iterationSubscriptions)
    | some (.unsubscribe id) => some (iterationSubscriptions.erase id)
    | none => some iterationSubscriptions

/-! ### The clients of a key -/

/-- Where `connect` stands for a client: registered, in its loops, or removed. -/
inductive ClientPhase where
  | registered
  | looping
  | gone
  deriving DecidableEq

/-- `_ClientState` and the WebSocket: what its send loop has yet to send of the snapshot, and what it
    has sent of the snapshot and of its queue. -/
structure ClientState where
  phase : ClientPhase
  iterationSubscriptions : Finset String
  snapshotFrames : List String
  queue : List String
  shown : List String
  sent : List String

/-- A client as `connect` registers it. -/
def ClientState.fresh : ClientState := ⟨.registered, ∅, [], [], [], []⟩

/-- The clients of one key, and whether the pump the first of them started still listens. -/
structure Room (ι : Type*) where
  clients : ι → Option ClientState
  listening : Bool

variable {ι : Type*}

def Room.start : Room ι := ⟨fun _ => none, true⟩

/-- A turn of `connect` and its two loops. -/
inductive Turn where
  | connect
  | snapshotTaken (frames : List String)
  | sendSnapshot
  | sendQueued
  | control (raw : String)
  | hangUp

inductive Action (ι : Type*) where
  | client (i : ι) (turn : Turn)
  | publish (payload : String)

/-- A turn in the loops of a connected client; an exception that leaves a loop drops the client. -/
def loopStep (c : ClientState) : Turn → Option ClientState
  | .connect => none
  | .snapshotTaken frames =>
    if c.phase = .registered then some { c with phase := .looping, snapshotFrames := frames }
    else none
  | .sendSnapshot =>
    if c.phase = .looping then match c.snapshotFrames with
      | [] => none
      | frame :: frames => match frameAllowed loads frame c.iterationSubscriptions with
        | none => some { c with phase := .gone }
        | some true => some { c with snapshotFrames := frames, shown := c.shown ++ [frame] }
        | some false => some { c with snapshotFrames := frames }
    else none
  | .sendQueued =>
    if c.phase = .looping ∧ c.snapshotFrames = [] then match c.queue with
      | [] => none
      | frame :: queue => some { c with queue := queue, sent := c.sent ++ [frame] }
    else none
  | .control raw =>
    if c.phase = .looping then
      match handleControlMessage loads c.iterationSubscriptions raw with
      | none => some { c with phase := .gone }
      | some subscriptions => some { c with iterationSubscriptions := subscriptions }
    else none
  | .hangUp => if c.phase = .looping then some { c with phase := .gone } else none

def clientStep : Option ClientState → Turn → Option ClientState
  | none, .connect => some .fresh
  | none, _ => none
  | some c, turn => loopStep loads c turn

/-- What `_fanout` does to one client. -/
def ClientState.enqueue (keys : Option String × Option String) (payload : String) (c : ClientState) :
    ClientState :=
  if c.phase ≠ .gone ∧ passes keys c.iterationSubscriptions = true then
    { c with queue := c.queue ++ [payload] }
  else c

/-- `_fanout`, as the pump calls it. -/
def fanout (s : Room ι) (payload : String) : Room ι :=
  if s.listening then match extractRoutingKeys loads payload with
    | none => { s with listening := false }
    | some keys => { s with clients := fun i => (s.clients i).map (.enqueue keys payload) }
  else s

variable [DecidableEq ι]

def step (s : Room ι) : Action ι → Option (Room ι)
  | .publish payload => some (fanout loads s payload)
  | .client i turn => (clientStep loads (s.clients i) turn).map fun c =>
      { s with clients := Function.update s.clients i (some c) }

/-! ### What one client sees of a run -/

/-- A turn of its own, or a frame on the run's channel. -/
inductive Event where
  | own (turn : Turn)
  | published (payload : String)

/-- The client's event in an action, if it has one. -/
def own (i : ι) : Action ι → Option Event
  | .client j turn => if j = i then some (.own turn) else none
  | .publish payload => some (.published payload)

/-- One client and the pump, as a machine of its own. -/
def seenStep (v : Option ClientState × Bool) : Event → Option (Option ClientState × Bool)
  | .own turn => (clientStep loads v.1 turn).map fun c => (some c, v.2)
  | .published payload => some <|
    if v.2 then match extractRoutingKeys loads payload with
      | none => (v.1, false)
      | some keys => (v.1.map (.enqueue keys payload), true)
    else v

/-- Nobody else's turns make a difference to a client. -/
theorem seen_run {as : List (Action ι)} {s t : Room ι} (i : ι)
    (h : runFrom (step loads) s as = some t) :
    runFrom (seenStep loads) (s.clients i, s.listening) (as.filterMap (own i)) =
      some (t.clients i, t.listening) := by
  refine @view_run _ _ (step loads) _ _ (fun s : Room ι => (s.clients i, s.listening)) (own i)
    (seenStep loads) ?_ ?_ as s t h
  · intro s a t e hstep hown
    cases a with
    | publish payload =>
      obtain rfl := Option.some.inj hown
      obtain rfl := Option.some.inj hstep
      simp only [seenStep, fanout]
      cases hlistening : s.listening with
      | false => simp [hlistening]
      | true => cases extractRoutingKeys loads payload <;> simp
    | client j turn =>
      rw [own] at hown
      split at hown
      case isFalse => cases hown
      case isTrue hj =>
        subst hj
        obtain rfl := Option.some.inj hown
        obtain ⟨c, hc, rfl⟩ := Option.map_eq_some_iff.mp hstep
        simp only [seenStep, hc, Option.map_some, Function.update_self]
  · intro s a t hstep hown
    cases a with
    | publish payload => cases hown
    | client j turn =>
      rw [own] at hown
      split at hown
      case isTrue => cases hown
      case isFalse hj =>
        obtain ⟨c, -, rfl⟩ := Option.map_eq_some_iff.mp hstep
        simp only [Function.update_of_ne (Ne.symm hj)]

/-! ### What a client is to be sent -/

/-- `json.loads` takes the text, or refuses it with a ValueError. -/
def Readable (text : String) : Prop := ∀ error, loads text ≠ .raises error

/-- The frame's payload carries an iteration id. -/
def Carries (frame id : String) : Prop :=
  ∃ obj inner, loads frame = .value (.obj obj) ∧ Dict.get obj "payload" = some (.obj inner) ∧
    Dict.get inner "iteration_id" = some (.str id)

def IsLifecycle (frame : String) : Prop :=
  ∃ obj eventType, loads frame = .value (.obj obj) ∧
    Dict.get obj "event_type" = some (.str eventType) ∧ eventType ∈ iterationLifecycleTypes

/-- What a client gets to see: no iteration, a lifecycle event, or an iteration it subscribed to. -/
def Wanted (subscribed : String → Prop) (frame : String) : Prop :=
  (∀ id, ¬ Carries loads frame id) ∨ IsLifecycle loads frame ∨
    ∃ id, Carries loads frame id ∧ subscribed id

/-- The last thing the client asked about the iteration is to get it. -/
def Subscribed (es : List Event) (id : String) : Prop :=
  ∃ before raw after, es = before ++ .own (.control raw) :: after ∧
    controlOf loads raw = some (.subscribe id) ∧
      ∀ later, .own (.control later) ∈ after → controlOf loads later ≠ some (.unsubscribe id)

def Present (es : List Event) : Prop := .own .connect ∈ es ∧ .own .hangUp ∉ es

/-- The frames published while the client was there that it wanted at that moment, each once, in the
    order of publication. -/
inductive Due : List Event → List String → Prop
  | start : Due [] []
  | wanted {es frames frame} (due : Due es frames) (present : Present es)
      (wanted : Wanted loads (Subscribed loads es) frame) :
      Due (es ++ [.published frame]) (frames ++ [frame])
  | unwanted {es frames frame} (due : Due es frames)
      (unwanted : ¬ (Present es ∧ Wanted loads (Subscribed loads es) frame)) :
      Due (es ++ [.published frame]) frames
  | own {es frames turn} (due : Due es frames) : Due (es ++ [.own turn]) frames

/-- The snapshot's frames: those its send loop has not come to yet, and those before them that the
    client wanted when it did. -/
inductive Shown : List Event → List String → List String → Prop
  | start : Shown [] [] []
  | taken {es frames} (shown : Shown es [] []) :
      Shown (es ++ [.own (.snapshotTaken frames)]) frames []
  | wanted {es frame left frames} (shown : Shown es (frame :: left) frames)
      (wanted : Wanted loads (Subscribed loads es) frame) :
      Shown (es ++ [.own .sendSnapshot]) left (frames ++ [frame])
  | unwanted {es frame left frames} (shown : Shown es (frame :: left) frames)
      (unwanted : ¬ Wanted loads (Subscribed loads es) frame) :
      Shown (es ++ [.own .sendSnapshot]) left frames
  | other {es e left frames} (shown : Shown es left frames)
      (taken : ∀ snapshot, e ≠ .own (.snapshotTaken snapshot)) (send : e ≠ .own .sendSnapshot) :
      Shown (es ++ [e]) left frames

/-! ### The two copies of the rule -/

variable {loads}

theorem str?_eq_some {json : Json} {s : String} : str? json = some s ↔ json = .str s := by
  cases json with
  | str t => rw [str?, Option.some.injEq, Json.str.injEq]
  | _ => simp [str?]

theorem isLifecycle_iff {frame : String} {obj : Dict} (hload : loads frame = .value (.obj obj)) :
    ((Dict.get obj "event_type").bind str?).any iterationLifecycleTypes.contains = true ↔
      IsLifecycle loads frame := by
  rw [Option.any_eq_true]
  constructor
  · rintro ⟨eventType, htype, hmem⟩
    obtain ⟨json, hget, hstr⟩ := Option.bind_eq_some_iff.mp htype
    rw [str?_eq_some.mp hstr] at hget
    exact ⟨obj, eventType, hload, hget, List.contains_iff_mem.mp hmem⟩
  · rintro ⟨other, eventType, hother, hget, hmem⟩
    rw [hload, Loaded.value.injEq, Json.obj.injEq] at hother
    subst hother
    exact ⟨eventType, by rw [hget]; rfl, List.contains_iff_mem.mpr hmem⟩

/-- SPEC: the keys are those of the frame. -/
theorem extractRoutingKeys_spec {frame : String} {keys : Option String × Option String}
    (h : extractRoutingKeys loads frame = some keys) :
    (∀ id, keys.1 = some id ↔ Carries loads frame id) ∧
      (keys.1 ≠ none → (keys.2.any iterationLifecycleTypes.contains = true ↔
        IsLifecycle loads frame)) := by
  have hnone (hbare : ∀ id, ¬ Carries loads frame id) {eventType : Option String} :
      (∀ id, (none, eventType).1 = some id ↔ Carries loads frame id) ∧
        ((none, eventType).1 ≠ (none : Option String) →
          (eventType.any iterationLifecycleTypes.contains = true ↔ IsLifecycle loads frame)) :=
    ⟨fun id => iff_of_false (by simp) (hbare id), fun hne => absurd rfl hne⟩
  unfold extractRoutingKeys at h
  split at h
  case h_1 => cases h
  case h_2 obj hload =>
    dsimp only at h
    have hcarries (id : String) : Carries loads frame id ↔ ∃ inner,
        Dict.get obj "payload" = some (.obj inner) ∧
          Dict.get inner "iteration_id" = some (.str id) := by
      constructor
      · rintro ⟨other, inner, hother, hpayload, hid⟩
        rw [hload, Loaded.value.injEq, Json.obj.injEq] at hother
        exact ⟨inner, hother ▸ hpayload, hid⟩
      · rintro ⟨inner, hpayload, hid⟩
        exact ⟨obj, inner, hload, hpayload, hid⟩
    split at h
    case h_1 inner hpayload =>
      obtain rfl := Option.some.inj h
      refine ⟨fun id => ?_, fun _ => isLifecycle_iff hload⟩
      rw [hcarries, hpayload, Option.bind_eq_some_iff]
      simp [str?_eq_some]
    case h_2 hpayload =>
      obtain rfl := Option.some.inj h
      refine hnone fun id hid => ?_
      obtain ⟨inner, hget, -⟩ := (hcarries id).mp hid
      exact hpayload inner hget
  case h_3 hraises hobj =>
    obtain rfl := Option.some.inj h
    refine hnone fun id hid => ?_
    obtain ⟨obj, inner, hload, -⟩ := hid
    exact hobj obj hload

/-- SPEC: the rule of `_fanout` is what the client wants. -/
theorem passes_iff {frame : String} {keys : Option String × Option String}
    {subscriptions : Finset String} {subscribed : String → Prop}
    (h : extractRoutingKeys loads frame = some keys)
    (hsubs : ∀ id, id ∈ subscriptions ↔ subscribed id) :
    passes keys subscriptions = true ↔ Wanted loads subscribed frame := by
  obtain ⟨hcarries, hlifecycle⟩ := extractRoutingKeys_spec h
  obtain ⟨iterationId, eventType⟩ := keys
  cases iterationId with
  | none =>
    refine iff_of_true rfl (.inl fun id hid => ?_)
    cases (hcarries id).mpr hid
  | some id =>
    have hid : ∀ other, Carries loads frame other ↔ id = other := fun other => by
      rw [← hcarries other, Option.some.injEq]
    rw [passes, Bool.or_eq_true, hlifecycle (by simp), decide_eq_true_iff, hsubs, Wanted]
    simp [hid]

/-- `_frame_allowed` asks the same. -/
theorem frameAllowed_iff {frame : String} {subscriptions : Finset String}
    {subscribed : String → Prop} {allowed : Bool}
    (h : frameAllowed loads frame subscriptions = some allowed)
    (hsubs : ∀ id, id ∈ subscriptions ↔ subscribed id) :
    allowed = true ↔ Wanted loads subscribed frame := by
  obtain ⟨keys, hkeys, rfl⟩ := Option.map_eq_some_iff.mp h
  exact passes_iff hkeys hsubs

theorem exists_keys {frame : String} (h : Readable loads frame) :
    ∃ keys, extractRoutingKeys loads frame = some keys := by
  unfold extractRoutingKeys
  cases hload : loads frame with
  | raises error => exact absurd hload (h error)
  | decodeError => exact ⟨_, rfl⟩
  | value json =>
    cases json with
    | obj obj =>
      dsimp only
      split
      · exact ⟨_, rfl⟩
      · exact ⟨_, rfl⟩
    | _ => exact ⟨_, rfl⟩

/-! ### What a turn does -/

/-- Every text of the event is one `json.loads` takes, or refuses with a ValueError. -/
def Event.Readable (loads : String → Loaded) : Event → Prop
  | .own (.snapshotTaken frames) => ∀ frame ∈ frames, IterationFilter.Readable loads frame
  | .own (.control raw) => IterationFilter.Readable loads raw
  | .published frame => IterationFilter.Readable loads frame
  | _ => True

/-- What an event makes of the client, as long as every text is readable. -/
inductive Moved (loads : String → Loaded) :
    Option ClientState → Event → Option ClientState → Prop
  | connect : Moved loads none (.own .connect) (some .fresh)
  | snapshotTaken {c frames} (hphase : c.phase = .registered) :
      Moved loads (some c) (.own (.snapshotTaken frames))
        (some { c with phase := .looping, snapshotFrames := frames })
  | showFrame {c frame frames} (hphase : c.phase = .looping)
      (hframes : c.snapshotFrames = frame :: frames)
      (hallowed : frameAllowed loads frame c.iterationSubscriptions = some true) :
      Moved loads (some c) (.own .sendSnapshot)
        (some { c with snapshotFrames := frames, shown := c.shown ++ [frame] })
  | withholdFrame {c frame frames} (hphase : c.phase = .looping)
      (hframes : c.snapshotFrames = frame :: frames)
      (hallowed : frameAllowed loads frame c.iterationSubscriptions = some false) :
      Moved loads (some c) (.own .sendSnapshot) (some { c with snapshotFrames := frames })
  | sendQueued {c frame queue} (hphase : c.phase = .looping) (hnone : c.snapshotFrames = [])
      (hqueue : c.queue = frame :: queue) :
      Moved loads (some c) (.own .sendQueued)
        (some { c with queue := queue, sent := c.sent ++ [frame] })
  | control {c raw subscriptions} (hphase : c.phase = .looping)
      (hhandled : handleControlMessage loads c.iterationSubscriptions raw = some subscriptions) :
      Moved loads (some c) (.own (.control raw))
        (some { c with iterationSubscriptions := subscriptions })
  | hangUp {c} (hphase : c.phase = .looping) :
      Moved loads (some c) (.own .hangUp) (some { c with phase := .gone })
  | nobody {payload} : Moved loads none (.published payload) none
  | enqueue {c keys payload} (hkeys : extractRoutingKeys loads payload = some keys)
      (hgone : c.phase ≠ .gone) (hpasses : passes keys c.iterationSubscriptions = true) :
      Moved loads (some c) (.published payload) (some { c with queue := c.queue ++ [payload] })
  | leaveOut {c keys payload} (hkeys : extractRoutingKeys loads payload = some keys)
      (hnot : ¬ (c.phase ≠ .gone ∧ passes keys c.iterationSubscriptions = true)) :
      Moved loads (some c) (.published payload) (some c)

theorem exists_allowed {frame : String} (h : Readable loads frame) (subscriptions : Finset String) :
    ∃ allowed, frameAllowed loads frame subscriptions = some allowed := by
  obtain ⟨keys, hkeys⟩ := exists_keys h
  exact ⟨_, by rw [frameAllowed, hkeys, Option.map_some]⟩

theorem exists_handled {raw : String} (h : Readable loads raw) (subscriptions : Finset String) :
    ∃ after, handleControlMessage loads subscriptions raw = some after := by
  unfold handleControlMessage
  cases hload : loads raw with
  | raises error => exact absurd hload (h error)
  | decodeError => exact ⟨_, rfl⟩
  | value json =>
    dsimp only
    split
    · exact ⟨_, rfl⟩
    · exact ⟨_, rfl⟩
    · exact ⟨_, rfl⟩

/-- The moves are all there is. -/
theorem moved_of_seenStep {o : Option ClientState} {w : Option ClientState × Bool} {e : Event}
    (hstep : seenStep loads (o, true) e = some w) (he : e.Readable loads)
    (ho : ∀ c ∈ o, ∀ frame ∈ c.snapshotFrames, Readable loads frame) :
    w.2 = true ∧ Moved loads o e w.1 := by
  cases e with
  | published payload =>
    obtain ⟨keys, hkeys⟩ := exists_keys he
    rw [seenStep, if_pos rfl, hkeys, Option.some.injEq] at hstep
    subst hstep
    refine ⟨rfl, ?_⟩
    cases o with
    | none => exact .nobody
    | some c =>
      change Moved loads (some c) _ (some (c.enqueue keys payload))
      unfold ClientState.enqueue
      split
      case isTrue hok => exact .enqueue hkeys hok.1 hok.2
      case isFalse hnot => exact .leaveOut hkeys hnot
  | own turn =>
    obtain ⟨d, hd, rfl⟩ := Option.map_eq_some_iff.mp hstep
    refine ⟨rfl, ?_⟩
    cases o with
    | none =>
      cases turn with
      | connect =>
        obtain rfl := Option.some.inj hd
        exact .connect
      | _ => cases hd
    | some c =>
      change loopStep loads c turn = some d at hd
      cases turn with
      | connect => cases hd
      | snapshotTaken frames =>
        obtain ⟨hphase, hd⟩ := Option.ite_none_right_eq_some.mp hd
        exact Option.some.inj hd ▸ .snapshotTaken hphase
      | hangUp =>
        obtain ⟨hphase, hd⟩ := Option.ite_none_right_eq_some.mp hd
        exact Option.some.inj hd ▸ .hangUp hphase
      | control raw =>
        obtain ⟨hphase, hd⟩ := Option.ite_none_right_eq_some.mp hd
        obtain ⟨subscriptions, hhandled⟩ := exists_handled he c.iterationSubscriptions
        rw [hhandled] at hd
        exact Option.some.inj hd ▸ .control hphase hhandled
      | sendQueued =>
        obtain ⟨⟨hphase, hnone⟩, hd⟩ := Option.ite_none_right_eq_some.mp hd
        cases hqueue : c.queue with
        | nil =>
          rw [hqueue] at hd
          cases hd
        | cons frame queue =>
          rw [hqueue] at hd
          exact Option.some.inj hd ▸ .sendQueued hphase hnone hqueue
      | sendSnapshot =>
        obtain ⟨hphase, hd⟩ := Option.ite_none_right_eq_some.mp hd
        cases hframes : c.snapshotFrames with
        | nil =>
          rw [hframes] at hd
          cases hd
        | cons frame frames =>
          have hframe := ho c rfl frame (hframes ▸ List.mem_cons_self)
          obtain ⟨allowed, hallowed⟩ := exists_allowed hframe c.iterationSubscriptions
          rw [hframes] at hd
          dsimp only at hd
          rw [hallowed] at hd
          cases allowed with
          | true => exact Option.some.inj hd ▸ .showFrame hphase hframes hallowed
          | false => exact Option.some.inj hd ▸ .withholdFrame hphase hframes hallowed

/-! ### What every turn keeps -/

/-- One more event: it asks for the iteration, or does not take back that it was asked for. -/
theorem subscribed_concat {es : List Event} {e : Event} {id : String} :
    Subscribed loads (es ++ [e]) id ↔
      (∃ raw, e = .own (.control raw) ∧ controlOf loads raw = some (.subscribe id)) ∨
        (Subscribed loads es id ∧
          ∀ raw, e = .own (.control raw) → controlOf loads raw ≠ some (.unsubscribe id)) := by
  constructor
  · rintro ⟨before, raw, after, heq, hraw, hafter⟩
    rcases List.eq_nil_or_concat after with rfl | ⟨after, last, rfl⟩
    · obtain ⟨-, hlast⟩ := List.append_inj' heq rfl
      exact .inl ⟨raw, List.singleton_inj.mp hlast, hraw⟩
    · rw [List.concat_eq_append] at heq hafter
      have hsplit : es ++ [e] = (before ++ .own (.control raw) :: after) ++ [last] := by
        rw [heq, List.append_assoc, List.cons_append]
      obtain ⟨rfl, hlast⟩ := List.append_inj' hsplit rfl
      obtain rfl := List.singleton_inj.mp hlast
      refine .inr ⟨⟨before, raw, after, rfl, hraw, fun later hlater => ?_⟩, fun later he => ?_⟩
      · exact hafter later (List.mem_append_left _ hlater)
      · exact hafter later (List.mem_append_right _ (List.mem_singleton.mpr he.symm))
  · rintro (⟨raw, rfl, hraw⟩ | ⟨⟨before, raw, after, rfl, hraw, hafter⟩, hlast⟩)
    · exact ⟨es, raw, [], rfl, hraw, fun later hlater => by cases hlater⟩
    · refine ⟨before, raw, after ++ [e], by simp, hraw, fun later hlater => ?_⟩
      rcases List.mem_append.mp hlater with hmem | hmem
      · exact hafter later hmem
      · exact hlast later (List.mem_singleton.mp hmem).symm

theorem subscribed_other {es : List Event} {e : Event} (h : ∀ raw, e ≠ .own (.control raw))
    {id : String} : Subscribed loads (es ++ [e]) id ↔ Subscribed loads es id := by
  rw [subscribed_concat]
  constructor
  · rintro (⟨raw, heq, -⟩ | ⟨hsub, -⟩)
    · exact absurd heq (h raw)
    · exact hsub
  · exact fun hsub => .inr ⟨hsub, fun raw heq => absurd heq (h raw)⟩

/-- SPEC: a control message adds what it subscribes to and takes out what it unsubscribes from. -/
theorem handleControlMessage_spec {before after : Finset String} {raw : String}
    (h : handleControlMessage loads before raw = some after) (id : String) :
    id ∈ after ↔ controlOf loads raw = some (.subscribe id) ∨
      (id ∈ before ∧ controlOf loads raw ≠ some (.unsubscribe id)) := by
  unfold handleControlMessage at h
  unfold controlOf
  cases hload : loads raw with
  | raises error =>
    rw [hload] at h
    cases h
  | decodeError =>
    rw [hload] at h
    obtain rfl := Option.some.inj h
    simp
  | value json =>
    rw [hload] at h
    dsimp only at h ⊢
    split at h
    case h_1 target hcontrol =>
      obtain rfl := Option.some.inj h
      rw [hcontrol, Finset.mem_insert]
      simp [eq_comm]
    case h_2 target hcontrol =>
      obtain rfl := Option.some.inj h
      rw [hcontrol, Finset.mem_erase, and_comm]
      simp [eq_comm]
    case h_3 hcontrol =>
      obtain rfl := Option.some.inj h
      simp [hcontrol]

/-- INVARIANT: where a client stands after its events; one that has not come yet is a fresh one. -/
structure Stands (loads : String → Loaded) (es : List Event) (o : Option ClientState) : Prop where
  connected : o.isSome = true ↔ .own .connect ∈ es
  gone : (o.getD .fresh).phase = .gone ↔ .own .hangUp ∈ es
  early : (o.getD .fresh).phase = .registered →
    (o.getD .fresh).snapshotFrames = [] ∧ (o.getD .fresh).shown = [] ∧ (o.getD .fresh).sent = []
  late : (o.getD .fresh).sent ≠ [] → (o.getD .fresh).snapshotFrames = []
  subscriptions : ∀ id, id ∈ (o.getD .fresh).iterationSubscriptions ↔ Subscribed loads es id
  readable : ∀ frame ∈ (o.getD .fresh).snapshotFrames, Readable loads frame

theorem Stands.start : Stands loads [] none where
  connected := by simp
  gone := by simp [ClientState.fresh]
  early := fun _ => ⟨rfl, rfl, rfl⟩
  late := fun h => absurd rfl h
  subscriptions := fun id => by
    refine iff_of_false (Finset.notMem_empty id) ?_
    rintro ⟨before, raw, after, heq, -⟩
    exact List.append_ne_nil_of_right_ne_nil before (List.cons_ne_nil _ _) heq.symm
  readable := fun frame h => by cases h

/-- STEP: every move keeps it. -/
theorem Stands.moved {es : List Event} {o p : Option ClientState} {e : Event}
    (h : Stands loads es o) (hm : Moved loads o e p) (he : e.Readable loads) :
    Stands loads (es ++ [e]) p := by
  obtain ⟨hconnected, hgone, hearly, hlate, hsubscriptions, hreadable⟩ := h
  have hkept (hcontrol : ∀ raw, e ≠ .own (.control raw)) (id : String) :
      id ∈ (o.getD .fresh).iterationSubscriptions ↔ Subscribed loads (es ++ [e]) id :=
    (hsubscriptions id).trans (subscribed_other hcontrol).symm
  cases hm with
  | connect =>
    exact ⟨by simp, by simpa using hgone, hearly, hlate, hkept fun raw => by simp, hreadable⟩
  | snapshotTaken hphase =>
    exact ⟨by simpa using hconnected, by simpa [hphase] using hgone, by simp,
      fun hsent => absurd (hearly hphase).2.2 hsent, hkept fun raw => by simp, he⟩
  | showFrame hphase hframes hallowed | withholdFrame hphase hframes hallowed =>
    refine ⟨by simpa using hconnected, by simpa using hgone, by simp [hphase], fun hsent => ?_,
      hkept fun raw => by simp, fun frame hframe => hreadable frame ?_⟩
    · cases hframes.symm.trans (hlate hsent)
    · exact hframes.symm ▸ List.mem_cons_of_mem _ hframe
  | sendQueued hphase hnone hqueue =>
    exact ⟨by simpa using hconnected, by simpa using hgone, by simp [hphase], fun _ => hnone,
      hkept fun raw => by simp, hreadable⟩
  | control hphase hhandled =>
    refine ⟨by simpa using hconnected, by simpa using hgone, by simp [hphase], hlate, fun id => ?_,
      hreadable⟩
    rw [subscribed_concat, ← hsubscriptions id]
    simpa using handleControlMessage_spec hhandled id
  | hangUp hphase =>
    exact ⟨by simpa using hconnected, by simp, by simp, hlate, hkept fun raw => by simp, hreadable⟩
  | nobody | leaveOut | enqueue =>
    exact ⟨by simpa using hconnected, by simpa using hgone, hearly, hlate,
      hkept fun raw => by simp, hreadable⟩

/-- A client is there when it is neither yet to come nor gone. -/
theorem Stands.present_iff {es : List Event} {c : ClientState}
    (h : Stands loads es (some c)) : Present es ↔ c.phase ≠ .gone := by
  rw [Present, ← h.connected, ← h.gone]
  simp

/-- STEP: a queue takes what its client is due. -/
theorem due_moved {es : List Event} {o p : Option ClientState} {e : Event}
    (h : Stands loads es o) (hm : Moved loads o e p)
    (hdue : Due loads es ((o.getD .fresh).sent ++ (o.getD .fresh).queue)) :
    Due loads (es ++ [e]) ((p.getD .fresh).sent ++ (p.getD .fresh).queue) := by
  cases hm with
  | nobody =>
    refine .unwanted hdue fun hwanted => ?_
    have hconnected := h.connected.mpr hwanted.1.1
    cases hconnected
  | @enqueue c keys payload hkeys hgone hpasses =>
    change Due loads _ (c.sent ++ (c.queue ++ [payload]))
    rw [← List.append_assoc]
    exact .wanted hdue (h.present_iff.mpr hgone) ((passes_iff hkeys h.subscriptions).mp hpasses)
  | leaveOut hkeys hnot =>
    refine .unwanted hdue fun hwanted => hnot ⟨h.present_iff.mp hwanted.1, ?_⟩
    exact (passes_iff hkeys h.subscriptions).mpr hwanted.2
  | @sendQueued c frame queue hphase hnone hqueue =>
    change Due loads _ (c.sent ++ [frame] ++ queue)
    rw [List.append_assoc, List.singleton_append, ← hqueue]
    exact .own hdue
  | _ => exact .own hdue

/-- STEP: the snapshot is shown as far as it is wanted. -/
theorem shown_moved {es : List Event} {o p : Option ClientState} {e : Event}
    (h : Stands loads es o) (hm : Moved loads o e p)
    (hshown : Shown loads es (o.getD .fresh).snapshotFrames (o.getD .fresh).shown) :
    Shown loads (es ++ [e]) (p.getD .fresh).snapshotFrames (p.getD .fresh).shown := by
  cases hm with
  | @snapshotTaken c frames hphase =>
    obtain ⟨hframes, hnone, -⟩ := h.early hphase
    rw [hframes, hnone] at hshown
    change Shown loads _ frames c.shown
    rw [show c.shown = [] from hnone]
    exact .taken hshown
  | @showFrame c frame frames hphase hframes hallowed =>
    change Shown loads es c.snapshotFrames _ at hshown
    rw [hframes] at hshown
    exact .wanted hshown ((frameAllowed_iff hallowed h.subscriptions).mp rfl)
  | @withholdFrame c frame frames hphase hframes hallowed =>
    change Shown loads es c.snapshotFrames _ at hshown
    rw [hframes] at hshown
    refine .unwanted hshown fun hwanted => ?_
    cases (frameAllowed_iff hallowed h.subscriptions).mpr hwanted
  | _ => exact .other hshown (by simp) (by simp)

/-- INVARIANT: after its events a client stands where they say, due and shown what they say. -/
structure Seen (loads : String → Loaded) (es : List Event) (v : Option ClientState × Bool) :
    Prop where
  listening : v.2 = true
  stands : Stands loads es v.1
  due : Due loads es ((v.1.getD .fresh).sent ++ (v.1.getD .fresh).queue)
  shown : Shown loads es (v.1.getD .fresh).snapshotFrames (v.1.getD .fresh).shown

theorem Seen.step {es : List Event} {v w : Option ClientState × Bool} {e : Event}
    (h : Seen loads es v) (hstep : seenStep loads v e = some w) (he : e.Readable loads) :
    Seen loads (es ++ [e]) w := by
  obtain ⟨hlistening, hstands, hdue, hshown⟩ := h
  obtain ⟨o, listening⟩ := v
  change listening = true at hlistening
  subst hlistening
  have hreadable : ∀ c ∈ o, ∀ frame ∈ c.snapshotFrames, Readable loads frame := by
    rintro c hc
    obtain rfl : o = some c := hc
    exact hstands.readable
  obtain ⟨hstill, hm⟩ := moved_of_seenStep hstep he hreadable
  exact ⟨hstill, hstands.moved hm he, due_moved hstands hm hdue, shown_moved hstands hm hshown⟩

/-- RUN: so it does after all of them, if every text was readable. -/
theorem seen_of_readable {es : List Event} {w : Option ClientState × Bool}
    (hrun : runFrom (seenStep loads) (none, true) es = some w)
    (hes : ∀ e ∈ es, e.Readable loads) : Seen loads es w := by
  have hstart : (∀ e ∈ ([] : List Event), e.Readable loads) → Seen loads [] (none, true) :=
    fun _ => ⟨rfl, .start, .start, .start⟩
  have hstep (es : List Event) (v : Option ClientState × Bool) (e : Event)
      (w : Option ClientState × Bool) (h : (∀ f ∈ es, f.Readable loads) → Seen loads es v)
      (hw : seenStep loads v e = some w) (hes : ∀ f ∈ es ++ [e], f.Readable loads) :
      Seen loads (es ++ [e]) w :=
    (h fun f hf => hes f (List.mem_append_left _ hf)).step hw
      (hes e (List.mem_append_right _ (List.mem_singleton_self e)))
  exact history_run hstep hstart hrun hes

/-! ### A client in a room -/

/-- Every text of the action is readable. -/
def Action.Readable (loads : String → Loaded) : Action ι → Prop
  | .client _ turn => (Event.own turn).Readable loads
  | .publish payload => IterationFilter.Readable loads payload

theorem readable_own {as : List (Action ι)} (h : ∀ a ∈ as, a.Readable loads) (i : ι) :
    ∀ e ∈ as.filterMap (own i), e.Readable loads := by
  intro e he
  obtain ⟨a, ha, hown⟩ := List.mem_filterMap.mp he
  have hread := h a ha
  cases a with
  | publish payload => exact Option.some.inj hown ▸ hread
  | client j turn =>
    rw [own] at hown
    split at hown
    · exact Option.some.inj hown ▸ hread
    · cases hown

/-- The sends of a queue go through, whatever the other clients do. -/
theorem sendQueued_run {i : ι} {c : ClientState} (queue : List String) {s : Room ι}
    (hphase : c.phase = .looping) (hnone : c.snapshotFrames = []) (hs : s.clients i = some c)
    (hqueue : c.queue = queue) : ∃ t,
      runFrom (step loads) s (List.replicate queue.length (.client i .sendQueued)) = some t ∧
        t.clients i = some { c with queue := [], sent := c.sent ++ queue } := by
  induction queue generalizing s c with
  | nil => exact ⟨s, rfl, by rw [hs, List.append_nil, ← hqueue]⟩
  | cons frame queue ih =>
    have hstep : step loads s (.client i .sendQueued) = some { s with
        clients := Function.update s.clients i
          (some { c with queue := queue, sent := c.sent ++ [frame] }) } := by
      simp [step, hs, clientStep, loopStep, hphase, hnone, hqueue]
    obtain ⟨t, hrun, ht⟩ := ih (c := { c with queue := queue, sent := c.sent ++ [frame] })
      (s := { s with clients := Function.update s.clients i _ }) hphase hnone
      (Function.update_self ..) rfl
    refine ⟨t, ?_, by rw [ht, List.append_assoc, List.singleton_append]⟩
    rw [List.length_cons, List.replicate_succ, runFrom_cons, hstep, Option.bind_some]
    exact hrun

/-- So do the sends of its snapshot. -/
theorem sendSnapshot_run {i : ι} {c : ClientState} (frames : List String) {s : Room ι}
    (hphase : c.phase = .looping) (hs : s.clients i = some c) (hframes : c.snapshotFrames = frames)
    (hread : ∀ frame ∈ frames, Readable loads frame) : ∃ t shown,
      runFrom (step loads) s (List.replicate frames.length (.client i .sendSnapshot)) = some t ∧
        t.clients i = some { c with snapshotFrames := [], shown := shown } := by
  induction frames generalizing s c with
  | nil => exact ⟨s, c.shown, rfl, by rw [hs, ← hframes]⟩
  | cons frame frames ih =>
    obtain ⟨allowed, hallowed⟩ :=
      exists_allowed (hread frame List.mem_cons_self) c.iterationSubscriptions
    let d : ClientState := { c with
      snapshotFrames := frames, shown := if allowed then c.shown ++ [frame] else c.shown }
    have hstep : step loads s (.client i .sendSnapshot) =
        some { s with clients := Function.update s.clients i (some d) } := by
      cases allowed <;> simp [step, hs, clientStep, loopStep, hphase, hframes, hallowed, d]
    obtain ⟨t, shown, hrun, ht⟩ := ih (c := d)
      (s := { s with clients := Function.update s.clients i (some d) }) hphase
      (Function.update_self ..) rfl fun other hother => hread other (List.mem_cons_of_mem _ hother)
    refine ⟨t, shown, ?_, ht⟩
    rw [List.length_cons, List.replicate_succ, runFrom_cons, hstep, Option.bind_some]
    exact hrun

/-- A frame published to a client that wants it is among those it is due. -/
theorem mem_of_due {es : List Event} {frame : String} {frames : List String}
    (h : Due loads (es ++ [.published frame]) frames) (hpresent : Present es)
    (hwanted : Wanted loads (Subscribed loads es) frame) : frame ∈ frames := by
  generalize hseen : es ++ [.published frame] = seen at h
  cases h with
  | start => exact absurd hseen (by simp)
  | @wanted before frames other due present wanted =>
    obtain ⟨-, hlast⟩ := List.append_inj' hseen rfl
    obtain rfl : frame = other := Event.published.inj (List.singleton_inj.mp hlast)
    exact List.mem_append_right _ (List.mem_singleton_self _)
  | @unwanted before frames other due unwanted =>
    obtain ⟨rfl, hlast⟩ := List.append_inj' hseen rfl
    obtain rfl : frame = other := Event.published.inj (List.singleton_inj.mp hlast)
    exact absurd ⟨hpresent, hwanted⟩ unwanted
  | own due =>
    obtain ⟨-, hlast⟩ := List.append_inj' hseen rfl
    cases List.singleton_inj.mp hlast

/-- The frames of a turn's deltas are no lifecycle events: for them this is the rule the reconnecting
    client is sent by. -/
theorem frameAllowed_frame {frame : Frame} {text : String} {eventType : Option String}
    (hkeys : extractRoutingKeys loads text = some (frame.iterationId, eventType))
    (htype : eventType.any iterationLifecycleTypes.contains = false) (subscriptions : List String) :
    frameAllowed loads text subscriptions.toFinset =
      some (Stream.frameAllowed frame subscriptions) := by
  rw [frameAllowed, hkeys, Option.map_some, passes, Stream.frameAllowed]
  cases frame.iterationId with
  | none => rfl
  | some iterationId =>
    change some (_ || decide (iterationId ∈ subscriptions.toFinset)) = some (subscriptions.contains _)
    rw [htype, Bool.false_or]
    simp

/-! ### Every client is sent what it wants -/

/-- A frame of a run outside any iteration. -/
def nodeStarted : String := "\x7b\"event_type\": \"node_started\", \"payload\": \x7b\x7d\x7d"

/-- A control message of opening brackets. -/
def nested (depth : ℕ) : String := String.ofList (List.replicate depth '[')

/-- A client whose control message raises is dropped, though it never hung up: what is published next
    it is not sent. -/
theorem dropped_of_raises {raw error : String} (hraw : loads raw = .raises error)
    (hframe : loads nodeStarted =
      .value (.obj [("event_type", .str "node_started"), ("payload", .obj [])])) :
    ∃ (as : List (Action ℕ)) (s : Room ℕ) (c : ClientState),
      runFrom (step loads) .start as = some s ∧ s.clients 0 = some c ∧
        ¬ Due loads (as.filterMap (own 0)) (c.sent ++ c.queue) := by
  have hkeys : extractRoutingKeys loads nodeStarted = some (none, some "node_started") := by
    rw [extractRoutingKeys, hframe]
    rfl
  have hhandled : handleControlMessage loads ∅ raw = none := by
    rw [handleControlMessage, hraw]
  let as : List (Action ℕ) := [.client 0 .connect, .client 0 (.snapshotTaken []),
    .client 0 (.control raw), .publish nodeStarted]
  have hrun : ∃ s, runFrom (step loads) .start as = some s ∧
      s.clients 0 = some { ClientState.fresh with phase := .gone } := by
    simp [as, step, Room.start, clientStep, loopStep, ClientState.fresh, hhandled, fanout, hkeys,
      ClientState.enqueue]
  obtain ⟨s, hrun, hs⟩ := hrun
  refine ⟨as, s, _, hrun, hs, fun hdue => ?_⟩
  let es : List Event := [.own .connect, .own (.snapshotTaken []), .own (.control raw)]
  have hpresent : Present es := by simp [Present, es]
  have hmem : nodeStarted ∈ ([] : List String) := mem_of_due hdue hpresent (.inl ?_)
  · cases hmem
  · rintro id ⟨obj, inner, hvalue, hpayload, hid⟩
    rw [hframe, Loaded.value.injEq, Json.obj.injEq] at hvalue
    subst hvalue
    cases hpayload
    cases hid

def loadsBut (text : String) : Loaded :=
  if text = nodeStarted then
    .value (.obj [("event_type", .str "node_started"), ("payload", .obj [])])
  else .raises "RecursionError"

theorem loadsBut_nested {depth : ℕ} (h : nodeStarted.length < depth) :
    loadsBut (nested depth) = .raises "RecursionError" := by
  refine if_neg fun heq => ?_
  have hlength := congrArg String.length heq
  rw [nested, String.length_ofList, List.length_replicate] at hlength
  exact absurd hlength (Nat.ne_of_gt h)

/-- A hundred thousand brackets nest deeper than `json.loads` goes. -/
theorem nested_drops : ¬ ∀ (loads : String → Loaded) (as : List (Action ℕ)) (s : Room ℕ)
    (i : ℕ) (c : ClientState), loads (nested 100000) = .raises "RecursionError" →
      runFrom (step loads) .start as = some s → s.clients i = some c →
        Due loads (as.filterMap (own i)) (c.sent ++ c.queue) := by
  intro h
  have hraw : loadsBut (nested 100000) = _ := loadsBut_nested (by decide)
  obtain ⟨as, s, c, hrun, hc, hnot⟩ := dropped_of_raises hraw (if_pos rfl)
  exact hnot (h loadsBut as s 0 c hraw hrun hc)

/-- EXACT CONDITION: where no text makes `json.loads` raise anything but a ValueError, each client is
    sent what it wants of the frames published while it was there, and has the rest of it in its
    queue; of its snapshot it is sent what it wants, and first. Its sends go through, and who else is
    there and how fast they are makes no difference. -/
theorem filtered_of_readable {as : List (Action ι)} {s : Room ι}
    (hrun : runFrom (step loads) .start as = some s) (hread : ∀ a ∈ as, a.Readable loads) (i : ι) :
    (∀ c, s.clients i = some c →
      Due loads (as.filterMap (own i)) (c.sent ++ c.queue) ∧
        Shown loads (as.filterMap (own i)) c.snapshotFrames c.shown ∧
          (c.sent ≠ [] → c.snapshotFrames = [])) ∧
    (∀ c, s.clients i = some c → c.phase = .looping → ∃ n m t d,
      runFrom (step loads) s (List.replicate n (.client i .sendSnapshot) ++
        List.replicate m (.client i .sendQueued)) = some t ∧
          t.clients i = some d ∧ d.sent = c.sent ++ c.queue ∧ d.queue = []) ∧
    ∀ bs t, runFrom (step loads) .start bs = some t →
      bs.filterMap (own i) = as.filterMap (own i) → t.clients i = s.clients i := by
  have hseen := seen_run loads i hrun
  obtain ⟨-, hstands, hdue, hshown⟩ := seen_of_readable hseen (readable_own hread i)
  refine ⟨fun c hc => ?_, fun c hc hphase => ?_, fun bs t hbs hsame => ?_⟩
  · rw [hc] at hstands hdue hshown
    exact ⟨hdue, hshown, hstands.late⟩
  · rw [hc] at hstands
    obtain ⟨u, shown, hshow, hu⟩ := sendSnapshot_run _ hphase hc rfl hstands.readable
    obtain ⟨t, hsend, ht⟩ := sendQueued_run (c := { c with snapshotFrames := [], shown := shown })
      c.queue hphase rfl hu rfl
    refine ⟨c.snapshotFrames.length, c.queue.length, t, _, ?_, ht, rfl, rfl⟩
    rw [runFrom_append, hshow, Option.bind_some]
    exact hsend
  · have hother := seen_run loads i hbs
    rw [hsame] at hother
    exact congrArg Prod.fst (Option.some.inj (hother.symm.trans hseen))

/-- A frame of an iteration, as the pump reads it off the channel. -/
def iterationFrame (eventType id : String) : String :=
  "\x7b\"event_type\": \"" ++ eventType ++ "\", \"payload\": \x7b\"iteration_id\": \"" ++ id ++
    "\"\x7d\x7d"

def controlMessage (type id : String) : String :=
  "\x7b\"type\": \"" ++ type ++ "\", \"scope\": \"iteration\", \"id\": \"" ++ id ++ "\"\x7d"

def iterationJson (eventType id : String) : Json :=
  .obj [("event_type", .str eventType), ("payload", .obj [("iteration_id", .str id)])]

def controlJson (type id : String) : Json :=
  .obj [("type", .str type), ("scope", .str "iteration"), ("id", .str id)]

/-- `json.loads`, of the texts of the run below. -/
def loadsTexts (text : String) : Loaded :=
  if text = nodeStarted then
    .value (.obj [("event_type", .str "node_started"), ("payload", .obj [])])
  else if text = iterationFrame "tool_call" "a" then .value (iterationJson "tool_call" "a")
  else if text = iterationFrame "tool_call" "b" then .value (iterationJson "tool_call" "b")
  else if text = iterationFrame "iteration_started" "b" then
    .value (iterationJson "iteration_started" "b")
  else if text = controlMessage "subscribe" "a" then .value (controlJson "subscribe" "a")
  else if text = controlMessage "unsubscribe" "a" then .value (controlJson "unsubscribe" "a")
  else .decodeError

/-- Two clients; the first sees iteration a from its snapshot on, until it no longer wants to. -/
def watched : List (Action ℕ) :=
  [.client 0 .connect, .client 0 (.snapshotTaken [iterationFrame "tool_call" "a"]),
    .client 0 (.control (controlMessage "subscribe" "a")), .client 0 .sendSnapshot,
    .client 1 .connect, .publish nodeStarted, .client 1 (.snapshotTaken []),
    .publish (iterationFrame "tool_call" "a"), .client 0 .sendQueued,
    .client 1 (.control "hello"), .publish (iterationFrame "tool_call" "b"),
    .publish (iterationFrame "iteration_started" "b"),
    .client 0 (.control (controlMessage "unsubscribe" "a")),
    .publish (iterationFrame "tool_call" "a"), .client 1 .sendQueued]

theorem loadsTexts_readable (text : String) : Readable loadsTexts text := by
  intro error h
  simp only [loadsTexts] at h
  repeat' split at h
  all_goals cases h

theorem tick_sent : ∃ s c d, runFrom (step loadsTexts) .start watched = some s ∧
    s.clients 0 = some c ∧ s.clients 1 = some d ∧
    c.shown = [iterationFrame "tool_call" "a"] ∧
    c.sent ++ c.queue = [nodeStarted, iterationFrame "tool_call" "a",
      iterationFrame "iteration_started" "b"] ∧
    d.sent ++ d.queue = [nodeStarted, iterationFrame "iteration_started" "b"] ∧
    Due loadsTexts (watched.filterMap (own 0)) (c.sent ++ c.queue) ∧
    Shown loadsTexts (watched.filterMap (own 0)) c.snapshotFrames c.shown ∧
    Due loadsTexts (watched.filterMap (own 1)) (d.sent ++ d.queue) := by
  have hread : ∀ a ∈ watched, a.Readable loadsTexts := by
    intro a _
    cases a with
    | publish payload => exact loadsTexts_readable payload
    | client i turn =>
      cases turn with
      | snapshotTaken frames => exact fun frame _ => loadsTexts_readable frame
      | control raw => exact loadsTexts_readable raw
      | _ => trivial
  refine ⟨_, _, _, rfl, rfl, rfl, rfl, rfl, rfl, ?_, ?_, ?_⟩
  · exact ((filtered_of_readable rfl hread 0).1 _ rfl).1
  · exact ((filtered_of_readable rfl hread 0).1 _ rfl).2.1
  · exact ((filtered_of_readable rfl hread 1).1 _ rfl).1

end LunaCore.Stream.IterationFilter
