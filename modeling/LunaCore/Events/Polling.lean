import LunaCore.Events.Feed

/-! Does a client that polls with the highest number it has seen get everything?

    The deltas of a stored message bear the number after its started event, however late its row
    lands, and chunks of turns in flight move the cursor too. So an event, or a message's complete
    text, can land behind the cursor, where no later poll looks. -/

namespace LunaCore.Events
open LunaCore.Schemes LunaCore.Chat
open LunaCore.Stream (DeltaFrame)

/-! ### The law and the condition under which it holds -/

/-- Nothing lies behind the cursor unreceived, and every completed message has its deltas. -/
structure Unskipped (s : Feed) : Prop where
  due : ∀ f ∈ s.visible, f ∈ s.received ∨ Above s.since f.sequence
  announced : ∀ m ∈ s.messages, m.completed = true → (startedByMsg s.events m.id).isSome

/-- What was there when the poll under way began. -/
def Poll.due : Poll → List Frame
  | .idle => []
  | .selected due _ => due
  | .synthesizing due _ _ _ _ => due

/-- What each step must leave: nothing is skipped, and with each response the client has all that was
    there when it asked. -/
structure Delivers (s : Feed) (a : FeedAction) (t : Feed) : Prop where
  unskipped : Unskipped t
  answered : a = .respond → ∀ f ∈ s.poll.due, f ∈ t.received

/-- What the poll under way has read. -/
def Poll.read : Poll → List Frame
  | .idle => []
  | .selected _ persisted => persisted.map .event
  | .synthesizing _ persisted deltas _ chunks =>
    persisted.map .event ++ (deltas.map .complete ++ chunks.map .chunk)

/-- The steps that keep the law. An event is committed, and a message completed, above the cursor;
    the message's started event is there; and what landed behind the back of a poll is numbered
    above all the poll read. -/
def AheadOfCursor (s : Feed) : FeedAction → Prop
  | .timeline a => ∀ e ∈ s.inserted a, Above s.since e.sequence
  | .saveMessage j content thinking => ∀ turn ∈ s.turns[j]?,
      (rowOf turn content thinking false).completed = true →
        ∃ started ∈ startedByMsg s.events turn.messageId, Above s.since (started.sequence + 1)
  | .respond => ∀ f ∈ s.visible, f ∉ s.received → f ∉ s.poll.read →
      ∀ g ∈ s.poll.read, g.sequence < f.sequence
  | _ => True

/-! ### The client -/

/-- The frame is of a row that is there. -/
def Known (s : Feed) : Frame → Prop
  | .event e => e ∈ s.events
  | .complete d => ∃ m ∈ s.messages, m.id = d.messageId
  | .chunk _ => True

/-- What a poll has read, or will with its next read, of what was there when it began. -/
def Promised (s : Feed) : Poll → Prop
  | .idle => True
  | .selected due persisted => ∀ f ∈ due, f ∈ s.visible ∧
      f ∈ persisted.map Frame.event ++ (messageDeltas persisted s.messages).map Frame.complete
  | .synthesizing due persisted deltas todo chunks => ∀ f ∈ due, f ∈ s.visible ∧
      f ∈ (Poll.synthesizing due persisted deltas todo chunks).read

/-- The invariant. -/
structure Followed (s : Feed) : Prop where
  rows : Rows s
  received : ∀ f ∈ s.received, Known s f
  read : ∀ f ∈ s.poll.read, Known s f
  promised : Promised s s.poll
  unskipped : Unskipped s

theorem followed_fresh : Followed .fresh where
  rows := rows_fresh
  received := by simp [Feed.fresh]
  read := by simp [Feed.fresh, Poll.read]
  promised := trivial
  unskipped := ⟨by simp [Feed.visible, Feed.fresh, messageDeltas], by simp [Feed.fresh]⟩

section
variable {s t : Feed}

theorem Known.mono {f : Frame} (h : Known s f) (he : s.events ⊆ t.events)
    (hm : s.messages ⊆ t.messages) : Known t f := by
  cases f with
  | event e => exact he h
  | complete d =>
    obtain ⟨m, hmem, hid⟩ := h
    exact ⟨m, hm hmem, hid⟩
  | chunk f => trivial

theorem visible_mono (hs : Rows s) (ht : Rows t) (he : s.events ⊆ t.events)
    (hm : s.messages ⊆ t.messages) {f : Frame} (h : f ∈ s.visible) : f ∈ t.visible := by
  rw [mem_visible hs.unique] at h
  rw [mem_visible ht.unique]
  rcases h with ⟨e, hmem, rfl⟩ | ⟨m, hmem, hcompleted, started, hst, hid, d, hd, rfl⟩
  · exact .inl ⟨e, he hmem, rfl⟩
  · exact .inr ⟨m, hm hmem, hcompleted, started, he hst, hid, d, hd, rfl⟩

theorem messageDeltas_mono {persisted : List RunEvent} {messages messages' : List AgentMessage}
    (hm : messages ⊆ messages') {d : CompleteDelta} (h : d ∈ messageDeltas persisted messages) :
    d ∈ messageDeltas persisted messages' := by
  obtain ⟨m, hmem, hrest⟩ := mem_messageDeltas.mp h
  exact mem_messageDeltas.mpr ⟨m, hm hmem, hrest⟩

theorem Promised.mono (hs : Rows s) (ht : Rows t) (he : s.events ⊆ t.events)
    (hm : s.messages ⊆ t.messages) {poll : Poll} (h : Promised s poll) : Promised t poll := by
  cases poll with
  | idle => trivial
  | selected due persisted =>
    intro f hf
    obtain ⟨hvisible, hread⟩ := h f hf
    refine ⟨visible_mono hs ht he hm hvisible, ?_⟩
    rcases List.mem_append.mp hread with hread | hread
    · exact List.mem_append_left _ hread
    · obtain ⟨d, hd, rfl⟩ := List.mem_map.mp hread
      exact List.mem_append_right _ (List.mem_map_of_mem (messageDeltas_mono hm hd))
  | synthesizing due persisted deltas todo chunks =>
    intro f hf
    exact ⟨visible_mono hs ht he hm (h f hf).1, (h f hf).2⟩

/-- A step of the run skips nothing just when what it adds lies above the cursor. -/
theorem unskipped_runStep {a : FeedAction} (hs : Followed s) (h : RunStep s a t) :
    Unskipped t ↔ (∀ e ∈ s.commits a, Above s.since e.sequence) ∧
      ∀ m ∈ s.stores a, m.completed = true →
        ∃ started ∈ startedByMsg s.events m.id, Above s.since (started.sequence + 1) := by
  have hevents : s.events ⊆ t.events := h.events ▸ List.subset_append_right _ _
  have hmessages : s.messages ⊆ t.messages := h.messages ▸ List.subset_append_right _ _
  constructor
  · intro hun
    refine ⟨fun e he => ?_, fun m hm hcompleted => ?_⟩
    · have hmem : Frame.event e ∈ t.visible :=
        (mem_visible h.rows.unique).mpr (.inl ⟨e, by simp [h.events, Option.mem_toList.mpr he], rfl⟩)
      rcases hun.due _ hmem with hreceived | habove
      · have hknown : Known s (.event e) := hs.received _ (h.received ▸ hreceived)
        exact absurd hknown (h.new e he)
      · exact h.since ▸ habove
    · have hmem : m ∈ t.messages := by simp [h.messages, Option.mem_toList.mpr hm]
      obtain ⟨started, hstarted⟩ := Option.isSome_iff_exists.mp (hun.announced m hmem hcompleted)
      have hsame : t.events = s.events := by
        rcases h.single with hnone | hnone
        · rw [h.events, hnone]
          rfl
        · simp [hnone] at hm
      refine ⟨started, hsame ▸ hstarted, ?_⟩
      obtain ⟨hst, hid⟩ := (startedByMsg_iff h.rows.unique).mp hstarted
      obtain ⟨d, hd⟩ := @completeDeltas_ne_nil started m hcompleted
      obtain ⟨hdid, hdseq⟩ := completeDeltas_id hd
      have hvisible : Frame.complete d ∈ t.visible :=
        (mem_visible h.rows.unique).mpr (.inr ⟨m, hmem, hcompleted, started, hst, hid, d, hd, rfl⟩)
      rcases hun.due _ hvisible with hreceived | habove
      · obtain ⟨row, hrow, hrowid⟩ := hs.received _ (h.received ▸ hreceived)
        exact absurd (hrowid.trans hdid) (h.fresh m hm row hrow)
      · exact hdseq ▸ h.since ▸ habove
  · rintro ⟨hcommits, hstores⟩
    have hdue : ∀ f ∈ s.visible, f ∈ t.received ∨ Above t.since f.sequence := by
      rw [h.received, h.since]
      exact hs.unskipped.due
    -- the started event of a message that was there stays the one it was
    have hannounced : ∀ m ∈ s.messages, m.completed = true → ∀ started ∈ t.events,
        started.announces = some m.id → started ∈ s.events := by
      intro m hm hcompleted started hst hid
      obtain ⟨before, hbefore⟩ :=
        Option.isSome_iff_exists.mp (hs.unskipped.announced m hm hcompleted)
      obtain ⟨hmem, hbid⟩ := (startedByMsg_iff hs.rows.unique).mp hbefore
      rw [h.rows.unique started hst before (hevents hmem) m.id hid hbid]
      exact hmem
    constructor
    · intro f hf
      rcases (mem_visible h.rows.unique).mp hf with
        ⟨e, he, rfl⟩ | ⟨m, hm, hcompleted, started, hst, hid, d, hd, rfl⟩
      · rw [h.events] at he
        rcases List.mem_append.mp he with he | he
        · exact .inr (h.since ▸ hcommits e (Option.mem_toList.mp he))
        · exact hdue _ ((mem_visible hs.rows.unique).mpr (.inl ⟨e, he, rfl⟩))
      · rw [h.messages] at hm
        rcases List.mem_append.mp hm with hm | hm
        · obtain ⟨before, hbefore, habove⟩ := hstores m (Option.mem_toList.mp hm) hcompleted
          obtain ⟨hmem, hbid⟩ := (startedByMsg_iff hs.rows.unique).mp hbefore
          rw [h.rows.unique started hst before (hevents hmem) m.id hid hbid] at hd
          refine .inr ?_
          rw [h.since, Frame.sequence, (completeDeltas_id hd).2]
          exact habove
        · exact hdue _ ((mem_visible hs.rows.unique).mpr (.inr ⟨m, hm, hcompleted, started,
            hannounced m hm hcompleted started hst hid, hid, d, hd, rfl⟩))
    · intro m hm hcompleted
      have hbefore : ∃ started, startedByMsg s.events m.id = some started := by
        rw [h.messages] at hm
        rcases List.mem_append.mp hm with hm | hm
        · obtain ⟨before, hbefore, -⟩ := hstores m (Option.mem_toList.mp hm) hcompleted
          exact ⟨before, hbefore⟩
        · exact Option.isSome_iff_exists.mp (hs.unskipped.announced m hm hcompleted)
      obtain ⟨started, hstarted⟩ := hbefore
      obtain ⟨hmem, hid⟩ := (startedByMsg_iff hs.rows.unique).mp hstarted
      rw [(startedByMsg_iff h.rows.unique).mpr ⟨hevents hmem, hid⟩]
      rfl

theorem followed_runStep {a : FeedAction} (hs : Followed s) (h : RunStep s a t)
    (ht : Unskipped t) : Followed t where
  rows := h.rows
  received := by
    intro f hf
    rw [h.received] at hf
    exact (hs.received f hf).mono (h.events ▸ List.subset_append_right _ _)
      (h.messages ▸ List.subset_append_right _ _)
  read := by
    intro f hf
    rw [h.poll] at hf
    exact (hs.read f hf).mono (h.events ▸ List.subset_append_right _ _)
      (h.messages ▸ List.subset_append_right _ _)
  promised := by
    rw [h.poll]
    exact hs.promised.mono hs.rows h.rows (h.events ▸ List.subset_append_right _ _)
      (h.messages ▸ List.subset_append_right _ _)
  unskipped := ht

/-- The condition, of a step of the run: what it adds lies above the cursor. -/
theorem ahead_runStep {a : FeedAction} (ha : a.isPoll = false) (h : feedStep s a = some t) :
    AheadOfCursor s a ↔ (∀ e ∈ s.commits a, Above s.since e.sequence) ∧
      ∀ m ∈ s.stores a, m.completed = true →
        ∃ started ∈ startedByMsg s.events m.id, Above s.since (started.sequence + 1) := by
  cases a with
  | selectEvents | selectMessages | readChunks | respond => cases ha
  | timeline a => simp [AheadOfCursor, Feed.commits, Feed.stores]
  | saveMessage j content thinking => simp [AheadOfCursor, Feed.commits, Feed.stores, rowOf]
  | savePartial j content thinking goesOn =>
    simp [AheadOfCursor, Feed.commits, Feed.stores, rowOf, AgentMessage.completed]
  | saveOther m =>
    have hrole : m.role ≠ .assistant := by
      intro hrole
      simp [feedStep, hrole] at h
    simp [AheadOfCursor, Feed.commits, Feed.stores, AgentMessage.completed, hrole]
  | emit draft => simp [AheadOfCursor, Feed.commits, Feed.stores]
  | beginTurn i provider returned => simp [AheadOfCursor, Feed.commits, Feed.stores]
  | turn j a => simp [AheadOfCursor, Feed.commits, Feed.stores]

/-- The rows and what is visible of them stay as they are while a poll moves. -/
theorem Unskipped.of_poll (h : Unskipped s) (poll : Poll) : Unskipped { s with poll := poll } :=
  ⟨h.due, h.announced⟩

theorem Followed.of_poll (hs : Followed s) {poll : Poll} (hread : ∀ f ∈ poll.read, Known s f)
    (hpromised : Promised s poll) : Followed { s with poll := poll } where
  rows := ⟨hs.rows.sequences, hs.rows.calls, hs.rows.unique, hs.rows.apart, hs.rows.pending⟩
  received := fun f hf => (hs.received f hf).mono (fun _ h => h) (fun _ h => h)
  read := fun f hf => (hread f hf).mono (fun _ h => h) (fun _ h => h)
  promised := by
    cases poll with
    | idle => trivial
    | selected due persisted => exact hpromised
    | synthesizing due persisted deltas todo chunks => exact hpromised
  unskipped := hs.unskipped.of_poll poll

/-- The events are read as they are. -/
theorem followed_selectEvents (hs : Followed s) :
    Followed { s with poll := .selected s.visible (selectEvents s.events) } := by
  have hunique : Unique (selectEvents s.events) := fun e he e' he' =>
    hs.rows.unique e (mem_selectEvents.mp he) e' (mem_selectEvents.mp he')
  refine hs.of_poll (fun f hf => ?_) fun f hf => ⟨hf, ?_⟩
  · obtain ⟨e, he, rfl⟩ := List.mem_map.mp hf
    exact mem_selectEvents.mp he
  · rcases (mem_visible hs.rows.unique).mp hf with
      ⟨e, he, rfl⟩ | ⟨m, hm, hcompleted, started, hst, hid, d, hd, rfl⟩
    · exact List.mem_append_left _ (List.mem_map_of_mem (mem_selectEvents.mpr he))
    · refine List.mem_append_right _ (List.mem_map_of_mem (mem_messageDeltas.mpr
        ⟨m, hm, completed_assistant hcompleted, started, ?_, hd⟩))
      exact (startedByMsg_iff hunique).mpr ⟨mem_selectEvents.mpr hst, hid⟩

/-- The rows are read, some of them maybe newer than the events. -/
theorem followed_selectMessages (hs : Followed s) {due : List Frame} {persisted : List RunEvent}
    (hpoll : s.poll = .selected due persisted) :
    Followed { s with
      poll := .synthesizing due persisted (messageDeltas persisted s.messages)
        (inflight persisted s.messages) [] } := by
  have hread := hs.read
  have hpromised := hs.promised
  rw [hpoll] at hread hpromised
  refine hs.of_poll (fun f hf => ?_) fun f hf => ⟨(hpromised f hf).1, ?_⟩
  · rcases List.mem_append.mp hf with hf | hf
    · exact hread f hf
    · obtain ⟨d, hd, rfl⟩ : ∃ d ∈ messageDeltas persisted s.messages, Frame.complete d = f := by
        simpa using hf
      obtain ⟨m, hm, -, started, -, hdelta⟩ := mem_messageDeltas.mp hd
      exact ⟨m, hm, (completeDeltas_id hdelta).1.symm⟩
  · simpa [Poll.read] using (hpromised f hf).2

theorem followed_readChunks (hs : Followed s) {due : List Frame} {persisted : List RunEvent}
    {deltas : List CompleteDelta} {todo todo' : List ℕ} {chunks more : List DeltaFrame}
    (hpoll : s.poll = .synthesizing due persisted deltas todo chunks) :
    Followed { s with poll := .synthesizing due persisted deltas todo' (chunks ++ more) } := by
  have hread := hs.read
  have hpromised := hs.promised
  rw [hpoll] at hread hpromised
  have hmore : ∀ f ∈ (Poll.synthesizing due persisted deltas todo' (chunks ++ more)).read,
      f ∈ (Poll.synthesizing due persisted deltas todo chunks).read ∨ ∃ c, f = .chunk c := by
    intro f hf
    simp only [Poll.read, List.mem_append, List.mem_map] at hf ⊢
    rcases hf with hf | hf | ⟨c, -, rfl⟩
    · exact .inl (.inl hf)
    · exact .inl (.inr (.inl hf))
    · exact .inr ⟨c, rfl⟩
  refine hs.of_poll (fun f hf => ?_) fun f hf => ⟨(hpromised f hf).1, ?_⟩
  · rcases hmore f hf with hf | ⟨c, rfl⟩
    · exact hread f hf
    · trivial
  · have hold := (hpromised f hf).2
    simp only [Poll.read, List.mem_append, List.mem_map] at hold ⊢
    rcases hold with hold | hold | ⟨c, hc, rfl⟩
    · exact .inl hold
    · exact .inr (.inl hold)
    · exact .inr (.inr ⟨c, .inl hc, rfl⟩)

section respond
variable {due : List Frame} {persisted : List RunEvent} {deltas : List CompleteDelta}
  {chunks : List DeltaFrame}

/-- The client, after the response. -/
def Feed.answered (s : Feed) (frames : List Frame) : Feed :=
  { s with poll := .idle, since := advance s.since frames, received := s.received ++ frames }

/-- A response skips nothing just when what it missed is numbered above all it read. -/
theorem unskipped_respond (hs : Followed s)
    (hpoll : s.poll = .synthesizing due persisted deltas [] chunks) :
    Unskipped (s.answered (listRunEvents persisted deltas chunks s.since none)) ↔
      AheadOfCursor s .respond := by
  have hframes : ∀ f, f ∈ listRunEvents persisted deltas chunks s.since none ↔
      f ∈ s.poll.read ∧ Above s.since f.sequence := by
    intro f
    rw [mem_listRunEvents, hpoll]
    rfl
  constructor
  · intro hun f hf hnew hmissed g hg
    have hdue : f ∈ s.received ++ listRunEvents persisted deltas chunks s.since none ∨ _ :=
      hun.due f hf
    rcases hdue with hreceived | habove
    · rcases List.mem_append.mp hreceived with hreceived | hreceived
      · exact absurd hreceived hnew
      · exact absurd ((hframes f).mp hreceived).1 hmissed
    · obtain ⟨hsince, hlt⟩ := above_advance.mp habove
      by_cases hgs : Above s.since g.sequence
      · exact hlt g ((hframes g).mpr ⟨hg, hgs⟩)
      · -- below the cursor, which is below the frame
        obtain ⟨c, hc, hle⟩ : ∃ c ∈ s.since, g.sequence ≤ c := by simpa [Above] using hgs
        exact lt_of_le_of_lt hle (hsince c hc)
  · intro hahead
    refine ⟨fun f hf => ?_, hs.unskipped.announced⟩
    have hdue := hs.unskipped.due f hf
    by_cases hreceived : f ∈ s.received
    · exact .inl (List.mem_append_left _ hreceived)
    · have habove := hdue.resolve_left hreceived
      by_cases hread : f ∈ s.poll.read
      · exact .inl (List.mem_append_right _ ((hframes f).mpr ⟨hread, habove⟩))
      · exact .inr (above_advance.mpr
          ⟨habove, fun g hg => hahead f hf hreceived hread g ((hframes g).mp hg).1⟩)

/-- The client has all that was there when it asked. -/
theorem answered_respond (hs : Followed s)
    (hpoll : s.poll = .synthesizing due persisted deltas [] chunks) {f : Frame} (hf : f ∈ due) :
    f ∈ s.received ++ listRunEvents persisted deltas chunks s.since none := by
  have hpromised := hs.promised
  rw [hpoll] at hpromised
  obtain ⟨hvisible, hread⟩ := hpromised f hf
  rcases hs.unskipped.due f hvisible with hreceived | habove
  · exact List.mem_append_left _ hreceived
  · exact List.mem_append_right _ (mem_listRunEvents.mpr ⟨hread, habove⟩)

theorem followed_respond (hs : Followed s)
    (hpoll : s.poll = .synthesizing due persisted deltas [] chunks)
    (ht : Unskipped (s.answered (listRunEvents persisted deltas chunks s.since none))) :
    Followed (s.answered (listRunEvents persisted deltas chunks s.since none)) where
  rows := ⟨hs.rows.sequences, hs.rows.calls, hs.rows.unique, hs.rows.apart, hs.rows.pending⟩
  received := by
    intro f hf
    have hknown : Known s f := by
      rcases List.mem_append.mp hf with hf | hf
      · exact hs.received f hf
      · refine hs.read f ?_
        rw [hpoll]
        exact (mem_listRunEvents.mp hf).1
    exact hknown.mono (fun _ h => h) (fun _ h => h)
  read := fun f hf => by cases hf
  promised := trivial
  unskipped := ht

end respond

/-- What the steps of a poll are. -/
theorem poll_cases {a : FeedAction} (ha : a.isPoll = true) (h : feedStep s a = some t) :
    (a = .selectEvents ∧ t = { s with poll := .selected s.visible (selectEvents s.events) }) ∨
    (a = .selectMessages ∧ ∃ due persisted, s.poll = .selected due persisted ∧
      t = { s with
        poll := .synthesizing due persisted (messageDeltas persisted s.messages)
          (inflight persisted s.messages) [] }) ∨
    (a = .readChunks ∧ ∃ due persisted deltas todo todo' chunks more,
      s.poll = .synthesizing due persisted deltas todo chunks ∧
      t = { s with poll := .synthesizing due persisted deltas todo' (chunks ++ more) }) ∨
    (a = .respond ∧ ∃ due persisted deltas chunks,
      s.poll = .synthesizing due persisted deltas [] chunks ∧
      t = s.answered (listRunEvents persisted deltas chunks s.since none)) := by
  cases a with
  | selectEvents =>
    simp only [feedStep] at h
    split at h
    case h_1 => exact .inl ⟨rfl, (Option.some.inj h).symm⟩
    case h_2 => cases h
  | selectMessages =>
    simp only [feedStep] at h
    split at h
    case h_1 due persisted hpoll =>
      exact .inr (.inl ⟨rfl, due, persisted, hpoll, (Option.some.inj h).symm⟩)
    case h_2 => cases h
  | readChunks =>
    simp only [feedStep] at h
    split at h
    case h_1 due persisted deltas id todo chunks hpoll =>
      exact .inr (.inr (.inl ⟨rfl, due, persisted, deltas, _, todo, chunks, _, hpoll,
        (Option.some.inj h).symm⟩))
    case h_2 => cases h
  | respond =>
    simp only [feedStep] at h
    split at h
    case h_1 due persisted deltas chunks hpoll =>
      exact .inr (.inr (.inr ⟨rfl, due, persisted, deltas, chunks, hpoll,
        (Option.some.inj h).symm⟩))
    case h_2 => cases h
  | _ => cases ha

end

theorem delivers_iff (s : Feed) (a : FeedAction) (t : Feed) (hs : Followed s)
    (h : feedStep s a = some t) : Delivers s a t ↔ AheadOfCursor s a := by
  cases ha : a.isPoll with
  | false =>
    have hrespond : a ≠ .respond := by
      rintro rfl
      cases ha
    rw [ahead_runStep ha h, ← unskipped_runStep hs (runStep_of hs.rows ha h)]
    exact ⟨fun hd => hd.unskipped, fun hun => ⟨hun, fun heq => absurd heq hrespond⟩⟩
  | true =>
    rcases poll_cases ha h with ⟨rfl, rfl⟩ | ⟨rfl, due, persisted, hpoll, rfl⟩ |
      ⟨rfl, due, persisted, deltas, todo, todo', chunks, more, hpoll, rfl⟩ |
      ⟨rfl, due, persisted, deltas, chunks, hpoll, rfl⟩
    · exact iff_of_true ⟨hs.unskipped.of_poll _, fun heq => by cases heq⟩ trivial
    · exact iff_of_true ⟨hs.unskipped.of_poll _, fun heq => by cases heq⟩ trivial
    · exact iff_of_true ⟨hs.unskipped.of_poll _, fun heq => by cases heq⟩ trivial
    · refine ⟨fun hd => (unskipped_respond hs hpoll).mp hd.unskipped, fun hahead =>
        ⟨(unskipped_respond hs hpoll).mpr hahead, fun _ f hf => ?_⟩⟩
      rw [hpoll] at hf
      exact answered_respond hs hpoll hf

/-- A step ahead of the cursor keeps the invariant. -/
theorem followed_step (s : Feed) (a : FeedAction) (t : Feed) (hs : Followed s)
    (hok : AheadOfCursor s a) (h : feedStep s a = some t) : Followed t := by
  have ht : Unskipped t := ((delivers_iff s a t hs h).mpr hok).unskipped
  cases ha : a.isPoll with
  | false => exact followed_runStep hs (runStep_of hs.rows ha h) ht
  | true =>
    rcases poll_cases ha h with ⟨rfl, rfl⟩ | ⟨rfl, due, persisted, hpoll, rfl⟩ |
      ⟨rfl, due, persisted, deltas, todo, todo', chunks, more, hpoll, rfl⟩ |
      ⟨rfl, due, persisted, deltas, chunks, hpoll, rfl⟩
    · exact followed_selectEvents hs
    · exact followed_selectMessages hs hpoll
    · exact followed_readChunks hs hpoll
    · exact followed_respond hs hpoll ht

/-- EXACT CONDITION: however emits, turns and the polls of a client interleave, the client skips
    nothing and each response completes what was there when it asked, just when every event is
    committed and every message completed ahead of the cursor, and no response moves the cursor past
    what landed while the poll was under way. -/
theorem delivers_run_iff (as : List FeedAction) :
    EveryStep feedStep Delivers .fresh as ↔ Guarded feedStep AheadOfCursor .fresh as :=
  everyStep_iff_guarded followed_step delivers_iff followed_fresh

/-! ### A poll while a turn streams -/

def startedDraft : Draft := ⟨.agentMessageStarted, some "writer", some 0, none⟩

/-- A turn streams its first chunk, and the client polls: it is given the started event 1 and the
    chunk 2. -/
def polledMidStream : List FeedAction :=
  [.emit startedDraft, .timeline (.selectMax 0), .timeline (.getMark 0), .timeline (.insert 0),
    .timeline (.publishEvent 0), .timeline (.setMarkEvent 0),
    .beginTurn 0 .chat true, .turn 0 .writeInflightMeta, .turn 0 (.pushStream .text "Hi"),
    .turn 0 .nextDeltaSequence, .turn 0 .publishDelta, .timeline (.setMarkDelta 0),
    .selectEvents, .selectMessages, .readChunks, .respond]

/-- The message that completes then has its text at 2, where the cursor is: the client never gets
    it. -/
theorem complete_text_skipped :
    ¬ EveryStep feedStep Delivers .fresh
      (polledMidStream ++ [.saveMessage 0 [.text "Hi"] none]) := by
  intro h
  have hstep := EveryStep.at h (rfl : runFrom feedStep .fresh polledMidStream = some _) rfl
  have hskipped := hstep.unskipped.due (.complete ⟨.text, 0, "writer", 2, "Hi", none⟩) (by decide)
  revert hskipped
  decide

end LunaCore.Events
