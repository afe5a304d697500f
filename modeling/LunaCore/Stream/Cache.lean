import LunaCore.Stream.Turn

/-! The rebuilt frames of a turn against the frames that were broadcast.

    The live path numbers a chunk by a counter that builtin events share; the rebuilt path numbers
    it by its place in the list, where builtin events have none. Both are written here as functions
    of the turn's activity, from the same counters on, so that the two agree or differ by
    recursion over the activity:

        live       chunk c₁   builtin   chunk c₂        base+1, base+2, base+3
        rebuilt    chunk c₁             chunk c₂        base+1,         base+2 -/

namespace LunaCore.Stream
open LunaCore.Schemes

/-- The counters of a turn: the INCR offset, and the chunks of each kind so far. -/
structure Counters where
  offset : ℕ
  text : ℕ
  thinking : ℕ

/-- All counters of a turn that did nothing yet. -/
def Counters.zero : Counters := ⟨0, 0, 0⟩

def Counters.index (c : Counters) : Kind → ℕ
  | .text => c.text
  | .thinking => c.thinking

def Counters.next (c : Counters) : Activity → Counters
  | .chunk .text _ => ⟨c.offset + 1, c.text + 1, c.thinking⟩
  | .chunk .thinking _ => ⟨c.offset + 1, c.text, c.thinking + 1⟩
  | .builtin => { c with offset := c.offset + 1 }
  | .dropped => { c with offset := 0 }

/-- The counters after some activity. -/
def Counters.after (c : Counters) (as : List Activity) : Counters := as.foldl Counters.next c

/-- What the meta key of the turn holds once written. -/
def Turn.tag (t : Turn) : InflightMeta := ⟨t.messageId, t.nodeId, t.deltaSeqBase, t.iterationId⟩

/-- The frame broadcast for a chunk when the counters stand at `c`. -/
def frameAt (m : InflightMeta) (c : Counters) (kind : Kind) (text : String) : DeltaFrame where
  id := ⟨m.messageId, kind, c.index kind⟩
  sequence := m.startedSeq + (c.offset + 1)
  kind := kind
  nodeId := m.nodeId
  messageId := m.messageId
  chunkIndex := c.index kind
  text := text
  iterationId := m.iterationId
  ordinal := c.text + c.thinking

/-- The frames broadcast for some activity, the counters standing at `c` before it. -/
def liveFrames (m : InflightMeta) (c : Counters) : List Activity → List DeltaFrame
  | [] => []
  | .chunk kind text :: as => frameAt m c kind text :: liveFrames m (c.next (.chunk kind text)) as
  | .builtin :: as => liveFrames m (c.next .builtin) as
  | .dropped :: as => liveFrames m (c.next .dropped) as

/-- The list entries pushed for it. -/
def chunksOf (c : Counters) : List Activity → List Chunk
  | [] => []
  | .chunk kind text :: as =>
    ⟨kind, text, c.text + c.thinking⟩ :: chunksOf (c.next (.chunk kind text)) as
  | .builtin :: as => chunksOf (c.next .builtin) as
  | .dropped :: as => chunksOf (c.next .dropped) as

/-- The frames rebuilt from a list, from an index and the two kind counters on. -/
def rebuiltFrom (m : InflightMeta) (index text thinking : ℕ) (cache : List Chunk) :
    List DeltaFrame :=
  (readFrom index text thinking cache).map
    (syntheticFrame m.messageId m.nodeId m.startedSeq m.iterationId)

/-- No chunk comes after a builtin event, and the cache is never dropped. -/
def ChunksFirst : List Activity → Prop
  | [] => True
  | .chunk _ _ :: as => ChunksFirst as
  | .builtin :: as => ∀ a ∈ as, a = .builtin
  | .dropped :: _ => False

theorem not_dropped_of_chunksFirst {as : List Activity} (h : ChunksFirst as) : .dropped ∉ as := by
  induction as with
  | nil => exact List.not_mem_nil
  | cons a as ih =>
    intro hmem
    cases a with
    | chunk kind text =>
      rcases List.mem_cons.mp hmem with heq | hmem
      · cases heq
      · exact ih h hmem
    | builtin =>
      rcases List.mem_cons.mp hmem with heq | hmem
      · cases heq
      · cases h _ hmem
    | dropped => exact h

theorem liveFrames_append (m : InflightMeta) (as bs : List Activity) (c : Counters) :
    liveFrames m c (as ++ bs) = liveFrames m c as ++ liveFrames m (c.after as) bs := by
  induction as generalizing c with
  | nil => rfl
  | cons a as ih =>
    cases a with
    | chunk kind text =>
      rw [List.cons_append, liveFrames, liveFrames, ih]
      rfl
    | builtin =>
      rw [List.cons_append, liveFrames, liveFrames, ih]
      rfl
    | dropped =>
      rw [List.cons_append, liveFrames, liveFrames, ih]
      rfl

theorem chunksOf_append (as bs : List Activity) (c : Counters) :
    chunksOf c (as ++ bs) = chunksOf c as ++ chunksOf (c.after as) bs := by
  induction as generalizing c with
  | nil => rfl
  | cons a as ih =>
    cases a with
    | chunk kind text =>
      rw [List.cons_append, chunksOf, chunksOf, ih]
      rfl
    | builtin =>
      rw [List.cons_append, chunksOf, chunksOf, ih]
      rfl
    | dropped =>
      rw [List.cons_append, chunksOf, chunksOf, ih]
      rfl

theorem after_concat (as : List Activity) (a : Activity) (c : Counters) :
    c.after (as ++ [a]) = (c.after as).next a := List.foldl_concat ..

/-- Where no frame was broadcast no text chunk was counted. -/
theorem text_after_of_liveFrames_nil (m : InflightMeta) (as : List Activity) (c : Counters)
    (h : liveFrames m c as = []) : (c.after as).text = c.text := by
  induction as generalizing c with
  | nil => rfl
  | cons a as ih =>
    cases a with
    | chunk kind text => cases h
    | builtin => exact ih (c.next .builtin) h
    | dropped => exact ih (c.next .dropped) h

/-- One chunk at the head of both paths: its frames agree exactly when list index and counter do. -/
theorem rebuiltFrom_cons (m : InflightMeta) (index : ℕ) (c : Counters) (kind : Kind) (text : String)
    (cs : List Chunk) :
    rebuiltFrom m index c.text c.thinking (⟨kind, text, c.text + c.thinking⟩ :: cs) =
      { frameAt m c kind text with sequence := m.startedSeq + (index + 1) } ::
        rebuiltFrom m (index + 1) (c.next (.chunk kind text)).text
          (c.next (.chunk kind text)).thinking cs := by
  cases kind <;> rfl

/-- Activity of builtin events only broadcasts and pushes no chunk. -/
theorem chunksOf_eq_nil_iff {as : List Activity} {c : Counters} (h : .dropped ∉ as) :
    chunksOf c as = [] ↔ ∀ a ∈ as, a = .builtin := by
  induction as generalizing c with
  | nil => simp [chunksOf]
  | cons a as ih =>
    cases a with
    | chunk kind text => simp [chunksOf]
    | builtin =>
      rw [chunksOf, ih fun hmem => h (List.mem_cons_of_mem _ hmem)]
      simp
    | dropped => exact absurd List.mem_cons_self h

theorem chunksFirst_of_builtins {as : List Activity} (h : ∀ a ∈ as, a = .builtin) :
    ChunksFirst as := by
  cases as with
  | nil => exact trivial
  | cons a as =>
    obtain rfl : a = .builtin := h a List.mem_cons_self
    exact fun b hb => h b (List.mem_cons_of_mem _ hb)

/-- The two paths over the same activity, the list index at most the counter: the frames agree
    exactly when there is no chunk, or index and counter are equal and no chunk comes after a
    builtin event. -/
theorem liveFrames_eq_rebuilt_iff (m : InflightMeta) :
    ∀ {as : List Activity} {c : Counters} {index : ℕ}, .dropped ∉ as → index ≤ c.offset →
      (liveFrames m c as = rebuiltFrom m index c.text c.thinking (chunksOf c as) ↔
        chunksOf c as = [] ∨ index = c.offset ∧ ChunksFirst as) := by
  intro as
  induction as with
  | nil =>
    intro c index _ _
    simp [liveFrames, chunksOf, rebuiltFrom, readFrom]
  | cons a as ih =>
    intro c index hd hle
    have hd' : Activity.dropped ∉ as := fun hmem => hd (List.mem_cons_of_mem _ hmem)
    cases a with
    | chunk kind text =>
      have hoff : (c.next (.chunk kind text)).offset = c.offset + 1 := by cases kind <;> rfl
      rw [liveFrames, chunksOf, rebuiltFrom_cons, List.cons.injEq]
      have hhead : frameAt m c kind text =
          { frameAt m c kind text with sequence := m.startedSeq + (index + 1) } ↔
            index = c.offset := by
        simp only [frameAt, DeltaFrame.mk.injEq, true_and, and_true]
        omega
      rw [hhead, ih hd' (by omega), hoff]
      simp only [reduceCtorEq, false_or, ChunksFirst]
      constructor
      · rintro ⟨hi, hnil | ⟨-, hf⟩⟩
        · exact ⟨hi, chunksFirst_of_builtins ((chunksOf_eq_nil_iff hd').mp hnil)⟩
        · exact ⟨hi, hf⟩
      · rintro ⟨hi, hf⟩
        exact ⟨hi, .inr ⟨by omega, hf⟩⟩
    | builtin =>
      have hoff : (c.next .builtin).offset = c.offset + 1 := rfl
      have hrest := @ih (c.next .builtin) index hd' (by omega)
      rw [liveFrames, chunksOf]
      refine hrest.trans ⟨?_, ?_⟩
      · -- the counter is ahead of the index from here on
        rintro (hnil | ⟨hi, -⟩)
        · exact .inl hnil
        · omega
      · rintro (hnil | ⟨-, hall⟩)
        · exact .inl hnil
        · exact .inl ((chunksOf_eq_nil_iff hd').mpr hall)
    | dropped => exact absurd List.mem_cons_self hd

/-! ### The invariant of a turn -/

/-- The chunk that is in the list and not published yet. -/
def Pc.chunk? : Pc → Option Chunk
  | .pushed chunk | .numbered chunk _ => some chunk
  | _ => none

/-- 1 when the pending chunk has its number already. -/
def Pc.ahead : Pc → ℕ
  | .numbered _ _ => 1
  | _ => 0

/-- What holds of a turn that has not ended: its counters and frames are those of its activity, its
    list is that of its history, and its meta key is there once written, unless the cache was
    dropped, which leaves no meta key behind frames that were broadcast. -/
structure Valid (t : Turn) : Prop where
  text : t.textChunkIndex = (Counters.zero.after t.activity).text
  thinking : t.thinkingChunkIndex = (Counters.zero.after t.activity).thinking
  offset : t.deltaSeq = (Counters.zero.after t.activity).offset + t.pc.ahead
  live : t.live = liveFrames t.tag .zero t.activity
  ordinal : ∀ chunk, t.pc.chunk? = some chunk →
    chunk.ordinal = t.textChunkIndex + t.thinkingChunkIndex
  sequence : ∀ chunk sequence, t.pc = .numbered chunk sequence →
    sequence = t.deltaSeqBase + t.deltaSeq
  cache : .dropped ∉ t.activity → t.cache = chunksOf .zero t.history
  early : t.pc = .created ∨ t.pc = .started → t.activity = [] ∧ t.inflightMeta = none
  written : t.pc ≠ .created → t.pc ≠ .started → .dropped ∉ t.activity →
    t.inflightMeta = some t.tag
  dropped : .dropped ∈ t.activity → t.inflightMeta = none ∧ t.live ≠ []
  stored : t.stored = true → .dropped ∈ t.activity ∨ t.pc = .saved

theorem valid_create (provider : Provider) (messageId : ℕ) (nodeId : String)
    (iterationId : Option String) : Valid (.create provider messageId nodeId iterationId) where
  text := rfl
  thinking := rfl
  offset := rfl
  live := rfl
  ordinal := by simp [Turn.create, Pc.chunk?]
  sequence := by simp [Turn.create]
  cache := fun _ => rfl
  early := fun _ => ⟨rfl, rfl⟩
  written := fun h => absurd rfl h
  dropped := by simp [Turn.create]
  stored := by simp [Turn.create]

theorem index_eq {t : Turn} (ht : Valid t) (kind : Kind) :
    t.chunkIndex kind = (Counters.zero.after t.activity).index kind := by
  cases kind
  · exact ht.text
  · exact ht.thinking

/-- The frame of a pending chunk is the one its counters give. -/
theorem deltaFrame_eq {t : Turn} (ht : Valid t) {chunk : Chunk} {sequence : ℕ}
    (hchunk : t.pc.chunk? = some chunk)
    (hseq : sequence = t.deltaSeqBase + ((Counters.zero.after t.activity).offset + 1)) :
    t.deltaFrame chunk sequence =
      frameAt t.tag (Counters.zero.after t.activity) chunk.kind chunk.text := by
  have hord := ht.ordinal chunk hchunk
  rw [ht.text, ht.thinking] at hord
  simp only [Turn.deltaFrame, frameAt, Turn.tag, index_eq ht, hseq, hord]

/-- Live frames and the pending one are the frames of the history. -/
theorem live_pending_eq {t : Turn} (ht : Valid t) :
    t.live ++ t.pending = liveFrames t.tag .zero t.history := by
  rw [Turn.history, liveFrames_append, ← ht.live]
  refine congrArg (t.live ++ ·) ?_
  rw [Turn.pending]
  cases hpc : t.pc with
  | pushed chunk =>
    have hoff : t.deltaSeq = (Counters.zero.after t.activity).offset := by
      simpa [hpc, Pc.ahead] using ht.offset
    have hframe := deltaFrame_eq ht (show t.pc.chunk? = some chunk by rw [hpc]; rfl)
      (congrArg (fun n => t.deltaSeqBase + (n + 1)) hoff)
    simp only [liveFrames, hframe]
  | numbered chunk sequence =>
    have hoff : t.deltaSeq = (Counters.zero.after t.activity).offset + 1 := by
      simpa [hpc, Pc.ahead] using ht.offset
    have hseq : sequence = t.deltaSeqBase + ((Counters.zero.after t.activity).offset + 1) := by
      rw [ht.sequence chunk sequence hpc, hoff]
    have hframe := deltaFrame_eq ht (show t.pc.chunk? = some chunk by rw [hpc]; rfl) hseq
    simp only [liveFrames, hframe]
  | _ => rfl

theorem dropped_mem_concat_iff {as : List Activity} {a : Activity} (ha : a ≠ .dropped) :
    .dropped ∈ as ++ [a] ↔ .dropped ∈ as := by
  rw [List.mem_append, List.mem_singleton]
  exact or_iff_left ha.symm

/-- What is no chunk leaves no frame. -/
theorem liveFrames_concat (m : InflightMeta) (as : List Activity) {a : Activity} {c : Counters}
    (ha : a = .builtin ∨ a = .dropped) : liveFrames m c (as ++ [a]) = liveFrames m c as := by
  rw [liveFrames_append]
  rcases ha with rfl | rfl
  · exact List.append_nil _
  · exact List.append_nil _

/-- The step preserves the invariant while the turn goes on. -/
theorem valid_turnStep {t u : Turn} {a : TurnAction} (ht : Valid t) (h : turnStep t a = some u)
    (hu : u.pc ≠ .ended) : Valid u := by
  have hoff := ht.offset
  have hcache := ht.cache
  cases stepped_of_turnStep h with
  | emitStarted persisted returned hpc =>
    obtain ⟨hact, hmeta⟩ := ht.early (.inl hpc)
    have hlive : t.live = [] := by rw [ht.live, hact]; rfl
    simp only [hpc, Pc.ahead] at hoff
    refine
      { text := ht.text, thinking := ht.thinking, offset := hoff, live := ?_
        ordinal := by simp [Pc.chunk?], sequence := by simp
        cache := ?_, early := fun _ => ⟨hact, hmeta⟩
        written := by simp, dropped := ?_
        stored := fun hs => by simpa [hact, hpc] using ht.stored hs }
    · rw [hlive, hact]
      rfl
    · simpa [Turn.history, hpc] using hcache
    · simp [hact]
  | writeInflightMeta hpc =>
    obtain ⟨hact, hmeta⟩ := ht.early (.inr hpc)
    simp only [hpc, Pc.ahead] at hoff
    refine
      { text := ht.text, thinking := ht.thinking, offset := hoff, live := ht.live
        ordinal := by simp [Pc.chunk?], sequence := by simp
        cache := ?_, early := by simp
        written := fun _ _ _ => rfl, dropped := ?_
        stored := fun hs => by simpa [hact, hpc] using ht.stored hs }
    · simpa [Turn.history, hpc] using hcache
    · simp [hact]
  | pushStream kind text hpc =>
    simp only [hpc, Pc.ahead] at hoff
    refine
      { text := ht.text, thinking := ht.thinking, offset := hoff, live := ht.live
        ordinal := ?_, sequence := by simp
        cache := fun hd => ?_, early := by simp
        written := fun _ _ hd => ht.written (by simp [hpc]) (by simp [hpc]) hd
        dropped := ht.dropped
        stored := fun hs => .inl ((ht.stored hs).resolve_right (by simp [hpc])) }
    · simp [Pc.chunk?]
    · have hbefore : t.cache = chunksOf .zero t.activity := by
        simpa [Turn.history, hpc] using hcache hd
      rw [Turn.history, chunksOf_append, ← hbefore]
      simp [chunksOf, ht.text, ht.thinking]
  | nextDeltaSequence chunk hpc =>
    simp only [hpc, Pc.ahead] at hoff
    refine
      { text := ht.text, thinking := ht.thinking, offset := ?_, live := ht.live
        ordinal := ?_, sequence := ?_
        cache := ?_, early := by simp
        written := fun _ _ hd => ht.written (by simp [hpc]) (by simp [hpc]) hd
        dropped := ht.dropped
        stored := fun hs => .inl ((ht.stored hs).resolve_right (by simp [hpc])) }
    · simp only [Pc.ahead]
      omega
    · simpa [Pc.chunk?, hpc] using ht.ordinal
    · rintro c sequence hc
      simp only [Pc.numbered.injEq] at hc
      exact hc.2.symm
    · simpa [Turn.history, hpc] using hcache
  | publishDelta chunk sequence hpc =>
    have hframes := live_pending_eq ht
    have hkept : .dropped ∈ t.activity ++ [.chunk chunk.kind chunk.text] ↔
        .dropped ∈ t.activity := dropped_mem_concat_iff nofun
    simp only [hpc, Pc.ahead] at hoff
    simp only [Turn.pending, Turn.history, hpc] at hframes hcache
    refine
      { text := ?_, thinking := ?_, offset := ?_, live := hframes
        ordinal := by simp [Pc.chunk?], sequence := by simp
        cache := fun hd => ?_, early := by simp
        written := fun _ _ hd => ht.written (by simp [hpc]) (by simp [hpc]) (hkept.not.mp hd)
        dropped := fun hd => ⟨(ht.dropped (hkept.mp hd)).1, by simp⟩
        stored := fun hs => .inl (hkept.mpr ((ht.stored hs).resolve_right (by simp [hpc]))) }
    · simp only [after_concat, Turn.bumpIndex, ht.text]
      cases chunk.kind <;> rfl
    · simp only [after_concat, Turn.bumpIndex, ht.thinking]
      cases chunk.kind <;> rfl
    · simp only [after_concat, Turn.bumpIndex, hoff]
      cases chunk.kind <;> rfl
    · exact (hcache (hkept.not.mp hd)).trans (by simp [Turn.history])
  | publishBuiltin hpc =>
    have hkept : .dropped ∈ t.activity ++ [.builtin] ↔ .dropped ∈ t.activity :=
      dropped_mem_concat_iff nofun
    simp only [hpc, Pc.ahead] at hoff
    refine
      { text := ?_, thinking := ?_, offset := ?_, live := ?_
        ordinal := ht.ordinal, sequence := by simp [hpc]
        cache := fun hd => ?_, early := by simp [hpc]
        written := fun _ _ hd => ht.written (by simp [hpc]) (by simp [hpc]) (hkept.not.mp hd)
        dropped := fun hd => ht.dropped (hkept.mp hd)
        stored := fun hs => .inl (hkept.mpr ((ht.stored hs).resolve_right (by simp [hpc]))) }
    · simp only [after_concat, ht.text]
      rfl
    · simp only [after_concat, ht.thinking]
      rfl
    · simp only [after_concat, hoff, hpc]
      rfl
    · exact ht.live.trans (liveFrames_concat _ _ (.inl rfl)).symm
    · rw [hcache (hkept.not.mp hd)]
      simp [Turn.history, hpc, chunksOf_append, chunksOf]
  | saveMessage hpc =>
    simp only [hpc, Pc.ahead] at hoff
    refine
      { text := ht.text, thinking := ht.thinking, offset := hoff, live := ht.live
        ordinal := by simp [Pc.chunk?], sequence := by simp
        cache := ?_, early := by simp
        written := fun _ _ hd => ht.written (by simp [hpc]) (by simp [hpc]) hd
        dropped := ht.dropped
        stored := fun _ => .inr rfl }
    simpa [Turn.history, hpc] using hcache
  | retryDropped saved hpc _ htext =>
    refine
      { text := ?_, thinking := ?_, offset := ?_, live := ?_
        ordinal := ht.ordinal, sequence := by simp [hpc]
        cache := by simp, early := by simp [hpc]
        written := by simp
        dropped := fun _ => ⟨rfl, fun hnil => ?_⟩
        stored := fun _ => .inl (by simp) }
    · simp only [after_concat, ht.text]
      rfl
    · simp only [after_concat, ht.thinking]
      rfl
    · simp only [after_concat, hpc]
      rfl
    · exact ht.live.trans (liveFrames_concat _ _ (.inr rfl)).symm
    · -- a text chunk was broadcast before the cache can be dropped
      have hzero := text_after_of_liveFrames_nil t.tag _ _ (ht.live.symm.trans hnil)
      rw [← ht.text] at hzero
      exact absurd hzero (Nat.ne_of_gt htext)
  | deleteKeys => exact absurd rfl hu

/-- Every turn that a run of steps reaches has ended or is valid. -/
theorem valid_turn {provider : Provider} {messageId : ℕ} {nodeId : String}
    {iterationId : Option String} {as : List TurnAction} {t : Turn}
    (h : runFrom turnStep (.create provider messageId nodeId iterationId) as = some t) :
    t.pc = .ended ∨ Valid t := by
  suffices hstep : ∀ s a u, s.pc = .ended ∨ Valid s → turnStep s a = some u →
      u.pc = .ended ∨ Valid u from
    inv_run hstep (.inr (valid_create provider messageId nodeId iterationId)) h
  intro s a u hs hu
  rcases hs with hs | hs
  · exact absurd hs (turnStep_not_ended hu)
  · by_cases hended : u.pc = .ended
    · exact .inl hended
    · exact .inr (valid_turnStep hs hu hended)

/-! ### When the rebuilt frames are the broadcast ones -/

/-- A turn whose message is not stored and whose keys are not deleted. -/
def Turn.InFlight (t : Turn) : Prop := t.pc ≠ .saved ∧ t.pc ≠ .ended

/-- The history has a chunk. -/
def HasChunk (as : List Activity) : Prop := ∃ kind text, Activity.chunk kind text ∈ as

theorem dropped_mem_history {t : Turn} : .dropped ∈ t.history ↔ .dropped ∈ t.activity := by
  rw [Turn.history]
  cases t.pc <;> simp

theorem not_hasChunk_iff {as : List Activity} (hd : .dropped ∉ as) {c : Counters} :
    ¬ HasChunk as ↔ chunksOf c as = [] := by
  rw [chunksOf_eq_nil_iff hd]
  constructor
  · intro hno a ha
    cases a with
    | builtin => rfl
    | chunk kind text => exact absurd ⟨kind, text, ha⟩ hno
    | dropped => exact absurd ha hd
  · rintro hall ⟨kind, text, hmem⟩
    simpa using hall _ hmem

/-- The snapshot of a turn in flight is what was broadcast exactly when no chunk came after a
    builtin event and the cache was never dropped. -/
theorem snapshot_iff {t : Turn} (ht : Valid t) :
    snapshotFrames t.inflightMeta t.cache = t.live ++ t.pending ↔ ChunksFirst t.history := by
  by_cases hd : .dropped ∈ t.history
  · obtain ⟨hmeta, hlive⟩ := ht.dropped (dropped_mem_history.mp hd)
    simp only [hmeta, snapshotFrames]
    refine ⟨fun hnil => ?_, fun hf => absurd hd (not_dropped_of_chunksFirst hf)⟩
    exact absurd (List.append_eq_nil_iff.mp hnil.symm).1 hlive
  · have hd' := mt dropped_mem_history.mpr hd
    rw [live_pending_eq ht, ht.cache hd']
    by_cases hpc : t.pc = .created ∨ t.pc = .started
    · obtain ⟨hact, hmeta⟩ := ht.early hpc
      have hhist : t.history = [] := by
        rw [Turn.history]
        rcases hpc with hpc | hpc <;> simp [hpc, hact]
      simp [hmeta, hhist, snapshotFrames, liveFrames, ChunksFirst]
    · obtain ⟨hcreated, hstarted⟩ := not_or.mp hpc
      rw [ht.written hcreated hstarted hd', eq_comm]
      refine (liveFrames_eq_rebuilt_iff t.tag hd (Nat.le_refl _)).trans ⟨?_, fun hf => .inr ⟨rfl, hf⟩⟩
      rintro (hnil | ⟨-, hf⟩)
      · exact chunksFirst_of_builtins ((chunksOf_eq_nil_iff hd).mp hnil)
      · exact hf

/-- Frames rebuilt on two bases from a list with an entry are the same only on the same base. -/
theorem synthetic_base_iff {messageId : ℕ} {nodeId : String} {p q : ℕ} {iterationId : Option String}
    {records : List ChunkRecord} (hne : records ≠ []) :
    records.map (syntheticFrame messageId nodeId p iterationId) =
      records.map (syntheticFrame messageId nodeId q iterationId) ↔ p = q := by
  refine ⟨fun h => ?_, fun h => by rw [h]⟩
  obtain ⟨r, rs, rfl⟩ := List.exists_cons_of_ne_nil hne
  simp only [List.map_cons, List.cons.injEq, syntheticFrame, DeltaFrame.mk.injEq] at h
  omega

theorem readInflightChunks_ne_nil {cache : List Chunk} (h : cache ≠ []) :
    readInflightChunks cache ≠ [] := by
  obtain ⟨c, cs, rfl⟩ := List.exists_cons_of_ne_nil h
  rw [readInflightChunks, readFrom]
  cases c.kind <;> simp

/-- Where the snapshot is right and the turn in flight, the synthesis is right exactly when there is
    no chunk, or the started event holds the base and the node has an id. -/
theorem synthesized_iff {t : Turn} (ht : Valid t) (hf : t.InFlight) (hfirst : ChunksFirst t.history) :
    synthesizedDeltas t = t.live ++ t.pending ↔
      (HasChunk t.history → t.startedEvent = some t.deltaSeqBase ∧ t.nodeId ≠ "") := by
  have hd := not_dropped_of_chunksFirst hfirst
  have hd' := mt dropped_mem_history.mpr hd
  have hstored : t.stored = false := by
    by_contra hs
    rcases ht.stored (by simpa using hs) with h | h
    · exact hd' h
    · exact hf.1 h
  have hcache := ht.cache hd'
  by_cases hchunk : HasChunk t.history
  · have hne : t.cache ≠ [] := fun hnil =>
      (not_hasChunk_iff hd).mpr (hcache ▸ hnil) hchunk
    have hframes : t.live ++ t.pending = (readInflightChunks t.cache).map
        (syntheticFrame t.messageId t.nodeId t.deltaSeqBase t.iterationId) := by
      rw [live_pending_eq ht, hcache]
      exact (liveFrames_eq_rebuilt_iff t.tag hd (Nat.le_refl _)).mpr (.inr ⟨rfl, hfirst⟩)
    have hrecords := readInflightChunks_ne_nil hne
    simp only [hframes, synthesizedDeltas, hchunk, true_imp_iff, hstored]
    cases hs : t.startedEvent with
    | none => simp [hrecords]
    | some sequence =>
      by_cases hnode : t.nodeId = ""
      · simp [hnode, hrecords]
      · simp [hnode, synthetic_base_iff hrecords]
  · have hnil : t.cache = [] := by
      rw [hcache]
      exact (not_hasChunk_iff hd).mp hchunk
    have hlive : t.live ++ t.pending = [] := by
      rw [live_pending_eq ht]
      refine (liveFrames_eq_rebuilt_iff t.tag hd (Nat.le_refl _)).mpr (.inr ⟨rfl, hfirst⟩) |>.trans ?_
      rw [← hcache, hnil]
      rfl
    simp only [hchunk, false_imp_iff, iff_true, hlive, synthesizedDeltas, hnil]
    split
    · rfl
    · split <;> rfl

/-- CORRECT (exactly when): the frames rebuilt for a turn in flight, by the snapshot and by the REST
    synthesis, are those broadcast for the chunks in its list if and only if no chunk came after a
    builtin event, the cache was never dropped and, once there is a chunk, the started event is
    stored under the base and the node id is not empty. -/
theorem rebuilt_iff_broadcast {provider : Provider} {messageId : ℕ} {nodeId : String}
    {iterationId : Option String} {as : List TurnAction} {t : Turn}
    (h : runFrom turnStep (.create provider messageId nodeId iterationId) as = some t)
    (hf : t.InFlight) :
    (snapshotFrames t.inflightMeta t.cache = t.live ++ t.pending ∧
      synthesizedDeltas t = t.live ++ t.pending) ↔
    ChunksFirst t.history ∧
      (HasChunk t.history → t.startedEvent = some t.deltaSeqBase ∧ t.nodeId ≠ "") := by
  have ht : Valid t := (valid_turn h).resolve_left hf.2
  rw [snapshot_iff ht]
  exact and_congr_right fun hfirst => synthesized_iff ht hf hfirst

/-- A thinking and a text chunk of a chat-completions turn, the second not yet published. -/
def twoChunks : List TurnAction :=
  [.emitStarted (some 5) true, .writeInflightMeta, .pushStream .thinking "a", .nextDeltaSequence,
    .publishDelta, .pushStream .text "b", .nextDeltaSequence]

theorem rebuilt_iff_broadcast_twoChunks :
    ∃ t, runFrom turnStep (.create .chat 1 "n" (some "i")) twoChunks = some t ∧
      snapshotFrames t.inflightMeta t.cache = t.live ++ t.pending ∧
      synthesizedDeltas t = t.live ++ t.pending :=
  ⟨_, rfl, (rebuilt_iff_broadcast
    (rfl : runFrom turnStep (.create .chat 1 "n" (some "i")) twoChunks = some _)
    ⟨by decide, by decide⟩).mpr ⟨trivial, fun _ => ⟨rfl, by decide⟩⟩⟩

/-- A web search before the first words of an `AnthropicProvider` turn. -/
def searchThenText : List TurnAction :=
  [.emitStarted (some 5) true, .writeInflightMeta, .publishBuiltin, .pushStream .text "a",
    .nextDeltaSequence, .publishDelta]

/-- The chunk was broadcast as 7; both readers rebuild it as 6. -/
theorem rebuilt_sequence_differs :
    ∃ t, runFrom turnStep (.create .anthropic 1 "n" none) searchThenText = some t ∧ t.InFlight ∧
      (t.live ++ t.pending).map DeltaFrame.sequence = [7] ∧
      snapshotFrames t.inflightMeta t.cache ≠ t.live ++ t.pending ∧
      synthesizedDeltas t ≠ t.live ++ t.pending :=
  ⟨_, rfl, ⟨by decide, by decide⟩, by decide, by decide, by decide⟩

/-! ### Chat completions: the turn with neither builtin events nor retries -/

/-- Neither a builtin event nor a dropped cache. -/
def OnlyChunks (as : List Activity) : Prop := ∀ a ∈ as, a ≠ .builtin ∧ a ≠ .dropped

theorem chunksFirst_of_onlyChunks {as : List Activity} (h : OnlyChunks as) : ChunksFirst as := by
  induction as with
  | nil => exact trivial
  | cons a as ih =>
    have hrest : OnlyChunks as := fun b hb => h b (List.mem_cons_of_mem _ hb)
    obtain ⟨hbuiltin, hdropped⟩ := h a List.mem_cons_self
    cases a with
    | chunk kind text => exact ih hrest
    | builtin => exact absurd rfl hbuiltin
    | dropped => exact absurd rfl hdropped

theorem onlyChunks_history {t : Turn} (ht : OnlyChunks t.activity) : OnlyChunks t.history := by
  intro a ha
  rcases List.mem_append.mp ha with ha | ha
  · exact ht a ha
  · cases hpc : t.pc <;> simp_all

theorem onlyChunks_turnStep {t u : Turn} {a : TurnAction} (hp : t.provider = .chat)
    (ht : OnlyChunks t.activity) (h : turnStep t a = some u) :
    u.provider = .chat ∧ OnlyChunks u.activity := by
  cases stepped_of_turnStep h with
  | publishDelta chunk sequence hpc =>
    refine ⟨hp, fun a ha => ?_⟩
    rcases List.mem_append.mp ha with ha | ha
    · exact ht a ha
    · simp [List.mem_singleton.mp ha]
  | publishBuiltin _ hprovider => exact absurd hp hprovider
  | retryDropped saved _ hprovider => simp [hp] at hprovider
  | deleteKeys => exact ⟨hp, onlyChunks_history ht⟩
  | emitStarted | writeInflightMeta | pushStream | nextDeltaSequence | saveMessage =>
    exact ⟨hp, ht⟩

/-- A chat-completions turn in flight is always rebuilt, by the snapshot, as it was broadcast. -/
theorem chat_snapshot {messageId : ℕ} {nodeId : String} {iterationId : Option String}
    {as : List TurnAction} {t : Turn}
    (h : runFrom turnStep (.create .chat messageId nodeId iterationId) as = some t)
    (hf : t.InFlight) : snapshotFrames t.inflightMeta t.cache = t.live ++ t.pending := by
  have ht : Valid t := (valid_turn h).resolve_left hf.2
  have hstep : ∀ s a u, s.provider = .chat ∧ OnlyChunks s.activity → turnStep s a = some u →
      u.provider = .chat ∧ OnlyChunks u.activity := fun _ _ _ hs hu =>
    onlyChunks_turnStep hs.1 hs.2 hu
  have honly : OnlyChunks t.activity := (inv_run hstep ⟨rfl, by simp [OnlyChunks, Turn.create]⟩ h).2
  rw [snapshot_iff ht]
  exact chunksFirst_of_onlyChunks (onlyChunks_history honly)

end LunaCore.Stream
