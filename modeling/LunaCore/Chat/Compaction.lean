import LunaCore.Schemes.Machine
import LunaCore.Chat.Message

/-! Compaction of a conversation: what the model is sent after any number of them.

    `historyRows` reads the history back from the table: the latest marker, then every final row
    above the sequence it covers. `compactIfDue` summarizes what is sent now, all but a last reply,
    and stores a marker for it.

        history   marker? | r₁ … rₖ   | reply         (sequence order behind the marker)
                  ----- summarized --- -- kept --

    The kept reply has a lower sequence than the new marker; the next compaction summarizes the
    marker with the rest. A ghost log records, for each marker, the rows it summarized, so that
    "covered by the marker in force" is said without the covered sequence the code stores. -/

namespace LunaCore.Chat
open LunaCore.Values LunaCore.Schemes

/-- What `ContextPolicy` says about compaction; both counts are token counts. -/
structure ContextPolicy where
  compactAt : Option ℕ
  compactMinGain : ℤ := 0

/-- The surroundings of one `_compact_if_due` call: the policy, the ledgered calls of the
    conversation (newest first: the message each wrote, its total tokens), the provider's token
    count and summary of a message list, the agent's model and the clock. -/
structure CompactionCall where
  policy : Option ContextPolicy
  usage : List (ℕ × ℕ)
  count : List Canonical → Option ℕ
  compact : List Canonical → Option Json
  model : String
  now : String

/-- `_media_counts`, one row: an earlier compaction resets the counts to the ones it carries. -/
def countMedia (counts : MediaCounts) (row : ConversationMessage) : MediaCounts :=
  match compactionBlock (canonical row) with
  | some earlier => earlier.media
  | none =>
    if row.role = .user then
      row.content.foldl (fun acc block => match block with
        | .media .image _ => { acc with image := acc.image + 1 }
        | .media .video _ => { acc with video := acc.video + 1 }
        | _ => acc) counts
    else counts

/-- `_media_counts`. -/
def mediaCounts (rows : List ConversationMessage) : MediaCounts :=
  rows.foldl countMedia ⟨0, 0⟩

/-- The row carries a compaction block. -/
def isMarker (row : ConversationMessage) : Bool := (compactionBlock (canonical row)).isSome

/-- The latest final row that carries a compaction block. -/
def markerInForce (rows : List ConversationMessage) : Option ConversationMessage :=
  ((orderBySequence rows).filter fun row => !row.isPartial).reverse.find? isMarker

/-- `int(block.get("compacted_through_sequence") or 0)` of a marker. -/
def compactedThrough (marker : ConversationMessage) : ℕ :=
  ((compactionBlock (canonical marker)).bind CompactionBlock.compactedThroughSequence).getD 0

/-- `_history_rows`: the stored turns the model is sent. -/
def historyRows (table : List ConversationMessage) : List ConversationMessage :=
  let rows := (orderBySequence table).filter fun row => !row.isPartial
  match markerInForce table with
  | none => rows
  | some marker =>
    marker :: rows.filter fun row =>
      decide (compactedThrough marker < row.sequence) && decide (row.sequence ≠ marker.sequence) &&
        !isMarker row

/-- `_last_call_tokens`: only calls since the marker measure the history as it is now. -/
def lastCallTokens (usage : List (ℕ × ℕ)) (rows : List ConversationMessage) : ℕ :=
  let since := match rows.head? with
    | some first => if isMarker first then first.sequence else 0
    | none => 0
  let ids := (rows.filter fun row => row.role = .assistant && decide (since < row.sequence)).map
    ConversationMessage.sequence
  ((usage.find? fun call => ids.contains call.1).map Prod.snd).getD 0

/-- The rows a compaction of `rows` summarizes: all, or all but a last reply. -/
def summarizedRows (rows : List ConversationMessage) : List ConversationMessage :=
  if (rows.getLast?.map ConversationMessage.role) = some .assistant then rows.dropLast else rows

/-- The rows it keeps after the marker, `rows[len(summarized):]`. -/
def keptRows (rows : List ConversationMessage) : List ConversationMessage :=
  rows.drop (summarizedRows rows).length

/-- The counted call is under the size, or compacting would spare too little. -/
def skipCompaction (compactAt : ℕ) (minGain : ℤ) (whole compacted : Option ℕ) : Bool :=
  match whole with
  | none => false
  | some whole =>
    decide (whole < compactAt) || match compacted with
      | none => false
      | some compacted => decide ((whole : ℤ) - (compacted : ℤ) < minGain)

/-- `_compact_if_due`: the rows this turn runs over, and the marker it stored, if it did. -/
def compactIfDue (call : CompactionCall) (nextSequence : ℕ) (rows : List ConversationMessage) :
    List ConversationMessage × Option ConversationMessage :=
  match call.policy with
  | none => (rows, none)
  | some policy =>
    match policy.compactAt with
    | none => (rows, none)
    | some compactAt =>
      if compactAt = 0 ∨ rows.length < 3 then (rows, none)
      else if lastCallTokens call.usage rows < compactAt then (rows, none)
      else if skipCompaction compactAt policy.compactMinGain (call.count (rows.map canonical))
          (call.count ((keptRows rows).map canonical)) then (rows, none)
      else match call.compact ((summarizedRows rows).map canonical) with
        | none => (rows, none)
        | some native =>
          let block : CompactionBlock :=
            { native := native
              model := call.model
              media := mediaCounts (summarizedRows rows)
              compactedThroughSequence :=
                (summarizedRows rows).getLast?.map ConversationMessage.sequence
              recordedAt := call.now }
          let marker : ConversationMessage :=
            { sequence := nextSequence, role := .system, content := [.compaction block],
              isPartial := false }
          (marker :: keptRows rows, some marker)

/-- What a compaction summarized, under the marker it stored (ghost). -/
structure Summary where
  marker : ℕ
  summarized : List ConversationMessage

/-- A conversation's table; `storedFinal` and `summaries` are ghosts: the sequences stored
    non-partial, and the compactions so far. -/
structure Conversation where
  rows : List ConversationMessage
  storedFinal : List ℕ
  summaries : List Summary

/-- `create_conversation`. -/
def Conversation.created : Conversation := ⟨[], [], []⟩

/-- What writes rows while the turn lock is held. -/
inductive RowAction where
  | saveMessage (role : Role) (content : List Block) (isPartial : Bool)
  | finalizePartialMessages
  | compactIfDue (call : CompactionCall)

/-- Store one row under the next sequence. -/
def Conversation.store (c : Conversation) (row : ConversationMessage) : Conversation :=
  { c with
    rows := c.rows ++ [row]
    storedFinal := if row.isPartial then c.storedFinal else row.sequence :: c.storedFinal }

/-- `_compact_if_due` on the stored conversation: the marker, if any, becomes a row. -/
def Conversation.compact (c : Conversation) (call : CompactionCall) : Conversation :=
  match (Chat.compactIfDue call (nextMessageSequence c.rows) (historyRows c.rows)).2 with
  | none => c
  | some marker =>
    { c.store marker with
      summaries := ⟨marker.sequence, summarizedRows (historyRows c.rows)⟩ :: c.summaries }

/-- `is_partial = False` on a row. -/
def promote (row : ConversationMessage) : ConversationMessage := { row with isPartial := false }

/-- One committed write. Nothing but `_compact_if_due` writes a compaction block. -/
def rowStep (c : Conversation) : RowAction → Option Conversation
  | .saveMessage role content isPartial =>
    if (compactionBlock (role, content)).isSome then none
    else some (c.store ⟨nextMessageSequence c.rows, role, content, isPartial⟩)
  | .finalizePartialMessages => some { c with rows := c.rows.map promote }
  | .compactIfDue call => some (c.compact call)

/-- `row` lies in the span the marker covers: summarized by it, or by a marker it summarized. -/
inductive Covered (summaries : List Summary) : ℕ → ℕ → Prop
  | direct {s : Summary} {row : ConversationMessage} (hs : s ∈ summaries)
      (hrow : row ∈ s.summarized) : Covered summaries s.marker row.sequence
  | through {s : Summary} {earlier : ConversationMessage} {row : ℕ} (hs : s ∈ summaries)
      (hearlier : earlier ∈ s.summarized) (hrow : Covered summaries earlier.sequence row) :
      Covered summaries s.marker row

/-! ### What is sent, on an ordered table -/

/-- The sequence the marker in force covers up to. -/
def coveredThrough (rows : List ConversationMessage) : ℕ :=
  ((markerInForce rows).map compactedThrough).getD 0

/-- The final rows above a sequence that are no markers. -/
def sentRows (through : ℕ) (rows : List ConversationMessage) : List ConversationMessage :=
  rows.filter fun row => !row.isPartial && !isMarker row && decide (through < row.sequence)

/-- No marker is partial. -/
def MarkersFinal (rows : List ConversationMessage) : Prop :=
  ∀ row ∈ rows, isMarker row = true → row.isPartial = false

@[simp] theorem mem_sentRows {through : ℕ} {rows : List ConversationMessage}
    {row : ConversationMessage} : row ∈ sentRows through rows ↔
      row ∈ rows ∧ row.isPartial = false ∧ isMarker row = false ∧ through < row.sequence := by
  simp [sentRows, and_assoc]

theorem markerInForce_eq {rows : List ConversationMessage} (ho : Ordered rows)
    (hf : MarkersFinal rows) : markerInForce rows = rows.reverse.find? isMarker := by
  rw [markerInForce]
  rw [ho.orderBySequence_eq, ← List.filter_reverse, List.find?_filter, ← List.head?_filter,
    ← List.head?_filter]
  refine congrArg List.head? (List.filter_congr fun row hrow => ?_)
  cases hm : isMarker row with
  | false => simp
  | true => simp [hf row (List.mem_reverse.mp hrow) hm]

theorem markerInForce_mem {rows : List ConversationMessage} (ho : Ordered rows)
    (hf : MarkersFinal rows) {marker : ConversationMessage}
    (h : markerInForce rows = some marker) : marker ∈ rows ∧ isMarker marker = true := by
  rw [markerInForce_eq ho hf] at h
  exact ⟨List.mem_reverse.mp (List.mem_of_find?_eq_some h), List.find?_some h⟩

theorem markerInForce_none {rows : List ConversationMessage} (ho : Ordered rows)
    (hf : MarkersFinal rows) (h : markerInForce rows = none) :
    ∀ row ∈ rows, isMarker row = false := by
  rw [markerInForce_eq ho hf] at h
  intro row hrow
  simpa using List.find?_eq_none.mp h row (List.mem_reverse.mpr hrow)

/-- What the model is sent: the marker in force, then the final rows above what it covers. -/
theorem historyRows_eq {rows : List ConversationMessage} (ho : Ordered rows)
    (hf : MarkersFinal rows) :
    historyRows rows = (markerInForce rows).toList ++ sentRows (coveredThrough rows) rows := by
  rw [historyRows, coveredThrough]
  rw [ho.orderBySequence_eq]
  cases h : markerInForce rows with
  | none =>
    refine List.filter_congr fun row hrow => ?_
    simp [markerInForce_none ho hf h row hrow, ho.positive row hrow]
  | some marker =>
    obtain ⟨hmem, hmarker⟩ := markerInForce_mem ho hf h
    simp only [Option.toList_some, List.singleton_append, List.cons.injEq, true_and,
      List.filter_filter, sentRows, Option.map_some, Option.getD_some]
    refine List.filter_congr fun row hrow => ?_
    cases hrm : isMarker row with
    | true => simp
    | false =>
      have hne : row.sequence ≠ marker.sequence := fun heq => by
        rw [ho.eq_of_sequence hrow hmem heq] at hrm
        simp [hrm] at hmarker
      simp [hne, Bool.and_comm]

/-- A row behind the marker: covered by its sequence, or an earlier marker. -/
def Behind (marker row : ConversationMessage) : Prop :=
  row.sequence ≤ compactedThrough marker ∨
    isMarker row = true ∧ row.sequence ≠ marker.sequence

/-! ### One compaction -/

/-- A marker in front and at least two rows behind it split into what a compaction summarizes and
    what it keeps, and something behind the marker is always summarized. -/
theorem split_history {front sent : List ConversationMessage} (hfront : front.length ≤ 1)
    (hlen : 3 ≤ (front ++ sent).length) :
    ∃ init, init ≠ [] ∧ sent = init ++ keptRows (front ++ sent) ∧
      summarizedRows (front ++ sent) = front ++ init := by
  have hsent : 2 ≤ sent.length := by
    rw [List.length_append] at hlen
    omega
  have hne : sent ≠ [] := List.ne_nil_of_length_pos (by omega)
  rw [keptRows]
  by_cases hlast : (((front ++ sent).getLast?).map ConversationMessage.role) = some .assistant
  · have hsum : summarizedRows (front ++ sent) = front ++ sent.dropLast := by
      rw [summarizedRows, if_pos hlast, List.dropLast_append_of_ne_nil hne]
    refine ⟨sent.dropLast, ?_, ?_, hsum⟩
    · intro h
      have := congrArg List.length h
      rw [List.length_dropLast, List.length_nil] at this
      omega
    · rw [hsum, List.length_append, List.drop_append, List.drop_of_length_le (by omega),
        List.nil_append, Nat.add_sub_cancel_left]
      conv_lhs => rw [← List.take_append_drop sent.dropLast.length sent]
      rw [List.length_dropLast, ← List.dropLast_eq_take]
  · have hsum : summarizedRows (front ++ sent) = front ++ sent := by
      rw [summarizedRows, if_neg hlast]
    exact ⟨sent, hne, by simp [hsum], hsum⟩

/-- `compactIfDue` leaves the rows as they are, or puts a new marker, which covers up to the last
    summarized row, before the kept ones. -/
theorem compactIfDue_cases (call : CompactionCall) (next : ℕ) (rows : List ConversationMessage) :
    compactIfDue call next rows = (rows, none) ∨
      ∃ marker, compactIfDue call next rows = (marker :: keptRows rows, some marker) ∧
        3 ≤ rows.length ∧ marker.sequence = next ∧ marker.isPartial = false ∧
        isMarker marker = true ∧ compactedThrough marker =
          ((summarizedRows rows).getLast?.map ConversationMessage.sequence).getD 0 := by
  rw [compactIfDue]
  split
  · exact .inl rfl
  · split
    · exact .inl rfl
    · split_ifs with h₁ h₂ h₃
      · exact .inl rfl
      · exact .inl rfl
      · exact .inl rfl
      · split
        · exact .inl rfl
        · exact .inr ⟨_, rfl, by omega, rfl, rfl, rfl, rfl⟩

/-! ### The invariant of a conversation -/

/-- What holds of the table and the ghost log at all times: rows summarized so far are final, stand
    before their marker and stay behind the marker in force, which covers whatever is behind it. -/
structure Valid (c : Conversation) : Prop where
  ordered : Ordered c.rows
  markersFinal : MarkersFinal c.rows
  final : ∀ q ∈ c.storedFinal, ∃ row ∈ c.rows, row.sequence = q ∧ row.isPartial = false
  known : ∀ s ∈ c.summaries, ∀ row ∈ s.summarized,
    row ∈ c.rows ∧ row.isPartial = false ∧ row.sequence < s.marker
  unmarked : markerInForce c.rows = none → c.summaries = []
  before : ∀ marker, markerInForce c.rows = some marker →
    compactedThrough marker < marker.sequence
  behind : ∀ marker, markerInForce c.rows = some marker →
    ∀ s ∈ c.summaries, ∀ row ∈ s.summarized, Behind marker row
  covers : ∀ marker, markerInForce c.rows = some marker →
    ∀ row ∈ c.rows, row.sequence ∈ c.storedFinal → Behind marker row →
      Covered c.summaries marker.sequence row.sequence

theorem valid_created : Valid .created where
  ordered := .nil
  markersFinal := by simp [MarkersFinal, Conversation.created]
  final := by simp [Conversation.created]
  known := by simp [Conversation.created]
  unmarked := fun _ => rfl
  before := by simp [Conversation.created, markerInForce, orderBySequence]
  behind := by simp [Conversation.created]
  covers := by simp [Conversation.created]

/-- Whatever is covered was summarized by some compaction. -/
theorem Covered.summarized {summaries : List Summary} {marker row : ℕ}
    (h : Covered summaries marker row) :
    ∃ s ∈ summaries, ∃ r ∈ s.summarized, r.sequence = row := by
  induction h with
  | direct hs hrow => exact ⟨_, hs, _, hrow, rfl⟩
  | through _ _ _ ih => exact ih

/-- A later compaction takes nothing out of what a marker covers. -/
theorem Covered.mono {summaries more : List Summary} {marker row : ℕ}
    (hsub : ∀ s ∈ summaries, s ∈ more) (h : Covered summaries marker row) :
    Covered more marker row := by
  induction h with
  | direct hs hrow => exact .direct (hsub _ hs) hrow
  | through hs hearlier _ ih => exact .through (hsub _ hs) hearlier ih

theorem markerInForce_append {rows : List ConversationMessage} {row : ConversationMessage}
    (ho : Ordered (rows ++ [row])) (hf : MarkersFinal (rows ++ [row])) :
    markerInForce (rows ++ [row]) =
      if isMarker row then some row else rows.reverse.find? isMarker := by
  rw [markerInForce_eq ho hf, List.reverse_append]
  cases h : isMarker row <;> simp [h]

/-- A row stored non-partial is final. -/
theorem Valid.isFinal {c : Conversation} (hc : Valid c) {row : ConversationMessage}
    (hrow : row ∈ c.rows) (hstored : row.sequence ∈ c.storedFinal) : row.isPartial = false := by
  obtain ⟨r, hr, hseq, hfinal⟩ := hc.final _ hstored
  rwa [hc.ordered.eq_of_sequence hr hrow hseq] at hfinal

/-- A row of the table that is final once a new row is stored was so before. -/
theorem Conversation.storedFinal_of_store {c : Conversation} {row r : ConversationMessage}
    (hlt : r.sequence < row.sequence) (h : r.sequence ∈ (c.store row).storedFinal) :
    r.sequence ∈ c.storedFinal := by
  simp only [Conversation.store] at h
  split at h
  · exact h
  · exact (List.mem_cons.mp h).resolve_left (ne_of_lt hlt)

/-- Storing a row keeps the stored sequences those of final rows. -/
theorem Valid.final_store {c : Conversation} (hc : Valid c) (row : ConversationMessage) :
    ∀ q ∈ (c.store row).storedFinal,
      ∃ r ∈ (c.store row).rows, r.sequence = q ∧ r.isPartial = false := by
  intro q hq
  have hold : q ∈ c.storedFinal →
      ∃ r ∈ (c.store row).rows, r.sequence = q ∧ r.isPartial = false := by
    intro h
    obtain ⟨r, hr, hrest⟩ := hc.final q h
    exact ⟨r, List.mem_append_left _ hr, hrest⟩
  simp only [Conversation.store] at hq
  split at hq
  · exact hold hq
  · rename_i hfinal
    rcases List.mem_cons.mp hq with rfl | hq
    · exact ⟨row, List.mem_append_right _ (List.mem_singleton_self _), rfl, by simpa using hfinal⟩
    · exact hold hq

/-- Storing a row that is no marker preserves the invariant. -/
theorem valid_store {c : Conversation} (hc : Valid c) {row : ConversationMessage}
    (hseq : row.sequence = nextMessageSequence c.rows) (hrow : isMarker row = false) :
    Valid (c.store row) := by
  have hlt : ∀ r ∈ c.rows, r.sequence < row.sequence := fun r hr =>
    hseq ▸ lt_nextMessageSequence hr
  have hordered : Ordered (c.rows ++ [row]) := hc.ordered.append hseq
  have hmarkers : MarkersFinal (c.rows ++ [row]) := by
    intro r hr hm
    rcases List.mem_append.mp hr with hr | hr
    · exact hc.markersFinal r hr hm
    · simp [List.mem_singleton.mp hr, hrow] at hm
  have hforce : markerInForce (c.rows ++ [row]) = markerInForce c.rows := by
    rw [markerInForce_append hordered hmarkers, markerInForce_eq hc.ordered hc.markersFinal]
    simp [hrow]
  refine
    { ordered := hordered
      markersFinal := hmarkers
      final := hc.final_store row
      known := fun s hs r hr => ?_
      unmarked := fun h => hc.unmarked (hforce ▸ h)
      before := fun m hm => hc.before m (hforce ▸ hm)
      behind := fun m hm => hc.behind m (hforce ▸ hm)
      covers := ?_ }
  · obtain ⟨hmem, hrest⟩ := hc.known s hs r hr
    exact ⟨List.mem_append_left _ hmem, hrest⟩
  · intro m hm r hr hmem hbehind
    have hm' : markerInForce c.rows = some m := hforce ▸ hm
    rcases List.mem_append.mp hr with hr | hr
    · exact hc.covers m hm' r hr (c.storedFinal_of_store (hlt r hr) hmem) hbehind
    · -- the new row is above every marker and is none itself
      rw [List.mem_singleton.mp hr] at hbehind
      have hlow := hc.before m hm'
      have hmem' := hlt m (markerInForce_mem hc.ordered hc.markersFinal hm').1
      rcases hbehind with h | ⟨h, _⟩
      · omega
      · simp [hrow] at h

theorem promote_final {row : ConversationMessage} (h : row.isPartial = false) :
    promote row = row := by
  cases row
  simp_all [promote]

/-- Promoting the partial rows preserves the invariant: none of them is a marker. -/
theorem valid_promote {c : Conversation} (hc : Valid c) :
    Valid { c with rows := c.rows.map promote } := by
  have hordered : Ordered (c.rows.map promote) :=
    ⟨List.pairwise_map.mpr hc.ordered.increasing, by
      intro r hr
      obtain ⟨r₀, hr₀, rfl⟩ := List.mem_map.mp hr
      exact hc.ordered.positive r₀ hr₀⟩
  have hmarkers : MarkersFinal (c.rows.map promote) := by
    intro r hr _
    obtain ⟨r₀, _, rfl⟩ := List.mem_map.mp hr
    rfl
  have hkeep : ∀ r ∈ c.rows, r.isPartial = false → r ∈ c.rows.map promote := fun r hr hp =>
    List.mem_map.mpr ⟨r, hr, promote_final hp⟩
  have hforce : markerInForce (c.rows.map promote) = markerInForce c.rows := by
    rw [markerInForce_eq hordered hmarkers, markerInForce_eq hc.ordered hc.markersFinal,
      ← List.map_reverse, List.find?_map]
    change (c.rows.reverse.find? isMarker).map promote = _
    cases h : c.rows.reverse.find? isMarker with
    | none => rfl
    | some m =>
      have hm : m ∈ c.rows := List.mem_reverse.mp (List.mem_of_find?_eq_some h)
      rw [Option.map_some, promote_final (hc.markersFinal m hm (List.find?_some h))]
  refine
    { ordered := hordered
      markersFinal := hmarkers
      final := fun q hq => ?_
      known := fun s hs r hr => ?_
      unmarked := fun h => hc.unmarked (hforce ▸ h)
      before := fun m hm => hc.before m (hforce ▸ hm)
      behind := fun m hm => hc.behind m (hforce ▸ hm)
      covers := fun m hm r hr hmem hbehind => ?_ }
  · obtain ⟨r, hr, hseq, hp⟩ := hc.final q hq
    exact ⟨r, hkeep r hr hp, hseq, hp⟩
  · obtain ⟨hmem, hp, hlt⟩ := hc.known s hs r hr
    exact ⟨hkeep r hmem hp, hp, hlt⟩
  · obtain ⟨r₀, hr₀, rfl⟩ := List.mem_map.mp hr
    exact hc.covers m (hforce ▸ hm) r₀ hr₀ hmem hbehind

/-! ### Compacting preserves the invariant -/

/-- Where a compaction that stored a marker found the conversation: the rows sent behind the old
    marker split into the summarized `init` and the kept rest, on the two sides of what the new
    marker covers. -/
structure Cut (c : Conversation) (marker : ConversationMessage)
    (init : List ConversationMessage) : Prop where
  fresh : marker.sequence = nextMessageSequence c.rows
  marks : isMarker marker = true
  final : marker.isPartial = false
  sent : sentRows (coveredThrough c.rows) c.rows = init ++ keptRows (historyRows c.rows)
  summarized : summarizedRows (historyRows c.rows) = (markerInForce c.rows).toList ++ init
  covered : ∀ row ∈ init, row.sequence ≤ compactedThrough marker
  kept : ∀ row ∈ keptRows (historyRows c.rows), compactedThrough marker < row.sequence
  above : coveredThrough c.rows < compactedThrough marker
  below : compactedThrough marker < marker.sequence

theorem compact_cut {c : Conversation} (hc : Valid c) {call : CompactionCall}
    {marker : ConversationMessage}
    (h : (compactIfDue call (nextMessageSequence c.rows) (historyRows c.rows)).2 = some marker) :
    ∃ init, Cut c marker init := by
  obtain hsame | ⟨m, heq, hlen, hseq, hfinal, hmarker, hthrough⟩ :=
    compactIfDue_cases call (nextMessageSequence c.rows) (historyRows c.rows)
  · simp [hsame] at h
  · obtain rfl : m = marker := by simpa [heq] using h
    have hhist := historyRows_eq hc.ordered hc.markersFinal
    rw [hhist] at hlen
    obtain ⟨init, hne, hsent, hsum⟩ := split_history (by cases markerInForce c.rows <;> simp) hlen
    rw [← hhist] at hsent hsum
    -- the last summarized row is the last of `init`
    have hlast : compactedThrough m = (init.getLast hne).sequence := by
      rw [hthrough, hsum, List.getLast?_append_of_ne_nil _ hne, List.getLast?_eq_some_getLast hne]
      rfl
    have hinc : (init ++ keptRows (historyRows c.rows)).Pairwise
        fun a b => a.sequence < b.sequence := hsent ▸ hc.ordered.increasing.filter _
    have hmem : init.getLast hne ∈ sentRows (coveredThrough c.rows) c.rows := by
      rw [hsent]
      exact List.mem_append_left _ (List.getLast_mem hne)
    obtain ⟨hrow, _, _, habove⟩ := mem_sentRows.mp hmem
    refine ⟨init,
      { fresh := hseq
        marks := hmarker
        final := hfinal
        sent := hsent
        summarized := hsum
        covered := fun row hr => ?_
        kept := fun row hr => ?_
        above := hlast ▸ habove
        below := ?_ }⟩
    · rw [hlast]
      have hinit := (List.pairwise_append.mp hinc).1
      rw [← List.dropLast_append_getLast hne] at hinit hr
      rcases List.mem_append.mp hr with hr | hr
      · exact le_of_lt ((List.pairwise_append.mp hinit).2.2 row hr _ (List.mem_singleton_self _))
      · rw [List.mem_singleton.mp hr]
    · rw [hlast]
      exact (List.pairwise_append.mp hinc).2.2 _ (List.getLast_mem hne) row hr
    · rw [hlast, hseq]
      exact lt_nextMessageSequence hrow

namespace Cut

variable {c : Conversation} {marker : ConversationMessage} {init : List ConversationMessage}

theorem lt_marker (cut : Cut c marker init) {row : ConversationMessage} (h : row ∈ c.rows) :
    row.sequence < marker.sequence := cut.fresh ▸ lt_nextMessageSequence h

theorem ordered (cut : Cut c marker init) (hc : Valid c) : Ordered (c.rows ++ [marker]) :=
  hc.ordered.append cut.fresh

theorem markersFinal (cut : Cut c marker init) (hc : Valid c) :
    MarkersFinal (c.rows ++ [marker]) := by
  intro row hrow hm
  rcases List.mem_append.mp hrow with hrow | hrow
  · exact hc.markersFinal row hrow hm
  · rw [List.mem_singleton.mp hrow]
    exact cut.final

/-- The new marker is the one in force. -/
theorem inForce (cut : Cut c marker init) (hc : Valid c) :
    markerInForce (c.rows ++ [marker]) = some marker := by
  rw [markerInForce_append (cut.ordered hc) (cut.markersFinal hc), if_pos cut.marks]

/-- The summarized rows are final rows of the table. -/
theorem mem_rows (cut : Cut c marker init) (hc : Valid c) {row : ConversationMessage}
    (h : row ∈ summarizedRows (historyRows c.rows)) : row ∈ c.rows ∧ row.isPartial = false := by
  rw [cut.summarized] at h
  rcases List.mem_append.mp h with h | h
  · have hm := markerInForce_mem hc.ordered hc.markersFinal (Option.mem_toList.mp h)
    exact ⟨hm.1, hc.markersFinal row hm.1 hm.2⟩
  · have hs : row ∈ sentRows (coveredThrough c.rows) c.rows := by
      rw [cut.sent]
      exact List.mem_append_left _ h
    exact ⟨(mem_sentRows.mp hs).1, (mem_sentRows.mp hs).2.1⟩

/-- The summarized rows are behind the new marker: the old marker, and the rows of `init`. -/
theorem behind_of_summarized (cut : Cut c marker init) (hc : Valid c) {row : ConversationMessage}
    (h : row ∈ summarizedRows (historyRows c.rows)) : Behind marker row := by
  have hlt := cut.lt_marker (cut.mem_rows hc h).1
  rw [cut.summarized] at h
  rcases List.mem_append.mp h with h | h
  · have hm := markerInForce_mem hc.ordered hc.markersFinal (Option.mem_toList.mp h)
    exact .inr ⟨hm.2, ne_of_lt hlt⟩
  · exact .inl (cut.covered row h)

/-- What was behind the old marker is behind the new one. -/
theorem behind_of_behind (cut : Cut c marker init) {old row : ConversationMessage}
    (hold : markerInForce c.rows = some old) (hrow : row ∈ c.rows) (h : Behind old row) :
    Behind marker row := by
  have habove : compactedThrough old < compactedThrough marker := by
    have := cut.above
    rwa [coveredThrough, hold] at this
  rcases h with h | ⟨h, _⟩
  · exact .inl (le_trans h (le_of_lt habove))
  · exact .inr ⟨h, ne_of_lt (cut.lt_marker hrow)⟩

/-- A final row behind the new marker was summarized now, or was behind the old marker. -/
theorem summarized_or_behind (cut : Cut c marker init) (hc : Valid c) {row : ConversationMessage}
    (hrow : row ∈ c.rows) (hfinal : row.isPartial = false) (h : Behind marker row) :
    row ∈ summarizedRows (historyRows c.rows) ∨
      ∃ old, markerInForce c.rows = some old ∧ Behind old row := by
  by_cases hm : isMarker row = true
  · cases hold : markerInForce c.rows with
    | none => simp [markerInForce_none hc.ordered hc.markersFinal hold row hrow] at hm
    | some old =>
      by_cases heq : row = old
      · refine .inl ?_
        rw [cut.summarized, hold, heq]
        exact List.mem_append_left _ (by simp)
      · have hmem := (markerInForce_mem hc.ordered hc.markersFinal hold).1
        exact .inr ⟨old, rfl, .inr ⟨hm, fun hs => heq (hc.ordered.eq_of_sequence hrow hmem hs)⟩⟩
  · rw [Bool.not_eq_true] at hm
    have hle : row.sequence ≤ compactedThrough marker := by
      rcases h with h | ⟨h, _⟩
      · exact h
      · simp [hm] at h
    by_cases hlow : coveredThrough c.rows < row.sequence
    · -- sent until now, and not kept
      have hs : row ∈ init ++ keptRows (historyRows c.rows) :=
        cut.sent ▸ mem_sentRows.mpr ⟨hrow, hfinal, hm, hlow⟩
      refine .inl ?_
      rw [cut.summarized]
      rcases List.mem_append.mp hs with hs | hs
      · exact List.mem_append_right _ hs
      · have := cut.kept row hs
        omega
    · cases hold : markerInForce c.rows with
      | none =>
        have := hc.ordered.positive row hrow
        rw [coveredThrough, hold, Option.map_none, Option.getD_none] at hlow
        omega
      | some old =>
        rw [coveredThrough, hold, Option.map_some, Option.getD_some] at hlow
        exact .inr ⟨old, rfl, .inl (not_lt.mp hlow)⟩

/-- Reading the history back after the compaction gives the marker and the kept rows. -/
theorem readback (cut : Cut c marker init) (hc : Valid c) :
    historyRows (c.rows ++ [marker]) = marker :: keptRows (historyRows c.rows) := by
  have hsent : sentRows (compactedThrough marker) (c.rows ++ [marker]) =
      keptRows (historyRows c.rows) := by
    have hmono : sentRows (compactedThrough marker) c.rows =
        (sentRows (coveredThrough c.rows) c.rows).filter
          fun row => decide (compactedThrough marker < row.sequence) := by
      rw [sentRows, sentRows, List.filter_filter]
      refine List.filter_congr fun row _ => ?_
      have habove := cut.above
      by_cases hlt : compactedThrough marker < row.sequence
      · simp [hlt, lt_trans habove hlt]
      · simp [hlt]
    have hinit : init.filter (fun row => decide (compactedThrough marker < row.sequence)) = [] :=
      List.filter_eq_nil_iff.mpr fun row hrow => by simpa using cut.covered row hrow
    have hkept : (keptRows (historyRows c.rows)).filter
        (fun row => decide (compactedThrough marker < row.sequence)) =
          keptRows (historyRows c.rows) :=
      List.filter_eq_self.mpr fun row hrow => by simpa using cut.kept row hrow
    have hnew : sentRows (compactedThrough marker) [marker] = [] := by
      simp [sentRows, cut.marks]
    calc sentRows (compactedThrough marker) (c.rows ++ [marker])
        = sentRows (compactedThrough marker) c.rows ++
            sentRows (compactedThrough marker) [marker] := List.filter_append _ _
      _ = keptRows (historyRows c.rows) := by
          rw [hnew, List.append_nil, hmono, cut.sent, List.filter_append, hinit, hkept,
            List.nil_append]
  rw [historyRows_eq (cut.ordered hc) (cut.markersFinal hc), coveredThrough, cut.inForce hc,
    Option.map_some, Option.getD_some, hsent]
  rfl

end Cut

/-- Storing the marker of a compaction preserves the invariant. -/
theorem valid_marker {c : Conversation} (hc : Valid c) {marker : ConversationMessage}
    {init : List ConversationMessage} (cut : Cut c marker init) :
    Valid { c.store marker with
      summaries := ⟨marker.sequence, summarizedRows (historyRows c.rows)⟩ :: c.summaries } := by
  have hrows : (c.store marker).rows = c.rows ++ [marker] := rfl
  refine
    { ordered := cut.ordered hc
      markersFinal := cut.markersFinal hc
      final := hc.final_store marker
      known := fun s hs row hrow => ?_
      unmarked := fun h => ?_
      before := fun m hm => ?_
      behind := fun m hm s hs row hrow => ?_
      covers := fun m hm row hrow hstored hbehind => ?_ }
  · rcases List.mem_cons.mp hs with rfl | hs
    · obtain ⟨hmem, hfinal⟩ := cut.mem_rows hc hrow
      exact ⟨List.mem_append_left _ hmem, hfinal, cut.lt_marker hmem⟩
    · obtain ⟨hmem, hrest⟩ := hc.known s hs row hrow
      exact ⟨List.mem_append_left _ hmem, hrest⟩
  · simp only [hrows, cut.inForce hc, reduceCtorEq] at h
  · obtain rfl : marker = m := by simpa only [hrows, cut.inForce hc, Option.some.injEq] using hm
    exact cut.below
  · obtain rfl : marker = m := by simpa only [hrows, cut.inForce hc, Option.some.injEq] using hm
    rcases List.mem_cons.mp hs with rfl | hs
    · exact cut.behind_of_summarized hc hrow
    · cases hold : markerInForce c.rows with
      | none => simp [hc.unmarked hold] at hs
      | some old =>
        exact cut.behind_of_behind hold (hc.known s hs row hrow).1 (hc.behind old hold s hs row hrow)
  · obtain rfl : marker = m := by simpa only [hrows, cut.inForce hc, Option.some.injEq] using hm
    rcases List.mem_append.mp hrow with hrow | hrow
    · have hstored' := c.storedFinal_of_store (cut.lt_marker hrow) hstored
      obtain hsum | ⟨old, hold, hb⟩ :=
        cut.summarized_or_behind hc hrow (hc.isFinal hrow hstored') hbehind
      · exact .direct (s := ⟨marker.sequence, summarizedRows (historyRows c.rows)⟩)
          List.mem_cons_self hsum
      · -- covered by the old marker, which this compaction summarized
        have hcov : Covered (⟨marker.sequence, summarizedRows (historyRows c.rows)⟩ :: c.summaries)
            old.sequence row.sequence :=
          (hc.covers old hold row hrow hstored' hb).mono fun s hs => List.mem_cons_of_mem _ hs
        refine .through (s := ⟨marker.sequence, summarizedRows (historyRows c.rows)⟩)
          List.mem_cons_self ?_ hcov
        rw [cut.summarized, hold]
        exact List.mem_append_left _ (by simp)
    · rw [List.mem_singleton.mp hrow] at hbehind
      rcases hbehind with h | ⟨_, h⟩
      · exact absurd h (not_le.mpr cut.below)
      · exact absurd rfl h

/-- The step preserves the invariant. -/
theorem valid_rowStep {c d : Conversation} {a : RowAction} (hc : Valid c)
    (h : rowStep c a = some d) : Valid d := by
  cases a with
  | saveMessage role content isPartial =>
    simp only [rowStep] at h
    split at h
    · simp at h
    · rename_i hm
      obtain rfl := Option.some.inj h
      exact valid_store hc rfl (by simpa [isMarker, canonical] using hm)
  | finalizePartialMessages =>
    obtain rfl := Option.some.inj h
    exact valid_promote hc
  | compactIfDue call =>
    obtain rfl := Option.some.inj h
    rw [Conversation.compact]
    split
    · exact hc
    · rename_i marker hm
      obtain ⟨init, cut⟩ := compact_cut hc hm
      exact valid_marker hc cut

/-- Every conversation that runs of writes reach is valid. -/
theorem valid_run {as : List RowAction} {c : Conversation}
    (h : runFrom rowStep .created as = some c) : Valid c :=
  inv_run (fun _ _ _ hv hs => valid_rowStep hv hs) valid_created h

/-! ### Every stored row is sent or covered, and never both -/

/-- `_compact_if_due` returns what `_history_rows` reads back afterwards. -/
theorem compactIfDue_readback {c : Conversation} (hc : Valid c) (call : CompactionCall) :
    (compactIfDue call (nextMessageSequence c.rows) (historyRows c.rows)).1 =
      historyRows (c.compact call).rows := by
  rw [Conversation.compact]
  obtain hsame | ⟨marker, heq, -⟩ :=
    compactIfDue_cases call (nextMessageSequence c.rows) (historyRows c.rows)
  · simp [hsame]
  · obtain ⟨init, cut⟩ := compact_cut hc (show (Chat.compactIfDue call _ _).2 = some marker by rw [heq])
    simp only [heq]
    exact (cut.readback hc).symm

/-- The row is covered by the marker in force. -/
def CoveredNow (c : Conversation) (row : ConversationMessage) : Prop :=
  ∃ marker, markerInForce c.rows = some marker ∧
    Covered c.summaries marker.sequence row.sequence

/-- A covered row stands behind the marker in force. -/
theorem behind_of_coveredNow {c : Conversation} (hc : Valid c) {row : ConversationMessage}
    (hrow : row ∈ c.rows) (h : CoveredNow c row) :
    ∃ marker, markerInForce c.rows = some marker ∧ Behind marker row := by
  obtain ⟨marker, hm, hcov⟩ := h
  obtain ⟨s, hs, r, hr, hseq⟩ := hcov.summarized
  have hmem := (hc.known s hs r hr).1
  rw [hc.ordered.eq_of_sequence hmem hrow hseq] at hr
  exact ⟨marker, hm, hc.behind marker hm s hs row hr⟩

/-- A row stored final is sent exactly when the marker in force does not cover it. -/
theorem sent_iff_not_covered {c : Conversation} (hc : Valid c) {row : ConversationMessage}
    (hrow : row ∈ c.rows) (hstored : row.sequence ∈ c.storedFinal) :
    row ∈ historyRows c.rows ↔ ¬ CoveredNow c row := by
  have hfinal := hc.isFinal hrow hstored
  rw [historyRows_eq hc.ordered hc.markersFinal]
  constructor
  · intro hsent hcov
    obtain ⟨marker, hm, hbehind⟩ := behind_of_coveredNow hc hrow hcov
    rw [coveredThrough, hm, Option.map_some, Option.getD_some, Option.toList_some] at hsent
    rcases List.mem_append.mp hsent with h | h
    · obtain rfl := List.mem_singleton.mp h
      rcases hbehind with h | ⟨_, h⟩
      · exact absurd h (not_le.mpr (hc.before row hm))
      · exact h rfl
    · obtain ⟨-, -, hnot, hlt⟩ := mem_sentRows.mp h
      rcases hbehind with h | ⟨h, _⟩
      · omega
      · simp [hnot] at h
  · intro hnot
    cases hm : markerInForce c.rows with
    | none =>
      refine List.mem_append_right _ (mem_sentRows.mpr ⟨hrow, hfinal, ?_, ?_⟩)
      · exact markerInForce_none hc.ordered hc.markersFinal hm row hrow
      · simpa [coveredThrough, hm] using hc.ordered.positive row hrow
    | some marker =>
      have hfree : ¬ Behind marker row := fun hb =>
        hnot ⟨marker, hm, hc.covers marker hm row hrow hstored hb⟩
      have hmarker := (markerInForce_mem hc.ordered hc.markersFinal hm).1
      by_cases heq : row.sequence = marker.sequence
      · rw [hc.ordered.eq_of_sequence hrow hmarker heq]
        exact List.mem_append_left _ (by simp)
      · obtain ⟨hlt, hplain⟩ := not_or.mp hfree
        refine List.mem_append_right _ (mem_sentRows.mpr ⟨hrow, hfinal, ?_, ?_⟩)
        · simpa [heq] using hplain
        · simpa [coveredThrough, hm] using hlt

theorem historyRows_nodup {c : Conversation} (hc : Valid c) : (historyRows c.rows).Nodup := by
  have hnodup : c.rows.Nodup := hc.ordered.increasing.imp fun hab heq => by
    rw [heq] at hab
    exact lt_irrefl _ hab
  rw [historyRows_eq hc.ordered hc.markersFinal]
  refine List.nodup_append.mpr ⟨by cases markerInForce c.rows <;> simp, hnodup.filter _, ?_⟩
  rintro marker hm row hrow rfl
  have hmarker := (markerInForce_mem hc.ordered hc.markersFinal (Option.mem_toList.mp hm)).2
  simp [(mem_sentRows.mp hrow).2.2.1] at hmarker

/-- CORRECT: after any run of stored messages and compactions, compacting returns what is read back
    afterwards; the history is the marker in force and then stored rows in sequence order, none
    twice; and every row stored non-partial is still there, sent or covered but not both. -/
theorem every_row_accounted_once {as : List RowAction} {c : Conversation}
    (h : runFrom rowStep .created as = some c) :
    (∀ call, (compactIfDue call (nextMessageSequence c.rows) (historyRows c.rows)).1 =
      historyRows (c.compact call).rows) ∧
    (∃ sent, historyRows c.rows = (markerInForce c.rows).toList ++ sent ∧
      sent.Sublist c.rows ∧ sent.Pairwise fun a b => a.sequence < b.sequence) ∧
    (historyRows c.rows).Nodup ∧
    ∀ q ∈ c.storedFinal, ∃ row ∈ c.rows, row.sequence = q ∧
      (row ∈ historyRows c.rows ↔ ¬ CoveredNow c row) := by
  have hc := valid_run h
  refine ⟨compactIfDue_readback hc, ?_, historyRows_nodup hc, ?_⟩
  · exact ⟨_, historyRows_eq hc.ordered hc.markersFinal, List.filter_sublist,
      hc.ordered.increasing.filter _⟩
  · intro q hq
    obtain ⟨row, hrow, rfl, -⟩ := hc.final q hq
    exact ⟨row, hrow, rfl, sent_iff_not_covered hc hrow hq⟩

/-- A call that is due in both compactions below, and whose provider answers. -/
def dueCall : CompactionCall where
  policy := some { compactAt := some 10 }
  usage := [(8, 60), (5, 50)]
  count := fun messages => some (20 * messages.length)
  compact := fun _ => some (.str "summary")
  model := "m"
  now := "t"

/-- Two exchanges with an interrupted reply between, a compaction that keeps the last reply, a
    third exchange, the interrupted reply promoted, and a second compaction. -/
def compactedTwice : List RowAction :=
  [.saveMessage .user [.text "a"] false, .saveMessage .assistant [.text "b"] false,
    .saveMessage .user [.text "c"] false, .saveMessage .assistant [.text "d"] true,
    .saveMessage .assistant [.text "e"] false, .compactIfDue dueCall,
    .saveMessage .user [.text "f"] false, .saveMessage .assistant [.text "g"] false,
    .finalizePartialMessages, .compactIfDue dueCall]

theorem every_row_accounted_once_twice : ∃ c, runFrom rowStep .created compactedTwice = some c ∧
    (historyRows c.rows).map ConversationMessage.sequence = [9, 8] ∧
    ∀ q ∈ c.storedFinal, ∃ row ∈ c.rows, row.sequence = q ∧
      (row ∈ historyRows c.rows ↔ ¬ CoveredNow c row) :=
  ⟨_, rfl, by decide, (every_row_accounted_once
    (rfl : runFrom rowStep .created compactedTwice = some _)).2.2.2⟩

end LunaCore.Chat
