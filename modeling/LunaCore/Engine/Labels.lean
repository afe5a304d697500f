import LunaCore.Engine.History
import LunaCore.Providers.MediaLabels

/-! Does a label name the same attachment in every request?

        rows      u 🞏🞏   a   u 🞏   a   marker {3}   u 🞏
        stored      1 2        3                       4
        request                      marker {3}   a   u 🞏
                                                        4

    The host numbers the attachments of all user rows. A request shows the rows from the marker in
    force on, and its translator starts at the counts the marker carries. They are those of the rows
    the marker covers, through any number of compactions, so both number the same. -/

namespace LunaCore.Engine
open LunaCore.Values LunaCore.Chat LunaCore.Schemes LunaCore.Providers

/-- The attachments a row stores: those of a user row. -/
def rowAttached (row : ConversationMessage) : List Attachment :=
  if row.role = .user then attached row.content else []

/-- The attachments of all user messages stored, in sequence order. -/
def storedAttachments (rows : List ConversationMessage) : List Attachment :=
  (orderBySequence rows).flatMap rowAttached

/-- Each with the label of its index, from 1, among the attachments of its kind. -/
def hostLabels (as : List Attachment) : List (Attachment × String) :=
  as.mapIdx fun i a => (a, labelOf a.1 ((as.take (i + 1)).countP (·.1 = a.1)))

/-- The histories whose tokens a compaction may have counted. -/
def sized (s : Session) : SessionAction → List (List Canonical)
  | .send .. =>
    [loadHistory s.record.rows, (keptRows (historyRows s.record.rows)).map canonical]
  | _ => []

/-- A step takes no label back, and every request it makes, through whichever translator, shows the
    last of the labels there are, each with its attachment. -/
def LabelsAgree (s : Session) (a : SessionAction) (t : Session) : Prop :=
  hostLabels (storedAttachments s.record.rows) <+: hostLabels (storedAttachments t.record.rows) ∧
  ∀ history ∈ handed s a t ++ sized s a, ∀ imageUrls translator,
    (shownNotes imageUrls history translator).map Note.named <:+
      hostLabels (storedAttachments t.record.rows)

/-! ### Attachments of rows and of messages -/

/-- No attachment was passed yet. -/
def noLabels : MediaLabels := fun _ => 0

theorem hostLabels_eq (as : List Attachment) :
    hostLabels as = (tally Prod.fst noLabels as).map named := by
  rw [tally_eq_mapIdx, hostLabels]
  refine List.ext_getElem (by simp) fun i _ _ => ?_
  simp [named, noLabels]

example : hostLabels [(.image, "a"), (.video, "b"), (.image, "c")] =
    [((.image, "a"), "img-1"), ((.video, "b"), "vid-1"), ((.image, "c"), "img-2")] := by decide

theorem hostLabels_stay (as more : List Attachment) :
    hostLabels as <+: hostLabels (as ++ more) := by
  rw [hostLabels_eq, hostLabels_eq]
  exact (tally_stays as more).map named

/-- The messages show the last attachments, and start at the counts of the earlier ones. -/
def Aligned (as : List Attachment) (messages : List Canonical) : Prop :=
  ∃ earlier, as = earlier ++ messages.flatMap brought ∧
    MediaLabels.start messages = passed Prod.fst noLabels earlier

/-- What aligned messages show, through any translator, are the host's last labels. -/
theorem Aligned.shown {as : List Attachment} {messages : List Canonical} (h : Aligned as messages)
    (imageUrls : String → Option String) (translator : Translator) :
    (shownNotes imageUrls messages translator).map Note.named <:+ hostLabels as := by
  obtain ⟨earlier, rfl, hstart⟩ := h
  rw [shownNotes_named, hostLabels_eq, hstart]
  exact (tally_suffix earlier _).map named

/-- Messages without attachments show no label at all. -/
theorem shown_none {as : List Attachment} {messages : List Canonical}
    (h : messages.flatMap brought = []) (imageUrls : String → Option String)
    (translator : Translator) :
    (shownNotes imageUrls messages translator).map Note.named <:+ hostLabels as := by
  rw [shownNotes_named, h]
  exact List.nil_suffix

/-- A message that is no compaction starts the labels nowhere. -/
theorem start_concat {messages : List Canonical} {msg : Canonical}
    (h : compactionBlock msg = none) :
    MediaLabels.start (messages ++ [msg]) = MediaLabels.start messages := by
  cases messages with
  | nil => simp [MediaLabels.start, h]
  | cons => rfl

theorem Aligned.concat {as : List Attachment} {messages : List Canonical} (h : Aligned as messages)
    {msg : Canonical} (hblock : compactionBlock msg = none) :
    Aligned (as ++ brought msg) (messages ++ [msg]) := by
  obtain ⟨earlier, rfl, hstart⟩ := h
  refine ⟨earlier, ?_, (start_concat hblock).trans hstart⟩
  rw [List.flatMap_append, List.flatMap_singleton, List.append_assoc]

/-- Aligned messages whose rest brings nothing are aligned without it. -/
theorem Aligned.init {as : List Attachment} {init rest : List Canonical}
    (h : Aligned as (init ++ rest)) (hinit : init ≠ []) (hrest : rest.flatMap brought = []) :
    Aligned as init := by
  obtain ⟨earlier, rfl, hstart⟩ := h
  refine ⟨earlier, by rw [List.flatMap_append, hrest, List.append_nil], ?_⟩
  rw [← hstart, MediaLabels.start, MediaLabels.start, List.head?_append_of_ne_nil _ hinit]

/-- A tidy row brings what it stores. -/
theorem brought_canonical {row : ConversationMessage} (h : Tidy row) :
    brought (canonical row) = rowAttached row := by
  rw [brought]
  split
  case h_1 block hblock =>
    have hrole := h.marker (by simp [isMarker, hblock])
    simp [rowAttached, hrole]
  case h_2 => rfl

theorem rowAttached_of_role {row : ConversationMessage} (h : row.role ≠ .user) :
    rowAttached row = [] := if_neg h

/-- Rows of other roles store no attachment. -/
theorem rowsAttached_none {rows : List ConversationMessage} (h : ∀ row ∈ rows, row.role ≠ .user) :
    rows.flatMap rowAttached = [] :=
  List.flatMap_eq_nil_iff.mpr fun row hrow => rowAttached_of_role (h row hrow)

theorem brought_rows {rows : List ConversationMessage} (h : ∀ row ∈ rows, Tidy row) :
    (rows.map canonical).flatMap brought = rows.flatMap rowAttached := by
  rw [List.flatMap_map]
  exact List.flatMap_congr fun row hrow => brought_canonical (h row hrow)

/-- Attachments stand in the rows sent, or behind the sequence they start at. -/
theorem attached_sentRows {rows : List ConversationMessage} (h : ∀ row ∈ rows, Tidy row)
    (through : ℕ) : (rows.filter fun row => decide (through < row.sequence)).flatMap rowAttached =
      (sentRows through rows).flatMap rowAttached := by
  induction rows with
  | nil => rfl
  | cons row rows ih =>
    have ih := ih fun r hr => h r (List.mem_cons_of_mem _ hr)
    have htidy := h row List.mem_cons_self
    rw [sentRows, List.filter_cons, List.filter_cons, ← sentRows]
    by_cases hlt : through < row.sequence
    · by_cases hsent : row.isPartial = false ∧ isMarker row = false
      · simp [hlt, hsent.1, hsent.2, ih]
      · have hrole : row.role ≠ .user := by
          intro huser
          refine hsent ⟨?_, ?_⟩
          · by_contra hp
            simp [htidy.partially (by simpa using hp)] at huser
          · by_contra hm
            simp [htidy.marker (by simpa using hm)] at huser
        simp [hlt, hsent, rowAttached_of_role hrole, ih]
    · simp [hlt, ih]

/-! ### The counts a marker carries -/

theorem mediaOf_zero : mediaOf ⟨0, 0⟩ = noLabels := by
  funext kind
  cases kind <;> rfl

/-- Counting blocks counts the attachments among them. -/
theorem mediaOf_blocks {f : MediaCounts → Block → MediaCounts}
    (hf : ∀ counts block, mediaOf (f counts block) =
      passed Prod.fst (mediaOf counts) (attached [block])) (counts : MediaCounts)
    (content : List Block) :
    mediaOf (content.foldl f counts) = passed Prod.fst (mediaOf counts) (attached content) := by
  induction content generalizing counts with
  | nil => rfl
  | cons block rest ih =>
    have hcons : attached (block :: rest) = attached [block] ++ attached rest :=
      List.filterMap_append (l := [block])
    rw [List.foldl_cons, ih, hf, hcons, passed_append]

theorem mediaOf_countMedia {row : ConversationMessage} (h : isMarker row = false)
    (counts : MediaCounts) :
    mediaOf (countMedia counts row) = passed Prod.fst (mediaOf counts) (rowAttached row) := by
  have hblock : compactionBlock (canonical row) = none := by simpa [isMarker] using h
  rw [countMedia, hblock, rowAttached]
  dsimp only
  split
  case isTrue =>
    refine mediaOf_blocks (fun counts block => ?_) counts row.content
    cases block with
    | media kind mediaId =>
      funext k
      cases kind <;> cases k <;> rfl
    | _ => rfl
  case isFalse => rfl

theorem mediaOf_rows {rows : List ConversationMessage} (h : ∀ row ∈ rows, isMarker row = false)
    (counts : MediaCounts) :
    mediaOf (rows.foldl countMedia counts) =
      passed Prod.fst (mediaOf counts) (rows.flatMap rowAttached) := by
  induction rows generalizing counts with
  | nil => rfl
  | cons row rows ih =>
    rw [List.foldl_cons, ih (fun r hr => h r (List.mem_cons_of_mem _ hr)),
      mediaOf_countMedia (h row List.mem_cons_self), List.flatMap_cons, passed_append]

/-- The counts the marker in force carries. -/
def carried (rows : List ConversationMessage) : MediaLabels :=
  match (markerInForce rows).bind fun marker => compactionBlock (canonical marker) with
  | some block => mediaOf block.media
  | none => noLabels

/-- The attachments of the rows the marker in force covers. -/
def coveredAttached (rows : List ConversationMessage) : List Attachment :=
  (rows.filter fun row => !decide (coveredThrough rows < row.sequence)).flatMap rowAttached

/-- The marker in force carries the counts of the rows it covers. -/
structure Labelled (rows : List ConversationMessage) : Prop where
  kept : Kept rows
  counts : carried rows = passed Prod.fst noLabels (coveredAttached rows)

/-- So it carries how many of each kind there are. -/
theorem Labelled.count {rows : List ConversationMessage} (h : Labelled rows) (kind : MediaKind) :
    carried rows kind = (coveredAttached rows).countP (·.1 = kind) := by
  rw [h.counts, passed_apply, noLabels, Nat.zero_add]

theorem labelled_nil : Labelled [] := ⟨⟨table_nil, by simp⟩, rfl⟩

/-- Labels start at the counts the marker in force carries. -/
theorem start_loadHistory {rows : List ConversationMessage} (h : Kept rows) :
    MediaLabels.start (loadHistory rows) = carried rows := by
  rw [loadHistory, historyRows_eq h.table.ordered h.table.markersFinal, MediaLabels.start, carried]
  cases hm : markerInForce rows with
  | some marker => rfl
  | none =>
    have hnone : ((sentRows (coveredThrough rows) rows).map canonical).head?.bind compactionBlock =
        none := by
      rw [List.head?_map]
      cases hhead : (sentRows (coveredThrough rows) rows).head? with
      | none => rfl
      | some row =>
        have hrow := (mem_sentRows.mp (List.mem_of_mem_head? hhead)).2.2.1
        simpa [isMarker] using hrow
    rw [Option.toList_none, List.nil_append, hnone]
    rfl

theorem rowsAttached_eq {rows : List ConversationMessage} (h : Kept rows) :
    rows.flatMap rowAttached = coveredAttached rows ++
      (sentRows (coveredThrough rows) rows).flatMap rowAttached := by
  have hsplit := filter_le_append_gt (coveredThrough rows) h.table.ordered.increasing
  rw [coveredAttached, ← attached_sentRows h.tidy, ← List.flatMap_append, hsplit]

theorem kept_history {rows : List ConversationMessage} (h : Kept rows) :
    ∀ row ∈ historyRows rows, Tidy row := by
  intro row hrow
  rw [historyRows_eq h.table.ordered h.table.markersFinal] at hrow
  rcases List.mem_append.mp hrow with hrow | hrow
  · exact h.tidy row (markerInForce_mem h.table.ordered h.table.markersFinal
      (Option.mem_toList.mp hrow)).1
  · exact h.tidy row (mem_sentRows.mp hrow).1

/-- A history read back shows the last attachments stored, and starts at the earlier ones. -/
theorem aligned_loadHistory {rows : List ConversationMessage} (h : Labelled rows) :
    Aligned (rows.flatMap rowAttached) (loadHistory rows) := by
  refine ⟨coveredAttached rows, ?_, (start_loadHistory h.kept).trans h.counts⟩
  rw [loadHistory, brought_rows (kept_history h.kept), rowsAttached_eq h.kept,
    historyRows_eq h.kept.table.ordered h.kept.table.markersFinal, List.flatMap_append]
  refine congrArg (coveredAttached rows ++ ·) ?_
  -- the marker in force stores nothing
  have hmarker : (markerInForce rows).toList.flatMap rowAttached = [] := by
    refine rowsAttached_none fun row hrow => ?_
    have hm := markerInForce_mem h.kept.table.ordered h.kept.table.markersFinal
      (Option.mem_toList.mp hrow)
    simp [(h.kept.tidy row hm.1).marker hm.2]
  rw [hmarker, List.nil_append]

/-! ### What the writes keep -/

/-- A row that is no marker is stored. -/
theorem Labelled.save {rows : List ConversationMessage} (h : Labelled rows)
    {row : ConversationMessage} (hk : Kept (rows ++ [row]))
    (hseq : row.sequence = nextMessageSequence rows) (hrow : isMarker row = false) :
    Labelled (rows ++ [row]) := by
  have ht := h.kept.table
  have hforce : markerInForce (rows ++ [row]) = markerInForce rows := by
    rw [markerInForce_append hk.table.ordered hk.table.markersFinal,
      markerInForce_eq ht.ordered ht.markersFinal]
    simp [hrow]
  have hcovered : coveredAttached (rows ++ [row]) = coveredAttached rows := by
    rw [coveredAttached, ht.coveredThrough_save hseq hrow, List.filter_append, coveredAttached]
    simp [hseq, ht.coveredThrough_lt]
  refine ⟨hk, ?_⟩
  rw [hcovered, ← h.counts, carried, carried, hforce]

/-- Rows are edited in place, without touching an attachment. -/
theorem Labelled.edit {rows : List ConversationMessage} (h : Labelled rows)
    {f : ConversationMessage → ConversationMessage} (hk : Kept (rows.map f)) (hf : Edit f)
    (hattached : ∀ row, rowAttached (f row) = rowAttached row) : Labelled (rows.map f) := by
  have hcarried : carried (rows.map f) = carried rows := by
    rw [carried, hf.markerInForce h.kept.table, carried, Option.bind_map]
    exact congrArg (fun g => match (markerInForce rows).bind g with
      | some block => mediaOf block.media
      | none => noLabels) (funext fun marker => hf.block marker)
  have hcovered : coveredAttached (rows.map f) = coveredAttached rows := by
    rw [coveredAttached, hf.coveredThrough h.kept.table, List.filter_map, List.flatMap_map,
      coveredAttached]
    simp only [hattached]
    refine congrArg (List.flatMap rowAttached) (List.filter_congr fun row _ => ?_)
    simp [hf.sequence]
  exact ⟨hk, by rw [hcarried, hcovered, h.counts]⟩

/-- The counts of the summarized rows: those of the old marker, and on from there. -/
theorem mediaOf_summarized {rows init : List ConversationMessage} (h : Kept rows)
    (hinit : ∀ row ∈ init, isMarker row = false) :
    mediaOf (mediaCounts ((markerInForce rows).toList ++ init)) =
      passed Prod.fst (carried rows) (init.flatMap rowAttached) := by
  rw [mediaCounts, List.foldl_append, mediaOf_rows hinit, carried]
  cases hm : markerInForce rows with
  | none => rw [Option.toList_none, List.foldl_nil, mediaOf_zero]; rfl
  | some marker =>
    have hmarker := (markerInForce_mem h.table.ordered h.table.markersFinal hm).2
    obtain ⟨block, hblock⟩ := Option.isSome_iff_exists.mp hmarker
    simp [countMedia, hblock]

/-- What a new marker covers: what the old one did, and the summarized rows. -/
theorem coveredAttached_marker {rows init : List ConversationMessage} {marker : ConversationMessage}
    (h : Kept rows) (hk : Kept (rows ++ [marker])) (cut : Cut ⟨rows, [], []⟩ marker init) :
    coveredAttached (rows ++ [marker]) = coveredAttached rows ++ init.flatMap rowAttached := by
  have hsent : sentRows (coveredThrough (rows ++ [marker])) (rows ++ [marker]) =
      keptRows (historyRows rows) := by
    have hread := cut.readback h.table
    rw [historyRows_eq hk.table.ordered hk.table.markersFinal, cut.inForce h.table] at hread
    exact List.tail_eq_of_cons_eq hread
  have hmarker : rowAttached marker = [] := by
    have hrole := (hk.tidy marker (by simp)).marker cut.marks
    exact rowAttached_of_role (by simp [hrole])
  -- the attachments of all rows, cut at what each marker covers
  have hbefore := rowsAttached_eq h
  have hafter := rowsAttached_eq hk
  rw [cut.sent, List.flatMap_append, ← List.append_assoc] at hbefore
  rw [hsent, List.flatMap_append, List.flatMap_singleton, hmarker, List.append_nil,
    hbefore] at hafter
  exact (List.append_cancel_right hafter).symm

/-- A compaction carries the counts over to its marker. -/
theorem Labelled.compact {rows : List ConversationMessage} (h : Labelled rows)
    (call : CompactionCall) : Labelled (compactedRows call rows) := by
  cases hm : (compactIfDue call (nextMessageSequence rows) (historyRows rows)).2 with
  | none =>
    rw [show compactedRows call rows = rows by simp [compactedRows, hm]]
    exact h
  | some marker =>
    have heq : compactedRows call rows = rows ++ [marker] := by simp [compactedRows, hm]
    obtain ⟨init, cut⟩ := compact_cut (c := ⟨rows, [], []⟩) h.kept.table hm
    obtain ⟨-, -, block, hcontent, hmedia⟩ := compactIfDue_marker hm
    have hblock : compactionBlock (canonical marker) = some block := by
      rw [canonical, hcontent]
      rfl
    have hinit : ∀ row ∈ init, isMarker row = false := fun row hrow =>
      (mem_sentRows.mp (cut.sent ▸ List.mem_append_left _ hrow)).2.2.1
    have hcarried : carried (rows ++ [marker]) =
        passed Prod.fst (carried rows) (init.flatMap rowAttached) := by
      rw [carried, cut.inForce h.kept.table, Option.bind_some, hblock]
      dsimp only
      rw [hmedia, cut.summarized, mediaOf_summarized h.kept hinit]
    have hk : Kept (rows ++ [marker]) := heq ▸ h.kept.compact call
    rw [heq]
    refine ⟨hk, ?_⟩
    rw [hcarried, h.counts, coveredAttached_marker h.kept hk cut, passed_append]

theorem rowAttached_promote (row : ConversationMessage) :
    rowAttached (promote row) = rowAttached row := rfl

theorem attached_insertText (text : String) (blocks : List Block) :
    attached (insertText text blocks) = attached blocks := by
  induction blocks with
  | nil => rfl
  | cons block blocks ih =>
    cases block with
    | thinking t => simpa [insertText, attached] using ih
    | _ => rfl

theorem rowAttached_addText (text : String) (last : ℕ) (row : ConversationMessage) :
    rowAttached (addText text last row) = rowAttached row := by
  rw [addText]
  split
  · simp only [rowAttached, attached_insertText]
  · rfl

/-- An edit that touches no attachment leaves those of all rows. -/
theorem rowsAttached_edit {f : ConversationMessage → ConversationMessage}
    (hattached : ∀ row, rowAttached (f row) = rowAttached row) (rows : List ConversationMessage) :
    (rows.map f).flatMap rowAttached = rows.flatMap rowAttached := by
  rw [List.flatMap_map]
  exact List.flatMap_congr fun row _ => hattached row

/-- The rows after a write: labelled still, with every attachment there was in its place. -/
structure Grown (rows rows' : List ConversationMessage) : Prop where
  labelled : Labelled rows'
  grows : rows.flatMap rowAttached <+: rows'.flatMap rowAttached

theorem Grown.same {rows : List ConversationMessage} (h : Labelled rows) : Grown rows rows :=
  ⟨h, List.prefix_rfl⟩

theorem Grown.edit {rows : List ConversationMessage} (h : Labelled rows)
    {f : ConversationMessage → ConversationMessage} (hf : Edit f)
    (htidy : ∀ row, Tidy row → Tidy (f row))
    (hattached : ∀ row, rowAttached (f row) = rowAttached row) : Grown rows (rows.map f) :=
  ⟨h.edit (h.kept.edit hf htidy) hf hattached, by rw [rowsAttached_edit hattached]⟩

/-- A compaction stores no attachment. -/
theorem rowsAttached_compacted (call : CompactionCall) (rows : List ConversationMessage) :
    (compactedRows call rows).flatMap rowAttached = rows.flatMap rowAttached := by
  have hmarker : (compactIfDue call (nextMessageSequence rows)
      (historyRows rows)).2.toList.flatMap rowAttached = [] := by
    refine rowsAttached_none fun row hrow => ?_
    obtain ⟨hrole, -⟩ := compactIfDue_marker (Option.mem_toList.mp hrow)
    simp [hrole]
  rw [compactedRows, List.flatMap_append, hmarker, List.append_nil]

theorem Grown.compacted {rows : List ConversationMessage} (h : Labelled rows)
    (call : CompactionCall) : Grown rows (compactedRows call rows) :=
  ⟨h.compact call, by rw [rowsAttached_compacted]⟩

section

variable {s : Record} {role : Role} {content : List Block} {isPartial : Bool}

theorem rowsAttached_save (hblock : compactionBlock (role, content) = none) :
    (saveMessage s role content isPartial).rows.flatMap rowAttached =
      s.rows.flatMap rowAttached ++ brought (role, content) := by
  rw [saveMessage, List.flatMap_append, List.flatMap_singleton, brought, hblock]
  rfl

theorem Grown.saved (h : Labelled s.rows)
    (hk : Kept (saveMessage s role content isPartial).rows)
    (hblock : compactionBlock (role, content) = none) :
    Grown s.rows (saveMessage s role content isPartial).rows := by
  refine ⟨h.save hk rfl (by simp [isMarker, canonical, hblock]), ?_⟩
  rw [rowsAttached_save hblock]
  exact List.prefix_append _ _

/-- A row is stored, and the messages go on with it. -/
theorem Aligned.saved {messages : List Canonical}
    (h : Aligned (s.rows.flatMap rowAttached) messages)
    (hblock : compactionBlock (role, content) = none) :
    Aligned ((saveMessage s role content isPartial).rows.flatMap rowAttached)
      (messages ++ [(role, content)]) := by
  rw [rowsAttached_save hblock]
  exact h.concat hblock

end

/-! ### One step, and a run -/

/-- Blocks that are all tool results. -/
def Results (blocks : List Block) : Prop :=
  ∀ block ∈ blocks, ∃ id content isError, block = .toolResult id content isError

/-- The messages of a turn are aligned with the rows; what it is about to store is a user's content,
    or tool results. -/
def InStep (s : Record) (t : Turn) : Prop :=
  Aligned (s.rows.flatMap rowAttached) t.messages ∧ match t.pc with
    | .beginning content => fromUser content = true
    | .executing _ results _ => Results results
    | _ => True

/-- A turn went on, or ended. -/
structure Moved (s : Record) (after : After) : Prop where
  grown : Grown s.rows after.1.rows
  inStep : ∀ t, after.2 = .inl t → InStep after.1 t

theorem Moved.ended {s r : Record} (h : Grown s.rows r.rows) (e : TurnEnd) : Moved s (r, .inr e) :=
  ⟨h, fun _ ht => by cases ht⟩

theorem Moved.goesOn {s r : Record} {t : Turn} (h : Grown s.rows r.rows) (ht : InStep r t) :
    Moved s (r, .inl t) := ⟨h, fun _ heq => Sum.inl.inj heq ▸ ht⟩

theorem Results.no_compaction {results : List Block} (h : Results results)
    (block : CompactionBlock) : .compaction block ∉ results := fun hmem => by
  obtain ⟨_, _, _, heq⟩ := h _ hmem
  cases heq

/-- One more result. -/
theorem Results.concat {results : List Block} (h : Results results) (id : Option String)
    (content : String) (isError : Bool) :
    Results (results ++ [.toolResult id content isError]) := by
  intro block hblock
  rcases List.mem_append.mp hblock with hblock | hblock
  · exact h block hblock
  · exact ⟨id, content, isError, List.mem_singleton.mp hblock⟩

/-- A step of a turn keeps its messages aligned with the rows. -/
theorem moved_turnStep {s : Record} {t : Turn} {a : TurnAction} {after : After}
    (hl : Labelled s.rows) (hw : InStep s t) (h : turnStep s t a = some after) :
    Moved s after := by
  obtain ⟨ha, hstored⟩ := hw
  cases turnStep_cases h with
  | userSaved hpc =>
    simp only [hpc] at hstored
    have hblock := @compactionBlock_fromUser .user _ hstored
    exact .goesOn (.saved hl (hl.kept.saveUser (compaction_not_fromUser hstored)) hblock)
      ⟨ha.saved hblock, trivial⟩
  | nothingToSave => exact .goesOn (.same hl) ⟨ha, trivial⟩
  | answered _ hblocks _ =>
    exact .ended (.saved hl (hl.kept.saveAssistant hblocks false)
      (compactionBlock_fromProvider hblocks)) _
  | called _ hblocks hnext =>
    have hblock := @compactionBlock_fromProvider .assistant _ hblocks
    refine .goesOn (.saved hl (hl.kept.saveAssistant hblocks false) hblock)
      ⟨ha.saved hblock, ?_⟩
    rcases hnext with ⟨rfl | rfl, -⟩ | rfl
    · trivial
    · trivial
    · exact fun _ hmem => by cases hmem
  | interrupted _ hstreamed hrows _ =>
    refine .ended ?_ _
    rcases hrows with rfl | rfl
    · exact .same hl
    · exact .saved hl (hl.kept.saveAssistant hstreamed true)
        (compactionBlock_fromProvider hstreamed)
  | exceeded => exact .ended (.same hl) _
  | @worded text _ _ hrows =>
    rcases hrows with rfl | rfl
    · exact .goesOn (.same hl) ⟨ha, trivial⟩
    · rcases addTextToLastAssistant_eq s.rows text with heq | ⟨last, heq⟩
      · rw [heq]
        exact .goesOn (.same hl) ⟨ha, trivial⟩
      · have hattached := rowAttached_addText text last
        rw [heq]
        refine .goesOn (.edit hl (edit_addText text last) (fun _ => tidy_addText text last)
          hattached) ⟨?_, trivial⟩
        rw [rowsAttached_edit hattached]
        exact ha
  | suspended =>
    refine .ended ?_ _
    exact .same hl
  | refused => exact .ended (.same hl) _
  | resumed => exact .goesOn (.same hl) ⟨ha, fun _ hmem => by cases hmem⟩
  | notResumed => exact .ended (.same hl) _
  | rejected hpc _ =>
    simp only [hpc] at hstored
    exact .goesOn (.same hl) ⟨ha, Results.concat hstored _ _ _⟩
  | ran hpc _ hnext =>
    simp only [hpc] at hstored
    rcases hnext with ⟨error, -, rfl⟩ | ⟨content, isError, ends, rfl⟩
    · refine .ended ?_ _
      exact .same hl
    · refine .goesOn ?_ ⟨ha, Results.concat hstored _ _ _⟩
      exact .same hl
  | resultsSaved hpc hnext =>
    simp only [hpc] at hstored
    have hblock := @compactionBlock_none .user _ (Results.no_compaction hstored)
    have hgrown := Grown.saved hl (hl.kept.saveUser (Results.no_compaction hstored)) hblock
    rcases hnext with rfl | ⟨setup, iteration, rfl⟩
    · exact .ended hgrown _
    · exact .goesOn hgrown ⟨ha.saved hblock, trivial⟩
  | failed => exact .ended (.same hl) _

/-- A conversation whose rows are labelled, and its turn in step with them. -/
def Following (s : Session) : Prop :=
  Labelled s.record.rows ∧ ∀ turn ∈ s.turn, InStep s.record turn

theorem following_created : Following .created :=
  ⟨labelled_nil, fun _ hturn => by cases hturn⟩

theorem afterTurn_turn {path : Path} {after : After} {turn : Turn}
    (h : turn ∈ (afterTurn path after).turn) : after.2 = .inl turn := by
  obtain ⟨record, t | e⟩ := after
  · cases h
    rfl
  · cases e with
    | aborted =>
      obtain ⟨viaSend, hops⟩ := path
      cases viaSend <;> cases h
    | _ => cases h

/-- A turn that starts over the history read back. -/
theorem inStep_loadHistory {s : Record} (h : Labelled s.rows) {t : Turn}
    (hmessages : t.messages = loadHistory s.rows)
    (hpc : t.pc = .resuming ∨ ∃ content, t.pc = .beginning content ∧ fromUser content = true) :
    InStep s t := by
  refine ⟨hmessages ▸ aligned_loadHistory h, ?_⟩
  rcases hpc with hpc | ⟨content, hpc, hcontent⟩
  · rw [hpc]
    trivial
  · rw [hpc]
    exact hcontent

/-- No step takes an attachment away, or puts a turn out of step. -/
theorem grown_step {s t : Session} {a : SessionAction} (hs : Following s)
    (h : sessionStep s a = some t) :
    Grown s.record.rows t.record.rows ∧ ∀ turn ∈ t.turn, InStep t.record turn := by
  obtain ⟨hl, hturn⟩ := hs
  cases sessionStep_cases h with
  | @sent _ agent box content call _ hcontent =>
    have hgrown := Grown.compacted hl call
    refine ⟨hgrown, fun turn hmem => ?_⟩
    obtain rfl := Option.some.inj hmem
    exact inStep_loadHistory hgrown.labelled
      (congrArg (List.map canonical) (hl.kept.table.readback call)) (.inr ⟨_, rfl, hcontent⟩)
  | @worked _ turn path a after hafter =>
    have hmoved := moved_turnStep hl (hturn turn rfl) hafter
    exact ⟨hmoved.grown, fun next hmem => hmoved.inStep next (afterTurn_turn hmem)⟩
  | handedOff =>
    refine ⟨.same hl, fun turn hmem => ?_⟩
    obtain rfl := Option.some.inj hmem
    exact inStep_loadHistory hl rfl (.inr ⟨_, rfl, rfl⟩)
  | finalized =>
    exact ⟨.edit hl edit_promote (fun _ => tidy_promote) rowAttached_promote,
      fun _ hmem => by cases hmem⟩
  | responded => exact ⟨.same hl, fun _ hmem => by cases hmem⟩
  | decided => exact ⟨.same hl, fun _ hmem => by cases hmem⟩
  | waits => exact ⟨.same hl, fun _ hmem => by cases hmem⟩
  | resumes =>
    refine ⟨.same hl, fun turn hmem => ?_⟩
    obtain rfl := Option.some.inj hmem
    exact inStep_loadHistory hl rfl (.inl rfl)
  | lost => exact ⟨.same hl, fun _ hmem => by cases hmem⟩

theorem following_step (s : Session) (a : SessionAction) (t : Session) (hs : Following s)
    (h : sessionStep s a = some t) : Following t :=
  ⟨(grown_step hs h).1.labelled, (grown_step hs h).2⟩

/-- What a turn hands to the model is aligned. -/
theorem aligned_handed {s : Record} {t : Turn} (h : InStep s t) {history : List Canonical}
    (hhistory : history ∈ t.handed) : Aligned (s.rows.flatMap rowAttached) history := by
  rw [Turn.handed] at hhistory
  split at hhistory
  case h_1 =>
    split at hhistory
    · obtain rfl := List.mem_singleton.mp hhistory
      exact h.1
    · cases hhistory
  case h_2 =>
    obtain rfl := List.mem_singleton.mp hhistory
    -- the results that stand in for the calls bring no attachment
    have hask : attached (t.uses.map (fun use =>
        .toolResult use.id "Not run yet: awaiting the user's approval." false) ++
          [.text wordsBesideApproval] : List Block) = [] := by
      simp [attached, List.filterMap_map]
    have hblock : compactionBlock (Role.user, t.uses.map (fun use =>
        .toolResult use.id "Not run yet: awaiting the user's approval." false) ++
          [.text wordsBesideApproval]) = none := compactionBlock_none fun block => by simp
    have hconcat := h.1.concat hblock
    rw [brought, hblock] at hconcat
    simp only [hask, if_true, List.append_nil] at hconcat
    exact hconcat
  case h_3 => cases hhistory

theorem summarizedRows_append_keptRows (rows : List ConversationMessage) :
    summarizedRows rows ++ keptRows rows = rows := by
  have hinitial : summarizedRows rows <+: rows := by
    rw [summarizedRows]
    split
    · exact List.dropLast_prefix rows
    · exact List.prefix_rfl
  exact List.prefix_iff_eq_append.mp hinitial

/-- The kept rows bring no attachment. -/
theorem keptRows_brought {rows : List ConversationMessage} (h : ∀ row ∈ rows, Tidy row) :
    ((keptRows rows).map canonical).flatMap brought = [] := by
  have htidy : ∀ row ∈ keptRows rows, Tidy row := fun row hrow => h row (List.mem_of_mem_drop hrow)
  rw [brought_rows htidy]
  exact rowsAttached_none fun row hrow => by simp [keptRows_assistant hrow]

/-- What a compaction summarizes shows the last labels. -/
theorem shown_summarized {rows : List ConversationMessage} (h : Labelled rows)
    (imageUrls : String → Option String) (translator : Translator) :
    (shownNotes imageUrls ((summarizedRows (historyRows rows)).map canonical) translator).map
      Note.named <:+ hostLabels (rows.flatMap rowAttached) := by
  by_cases hnone : summarizedRows (historyRows rows) = []
  · exact shown_none (by rw [hnone]; rfl) imageUrls translator
  · have haligned := aligned_loadHistory h
    rw [loadHistory, ← summarizedRows_append_keptRows (historyRows rows),
      List.map_append] at haligned
    exact (haligned.init (by simpa using hnone)
      (keptRows_brought (kept_history h.kept))).shown imageUrls translator

/-- Every request of a send, before its turn, shows the last labels. -/
theorem shown_send {rows : List ConversationMessage} (h : Labelled rows) (call : CompactionCall)
    {history : List Canonical} (hhistory : summaryAsked call (historyRows rows) = some history ∨
      history = loadHistory rows ∨ history = (keptRows (historyRows rows)).map canonical)
    (imageUrls : String → Option String) (translator : Translator) :
    (shownNotes imageUrls history translator).map Note.named <:+
      hostLabels (rows.flatMap rowAttached) := by
  rcases hhistory with hsummary | rfl | rfl
  · rw [summaryAsked] at hsummary
    split at hsummary
    case isTrue =>
      obtain rfl := Option.some.inj hsummary
      exact shown_summarized h imageUrls translator
    case isFalse => cases hsummary
  · exact (aligned_loadHistory h).shown imageUrls translator
  · exact shown_none (keptRows_brought (kept_history h.kept)) imageUrls translator

theorem storedAttachments_eq {rows : List ConversationMessage} (h : Labelled rows) :
    storedAttachments rows = rows.flatMap rowAttached := by
  rw [storedAttachments, h.kept.table.ordered.orderBySequence_eq]

/-- The requests of a step show the labels of the host. -/
theorem labelsAgree_step (s : Session) (a : SessionAction) (t : Session) (hs : Following s)
    (h : sessionStep s a = some t) : LabelsAgree s a t := by
  obtain ⟨hgrown, hturn⟩ := grown_step hs h
  rw [LabelsAgree, storedAttachments_eq hs.1, storedAttachments_eq hgrown.labelled]
  refine ⟨?_, fun history hhistory imageUrls translator => ?_⟩
  · obtain ⟨more, hmore⟩ := hgrown.grows
    rw [← hmore]
    exact hostLabels_stay _ more
  · rcases List.mem_append.mp hhistory with hhanded | hsized
    · rcases List.mem_append.mp hhanded with hsummary | hmodel
      · cases sessionStep_cases h with
        | @sent record _ _ _ call _ _ =>
          have hshown := shown_send hs.1 call (.inl (Option.mem_toList.mp hsummary)) imageUrls
            translator
          rwa [← rowsAttached_compacted call record.rows] at hshown
        | _ => cases hsummary
      · cases hrequest : t.turn with
        | none => rw [hrequest] at hmodel; cases hmodel
        | some turn =>
          rw [hrequest] at hmodel
          exact (aligned_handed (hturn turn hrequest) hmodel).shown imageUrls translator
    · cases sessionStep_cases h with
      | @sent record _ _ _ call _ _ =>
        have hsized : history = loadHistory record.rows ∨
            history = (keptRows (historyRows record.rows)).map canonical := by
          simpa [sized] using hsized
        have hshown := shown_send hs.1 call (.inr hsized) imageUrls translator
        rwa [← rowsAttached_compacted call record.rows] at hshown
      | _ => cases hsized

/-- CORRECT: in every conversation, whatever is sent, compacted, handed off, stopped or lost, each
    step keeps the labels there are, and each of its requests shows, through any of the translators,
    the last of them: every attachment under its index among those of its kind stored so far. -/
theorem labels_stable (as : List SessionAction) :
    EveryStep sessionStep LabelsAgree .created as :=
  everyStep_of_inv following_step labelsAgree_step following_created

end LunaCore.Engine
