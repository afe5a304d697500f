import LunaCore.Engine.Pairing
import LunaCore.Engine.Dispatch

/-! Is every call answered in the history the model is handed?

    The rows that hold a call and its result are written in separate commits: the reply by the
    provider, the results by the runner once all calls have run. Whatever ends a turn in between
    leaves the calls open, and the next turn sends them as they are; nothing closes them. The
    promotion of an aborted reply opens calls that never ran. -/

namespace LunaCore.Engine
open LunaCore.Values LunaCore.Chat LunaCore.Schemes

/-- `_WORDS_BESIDE_APPROVAL`. -/
def wordsBesideApproval : String :=
  "Your calls above await the user's approval and have not run. Write now, in the " ++
  "user's language, the message they read beside them: what you found, the options " ++
  "you weighed and the one you recommend. Describe only the calls above, as proposals " ++
  "awaiting approval; what you mean to do next, say as what follows once they are " ++
  "approved — never as done. Text only — no tool calls."

/-- What `_words_beside_approval` asks with: every call answered as not run yet. -/
def Turn.ask (t : Turn) : List Canonical :=
  t.messages ++ [(Role.user, t.uses.map (fun use =>
    .toolResult use.id "Not run yet: awaiting the user's approval." false) ++
      [.text wordsBesideApproval])]

/-- The rows `_compact_if_due` hands to the model, where it comes to that: just when a summary, were
    one given, would be stored. -/
def summaryAsked (call : CompactionCall) (rows : List ConversationMessage) :
    Option (List Canonical) :=
  if (compactIfDue { call with compact := fun _ => some .null } 0 rows).2.isSome then
    some ((summarizedRows rows).map canonical)
  else none

/-- The history a turn hands to the model where it stands. -/
def Turn.handed (t : Turn) : List (List Canonical) :=
  match t.pc with
  | .calling => if t.iteration < maxToolIterations then [t.messages] else []
  | .wording => [t.ask]
  | _ => []

/-- The histories a step hands to the model: for a summary, and where the turn now stands. -/
def handed (s : Session) (a : SessionAction) (t : Session) : List (List Canonical) :=
  (match a with
    | .send _ _ _ call => (summaryAsked call (historyRows s.record.rows)).toList
    | _ => []) ++
  match t.turn with
  | some turn => turn.handed
  | none => []

/-- Every history the step hands to the model is paired. -/
def HandsPaired (s : Session) (a : SessionAction) (t : Session) : Prop :=
  ∀ history ∈ handed s a t, Paired history

/-- The request can end here without leaving a call open: none is, or an approval is pending. -/
def Session.settled (s : Session) : Bool :=
  match s.request with
  | some (.turn t _) => match t.pc with
    | .beginning _ | .calling => true
    | _ => false
  | some (.decided _) => decide (0 < countPending s.record.approvals)
  | _ => true

/-- Nothing is broken off with a call open. A failure, or the loss of the process, finds the request
    settled; no tool raises; no gated call has an id the approvals already know; the calls of one
    reply have different ids; and no row an abort promotes holds a call. -/
def Unbroken (s : Session) (a : SessionAction) : Prop :=
  match a with
  | .lose | .work (.fail _) => s.settled = true
  | .work (.runTool (.raised _)) => ∀ turn ∈ s.turn, ∀ entry ∈ turn.current,
      rejects (turn.decision entry.2) = true
  | .work .suspend => ∀ turn ∈ s.turn,
      (s.record.approvals.map ToolApproval.toolUseId ++
        turn.gated.map fun entry => storedId entry.2).Nodup
  | .work (.reply blocks) => ((toolUses blocks).map ToolUse.id).Nodup
  | .finalize => ∀ row ∈ liveRows s.record.rows, row.isPartial = true → toolUses row.content = []
  | _ => True

instance (s : Session) (a : SessionAction) (t : Session) : Decidable (HandsPaired s a t) :=
  inferInstanceAs (Decidable (∀ history ∈ handed s a t, Paired history))

instance (s : Session) : ∀ a, Decidable (Unbroken s a)
  | .lose | .work (.fail _) => inferInstanceAs (Decidable (s.settled = true))
  | .work (.runTool (.raised _)) => inferInstanceAs (Decidable (∀ turn ∈ s.turn,
      ∀ entry ∈ turn.current, rejects (turn.decision entry.2) = true))
  | .work .suspend => inferInstanceAs (Decidable (∀ turn ∈ s.turn, List.Nodup _))
  | .work (.reply _) => inferInstanceAs (Decidable (List.Nodup _))
  | .finalize => inferInstanceAs (Decidable (∀ row ∈ liveRows s.record.rows,
      row.isPartial = true → toolUses row.content = []))
  | .work (.runTool (.result ..)) | .work .saveUser | .work (.interrupt ..) | .work .exceed
  | .work (.words _) | .work .takeDecisions | .work .saveResults | .send .. | .handOff ..
  | .respond | .decide .. | .resume .. => isTrue trivial

/-! ### Rows -/

theorem resultIds_fromProvider {blocks : List Block} (h : fromProvider blocks = true) :
    resultIds blocks = [] := by
  refine List.filterMap_eq_nil_iff.mpr fun block hblock => ?_
  have hprov := List.all_eq_true.mp h block hblock
  cases block with
  | toolResult => simp at hprov
  | _ => rfl

theorem resultIds_fromUser {content : List Block} (h : fromUser content = true) :
    resultIds content = [] := by
  refine List.filterMap_eq_nil_iff.mpr fun block hblock => ?_
  have huser := List.all_eq_true.mp h block hblock
  cases block with
  | toolResult => simp at huser
  | _ => rfl

@[simp] theorem resultIds_insertText (text : String) (blocks : List Block) :
    resultIds (insertText text blocks) = resultIds blocks := by
  induction blocks with
  | nil => rfl
  | cons block blocks ih =>
    cases block with
    | thinking t => simpa [insertText, resultIds] using ih
    | _ => rfl

@[simp] theorem resultIds_addText (text : String) (last : ℕ) (row : ConversationMessage) :
    resultIds (addText text last row).content = resultIds row.content := by
  rw [addText]
  split <;> simp

/-- The rows are in order, and only such as the runner and the providers store. -/
structure Kept (rows : List ConversationMessage) : Prop where
  table : Table rows
  tidy : ∀ row ∈ rows, Tidy row

/-- A row is stored: results in a user row, a provider's blocks, or a user's. -/
theorem Kept.save {s : Record} (h : Kept s.rows) {role : Role} {content : List Block}
    {isPartial : Bool} (hblock : compactionBlock (role, content) = none)
    (hresults : role ≠ .user → resultIds content = [])
    (hstreamed : isPartial = true → role = .assistant) :
    Kept (saveMessage s role content isPartial).rows := by
  have hmarker : isMarker ⟨nextMessageSequence s.rows, role, content, isPartial⟩ = false := by
    simp [isMarker, canonical, hblock]
  refine ⟨h.table.save rfl hmarker, fun row hrow => ?_⟩
  rcases List.mem_append.mp hrow with hrow | hrow
  · exact h.tidy row hrow
  · rw [List.mem_singleton.mp hrow]
    exact ⟨hresults, fun hm => by simp [hmarker] at hm, hstreamed⟩

theorem Kept.saveUser {s : Record} (h : Kept s.rows) {content : List Block}
    (hblock : ∀ block, .compaction block ∉ content) :
    Kept (saveMessage s .user content false).rows :=
  h.save (compactionBlock_none hblock) (fun hrole => absurd rfl hrole) (fun hp => by cases hp)

theorem Kept.saveAssistant {s : Record} (h : Kept s.rows) {blocks : List Block}
    (hblocks : fromProvider blocks = true) (isPartial : Bool) :
    Kept (saveMessage s .assistant blocks isPartial).rows :=
  h.save (compactionBlock_fromProvider hblocks) (fun _ => resultIds_fromProvider hblocks)
    (fun _ => rfl)

theorem Kept.edit {rows : List ConversationMessage} (h : Kept rows)
    {f : ConversationMessage → ConversationMessage} (hf : Edit f)
    (htidy : ∀ row, Tidy row → Tidy (f row)) : Kept (rows.map f) := by
  refine ⟨hf.table h.table, fun row hrow => ?_⟩
  obtain ⟨r, hr, rfl⟩ := List.mem_map.mp hrow
  exact htidy r (h.tidy r hr)

theorem tidy_addText (text : String) (last : ℕ) {row : ConversationMessage} (h : Tidy row) :
    Tidy (addText text last row) where
  results := by simpa using h.results
  marker := by simpa [(edit_addText text last).isMarker] using h.marker
  partially := by simpa using h.partially

theorem tidy_promote {row : ConversationMessage} (h : Tidy row) : Tidy (promote row) :=
  ⟨h.results, h.marker, fun hp => by cases hp⟩

theorem tidy_marker {call : CompactionCall} {next : ℕ} {rows : List ConversationMessage}
    {marker : ConversationMessage} (h : (compactIfDue call next rows).2 = some marker) :
    Tidy marker := by
  obtain ⟨hrole, hfinal, block, hcontent, -⟩ := compactIfDue_marker h
  exact ⟨fun _ => by rw [hcontent]; rfl, fun _ => hrole, fun hp => by simp [hfinal] at hp⟩

/-- A user row answers what is open, and opens nothing. -/
theorem stands_user {s : Record} (h : Kept s.rows) {content : List Block}
    {ids : List (Option String)} (hs : Stands s.rows ids)
    (hblock : ∀ block, .compaction block ∉ content) (hanswers : Answers ids (resultIds content)) :
    Stands (saveMessage s .user content false).rows [] :=
  hs.save h.table rfl (by simp [isMarker, canonical, compactionBlock_none hblock]) hanswers

/-- A reply stored where nothing is open opens its calls. -/
theorem stands_reply {s : Record} (h : Kept s.rows) {blocks : List Block} (hs : Stands s.rows [])
    (hblocks : fromProvider blocks = true) :
    Stands (saveMessage s .assistant blocks false).rows ((toolUses blocks).map ToolUse.id) := by
  refine hs.save h.table rfl ?_ ?_
  · simp [isMarker, canonical, compactionBlock_fromProvider hblocks]
  · rw [shown_final rfl]
    simpa only [canonical, resultIds_fromProvider hblocks] using answers_nil.mpr rfl

/-- A partial row opens nothing. -/
theorem stands_streamed {s : Record} (h : Kept s.rows) {blocks : List Block} (hs : Stands s.rows [])
    (hblocks : fromProvider blocks = true) :
    Stands (saveMessage s .assistant blocks true).rows [] :=
  hs.save h.table rfl (by simp [isMarker, canonical, compactionBlock_fromProvider hblocks])
    (answers_nil.mpr rfl)

/-- Words put into a reply leave the same calls open. -/
theorem stands_addText {rows : List ConversationMessage} (h : Kept rows)
    {ids : List (Option String)} (hs : Stands rows ids) (text : String) (last : ℕ) :
    Stands (rows.map (addText text last)) ids := by
  refine hs.edit h.table (edit_addText text last) fun row _ => ?_
  cases hp : row.isPartial with
  | true => simp [shown, hp, callIds]
  | false => simp [shown, hp, callIds, canonical]

/-- Partial rows without calls are promoted without opening one. -/
theorem stands_promote {rows : List ConversationMessage} (h : Kept rows)
    {ids : List (Option String)} (hs : Stands rows ids)
    (hstreamed : ∀ row ∈ liveRows rows, row.isPartial = true → toolUses row.content = []) :
    Stands (rows.map promote) ids := by
  refine hs.edit h.table edit_promote fun row hrow => ?_
  cases hp : row.isPartial with
  | false => rw [promote_final hp]; exact ⟨rfl, rfl⟩
  | true =>
    have hrole := (h.tidy row (List.mem_filter.mp hrow).1)
    have hresults := hrole.results (by simp [hrole.partially hp])
    have hcalls := hstreamed row hrow hp
    rw [shown_streamed hp, shown_final rfl]
    refine ⟨?_, hresults.symm⟩
    simp [promote, canonical, hrole.partially hp, hcalls, show toolUses [] = [] from rfl]

theorem Kept.compact {rows : List ConversationMessage} (h : Kept rows) (call : CompactionCall) :
    Kept (compactedRows call rows) := by
  refine ⟨h.table.compact call, fun row hrow => ?_⟩
  rcases List.mem_append.mp hrow with hrow | hrow
  · exact h.tidy row hrow
  · exact tidy_marker (Option.mem_toList.mp hrow)

/-- A compaction keeps the rows, and opens nothing. -/
theorem kept_compacted {rows : List ConversationMessage} (h : Kept rows) (hs : Stands rows [])
    (call : CompactionCall) :
    Kept (compactedRows call rows) ∧ Stands (compactedRows call rows) [] := by
  refine ⟨h.compact call, ?_⟩
  cases hm : (compactIfDue call (nextMessageSequence rows) (historyRows rows)).2 with
  | none => simpa [compactedRows, hm] using hs
  | some marker =>
    have heq : compactedRows call rows = rows ++ [marker] := by simp [compactedRows, hm]
    obtain ⟨init, cut⟩ := compact_cut (c := ⟨rows, [], []⟩) h.table hm
    rw [heq]
    exact hs.compact h.table cut h.tidy (tidy_marker hm)

/-! ### The invariant -/

/-- The rows and the messages of a turn leave the same calls open, of different ids. -/
structure Open (s : Record) (messages : List Canonical) (ids : List (Option String)) : Prop where
  nodup : ids.Nodup
  rows : Stands s.rows ids
  messages : Leaves [] messages ids

/-- The calls a turn has open where it stands: none at the model's call; those of its reply while it
    asks for approval; those answered so far and those to run, in between. -/
def Answering (s : Record) (t : Turn) : Prop :=
  match t.pc with
  | .beginning content => fromUser content = true ∧ Open s t.messages []
  | .calling => Open s t.messages []
  | .wording | .suspending => Open s t.messages (t.uses.map ToolUse.id) ∧
      ∃ use ∈ t.uses, use.name ∈ t.setup.approvalNames
  | .resuming => ∃ ids, Open s t.messages ids
  | .executing pending results _ => Open s t.messages
      (resultIds results ++ pending.map fun entry => entry.2.id) ∧
      ∀ block, .compaction block ∉ results

/-- Between requests a call is open only while an approval is pending. -/
def Sound (s : Session) : Prop :=
  Kept s.record.rows ∧ match s.request with
    | none => ∃ ids, ids.Nodup ∧ Stands s.record.rows ids ∧
        (ids ≠ [] → 0 < countPending s.record.approvals)
    | some (.decided _) => ∃ ids, ids.Nodup ∧ Stands s.record.rows ids
    | some (.turn t _) => Answering s.record t
    | some (.answered _) | some .aborted => Stands s.record.rows []

theorem sound_created : Sound .created :=
  ⟨⟨table_nil, by simp [Session.created]⟩, [], List.nodup_nil, rfl, fun h => absurd rfl h⟩

/-- A request that ends with nothing open. -/
theorem sound_idle {s : Record} (h : Kept s.rows) (hs : Stands s.rows []) : Sound ⟨s, none⟩ :=
  ⟨h, [], List.nodup_nil, hs, fun hne => absurd rfl hne⟩

theorem numbered_uses (message : ℕ) (uses : List ToolUse) :
    (numbered message uses).map Prod.snd = uses := by
  refine List.ext_getElem (by simp [numbered]) fun k _ _ => ?_
  simp [numbered]

/-- The ids of numbered calls. -/
theorem numbered_ids (message : ℕ) (uses : List ToolUse) :
    (numbered message uses).map (fun entry => entry.2.id) = uses.map ToolUse.id := by
  rw [← congrArg (List.map ToolUse.id) (numbered_uses message uses), List.map_map]
  rfl

/-- Once a turn asked for approval, an approval is pending. -/
theorem pending_created {rows approvals : List ToolApproval} {t : Turn}
    (hgated : ∃ use ∈ t.uses, use.name ∈ t.setup.approvalNames)
    (h : createPendingApprovals rows t.setup.agent.name t.gated = some approvals) :
    0 < countPending approvals := by
  obtain ⟨use, huse, hname⟩ := hgated
  rw [← numbered_uses t.message t.uses] at huse
  obtain ⟨entry, hentry, rfl⟩ := List.mem_map.mp huse
  obtain ⟨row, hrow, hpending⟩ := pending_of_gated h
    (List.mem_filter.mpr ⟨hentry, by simpa using hname⟩)
  exact List.countP_pos_iff.mpr ⟨row, hrow, by simpa using hpending.1⟩

/-- The step that `Unbroken` allows does not refuse the approvals. -/
theorem created_of_unbroken {rows : List ToolApproval} {t : Turn}
    (h : (rows.map ToolApproval.toolUseId ++ t.gated.map fun entry => storedId entry.2).Nodup) :
    createPendingApprovals rows t.setup.agent.name t.gated ≠ none := by
  have hids : (rows ++ t.gated.mapIdx fun k entry =>
      pendingApproval t.setup.agent.name (rows.length + k) entry.1 entry.2).map
        ToolApproval.toolUseId =
      rows.map ToolApproval.toolUseId ++ t.gated.map fun entry => storedId entry.2 := by
    rw [List.map_append]
    refine congrArg (rows.map ToolApproval.toolUseId ++ ·) ?_
    exact List.ext_getElem (by simp) fun k _ _ => by simp [pendingApproval]
  unfold createPendingApprovals
  dsimp only
  rw [if_pos (hids ▸ h)]
  simp

/-- One more result answers the next call. -/
theorem resultIds_answer (results : List Block) (id : Option String) (content : String)
    (isError : Bool) (rest : List (Option String)) :
    resultIds (results ++ [.toolResult id content isError]) ++ rest =
      resultIds results ++ id :: rest := by
  simp [resultIds]

/-! ### One step, and a run -/

/-- A reply just stored, and the messages with it. -/
theorem open_reply {s : Record} {messages : List Canonical} {blocks : List Block}
    (hk : Kept s.rows) (ho : Open s messages []) (hblocks : fromProvider blocks = true)
    (hnodup : ((toolUses blocks).map ToolUse.id).Nodup) :
    Open (saveMessage s .assistant blocks false) (messages ++ [(Role.assistant, blocks)])
      ((toolUses blocks).map ToolUse.id) where
  nodup := hnodup
  rows := stands_reply hk ho.rows hblocks
  messages := leaves_concat.mpr ⟨[], ho.messages,
    by rw [resultIds_fromProvider hblocks]; exact answers_nil.mpr rfl, rfl⟩

/-- A user row that answers what is open, and the messages with it. -/
theorem open_user {s : Record} {messages : List Canonical} {content : List Block}
    {ids : List (Option String)} (hk : Kept s.rows) (ho : Open s messages ids)
    (hblock : ∀ block, .compaction block ∉ content) (hanswers : Answers ids (resultIds content)) :
    Open (saveMessage s .user content false) (messages ++ [(Role.user, content)]) [] where
  nodup := List.nodup_nil
  rows := stands_user hk ho.rows hblock hanswers
  messages := leaves_concat.mpr ⟨ids, ho.messages, hanswers, rfl⟩

/-- A step of a turn that breaks nothing off leaves no call open but where an approval waits. -/
theorem sound_turnStep {s : Record} {t : Turn} {a : TurnAction} {after : After} (path : Path)
    (hk : Kept s.rows) (hw : Answering s t) (hok : Unbroken ⟨s, some (.turn t path)⟩ (.work a))
    (h : turnStep s t a = some after) : Sound (afterTurn path after) := by
  cases turnStep_cases h with
  | userSaved hpc =>
    simp only [Answering, hpc] at hw
    obtain ⟨huser, ho⟩ := hw
    have hblock := compaction_not_fromUser huser
    exact ⟨hk.saveUser hblock, open_user hk ho hblock
      (by rw [resultIds_fromUser huser]; exact answers_nil.mpr rfl)⟩
  | nothingToSave hpc =>
    simp only [Answering, hpc] at hw
    exact ⟨hk, hw.2⟩
  | answered hpc hblocks hnone =>
    simp only [Answering, hpc] at hw
    have ho := open_reply hk hw hblocks (by simp [hnone])
    rw [hnone] at ho
    exact ⟨hk.saveAssistant hblocks false, ho.rows⟩
  | called hpc hblocks hnext =>
    simp only [Answering, hpc] at hw
    have ho := open_reply hk hw hblocks hok
    refine ⟨hk.saveAssistant hblocks false, ?_⟩
    rcases hnext with ⟨rfl | rfl, hgated⟩ | rfl
    · exact ⟨ho, hgated⟩
    · exact ⟨ho, hgated⟩
    · refine ⟨?_, by simp⟩
      rw [numbered_ids]
      exact ho
  | @interrupted streamed _ rows _ hpc hstreamed hrows hended =>
    simp only [Answering, hpc] at hw
    have hsound : Kept rows ∧ Stands rows [] := by
      rcases hrows with rfl | rfl
      · exact ⟨hk, hw.rows⟩
      · exact ⟨hk.saveAssistant hstreamed true, stands_streamed hk hw.rows hstreamed⟩
    rcases hended with rfl | rfl
    · obtain ⟨viaSend, hops⟩ := path
      cases viaSend
      · exact sound_idle (s := { s with rows := rows }) hsound.1 hsound.2
      · exact hsound
    · exact sound_idle (s := { s with rows := rows }) hsound.1 hsound.2
  | exceeded hpc =>
    simp only [Answering, hpc] at hw
    exact sound_idle hk hw.rows
  | worded hpc hrows =>
    simp only [Answering, hpc] at hw
    obtain ⟨ho, hgated⟩ := hw
    rcases hrows with rfl | rfl
    · exact ⟨hk, ho, hgated⟩
    · rcases addTextToLastAssistant_eq s.rows _ with heq | ⟨last, heq⟩
      · rw [heq]
        exact ⟨hk, ho, hgated⟩
      · rw [heq]
        exact ⟨hk.edit (edit_addText _ last) fun _ => tidy_addText _ last,
          { ho with rows := stands_addText hk ho.rows _ last }, hgated⟩
  | suspended hpc hcreated =>
    simp only [Answering, hpc] at hw
    obtain ⟨ho, hgated⟩ := hw
    exact ⟨hk, _, ho.nodup, ho.rows, fun _ => pending_created hgated hcreated⟩
  | refused hpc hcreated =>
    exact absurd hcreated (created_of_unbroken (hok t rfl))
  | resumed hpc hlast =>
    simp only [Answering, hpc] at hw
    obtain ⟨ids, ho⟩ := hw
    obtain rfl := ho.messages.last_assistant hlast
    refine ⟨hk, ?_, by simp⟩
    rw [numbered_ids]
    exact ho
  | notResumed hpc hlast =>
    simp only [Answering, hpc] at hw
    obtain ⟨ids, ho⟩ := hw
    refine ⟨hk, ids, ho.nodup, ho.rows, fun hne => ?_⟩
    -- an open call stands in a last assistant message
    obtain ⟨⟨role, content⟩, hmessage, rfl⟩ := ho.messages.last hne
    cases role with
    | assistant => exact absurd (by simp [hlast content hmessage]) hne
    | user => exact absurd rfl hne
    | system => exact absurd rfl hne
  | rejected hpc _ =>
    simp only [Answering, hpc] at hw
    obtain ⟨ho, hblock⟩ := hw
    refine ⟨hk, ?_, by simpa using hblock⟩
    rw [resultIds_answer]
    exact ho
  | @ran outcome call use rest _ _ _ hpc hrejects hnext =>
    have hcurrent : t.current = some (call, use) := by simp [Turn.current, hpc]
    simp only [Answering, hpc] at hw
    obtain ⟨ho, hblock⟩ := hw
    rcases hnext with ⟨error, rfl, rfl⟩ | ⟨content, isError, ends, rfl⟩
    · have := hok t rfl _ hcurrent
      simp [hrejects] at this
    · refine ⟨hk, ?_, by simpa using hblock⟩
      rw [resultIds_answer]
      exact { ho with rows := ho.rows }
  | resultsSaved hpc hnext =>
    simp only [Answering, hpc] at hw
    obtain ⟨ho, hblock⟩ := hw
    rw [List.map_nil, List.append_nil] at ho
    have ho' := open_user hk ho hblock (answers_self ho.nodup)
    rcases hnext with rfl | ⟨setup, iteration, rfl⟩
    · exact ⟨hk.saveUser hblock, ho'.rows⟩
    · exact ⟨hk.saveUser hblock, ho'⟩
  | failed =>
    simp only [Unbroken, Session.settled] at hok
    split at hok
    case h_1 hpc =>
      simp only [Answering, hpc] at hw
      exact sound_idle hk hw.2.rows
    case h_2 hpc =>
      simp only [Answering, hpc] at hw
      exact sound_idle hk hw.rows
    case h_3 => simp at hok

/-- Between requests nothing is open unless an approval is pending. -/
theorem stands_idle {s : Record} (h : Sound ⟨s, none⟩) (hnone : countPending s.approvals = 0) :
    Stands s.rows [] := by
  obtain ⟨-, ids, -, hs, hpending⟩ := h
  by_cases hids : ids = []
  · exact hids ▸ hs
  · exact absurd hnone (Nat.ne_of_gt (hpending hids))

/-- A send starts over rows and messages with nothing open. -/
theorem sound_send {s : Record} (h : Sound ⟨s, none⟩) (hnone : countPending s.approvals = 0)
    (agent : Agent) (box : Toolbox) {content : List Block} (hcontent : fromUser content = true)
    (call : CompactionCall) : Sound (send s agent box content call) := by
  obtain ⟨hk, hs⟩ := kept_compacted h.1 (stands_idle h hnone) call
  have hhistory : loadHistory (compactedRows call s.rows) =
      (compactIfDue call (nextMessageSequence s.rows) (historyRows s.rows)).1.map canonical :=
    congrArg (List.map canonical) (h.1.table.readback call).symm
  exact ⟨hk, hcontent, List.nodup_nil, hs, hhistory ▸ leaves_loadHistory hk.table hk.tidy hs⟩

/-- A step that breaks nothing off keeps the conversation sound. -/
theorem sound_step (s : Session) (a : SessionAction) (t : Session) (hs : Sound s)
    (hok : Unbroken s a) (h : sessionStep s a = some t) : Sound t := by
  cases sessionStep_cases h with
  | sent hpending hcontent => exact sound_send hs hpending _ _ hcontent _
  | worked hafter => exact sound_turnStep _ hs.1 hs.2 hok hafter
  | handedOff =>
    obtain ⟨hk, hrows⟩ := hs
    exact ⟨hk, rfl, List.nodup_nil, hrows, leaves_loadHistory hk.table hk.tidy hrows⟩
  | finalized =>
    obtain ⟨hk, hrows⟩ := hs
    exact sound_idle (hk.edit edit_promote fun _ => tidy_promote) (stands_promote hk hrows hok)
  | responded => exact sound_idle hs.1 hs.2
  | decided _ _ =>
    obtain ⟨hk, ids, hnodup, hrows, -⟩ := hs
    exact ⟨hk, ids, hnodup, hrows⟩
  | waits _ hpending =>
    obtain ⟨hk, ids, hnodup, hrows⟩ := hs
    exact ⟨hk, ids, hnodup, hrows, fun _ => hpending⟩
  | resumes _ _ =>
    obtain ⟨hk, ids, hnodup, hrows⟩ := hs
    exact ⟨hk, ids, hnodup, hrows, leaves_loadHistory hk.table hk.tidy hrows⟩
  | lost =>
    obtain ⟨record, request⟩ := s
    obtain ⟨hk, hrequest⟩ := hs
    match request, hrequest, hok with
    | none, hrequest, _ => exact ⟨hk, hrequest⟩
    | some (.decided _), ⟨ids, hnodup, hrows⟩, hok =>
      exact ⟨hk, ids, hnodup, hrows, fun _ => of_decide_eq_true hok⟩
    | some (.turn t path), hrequest, hok =>
      have hfailed := sound_turnStep path hk hrequest
        (show Unbroken ⟨record, some (.turn t path)⟩ (.work (.fail "")) from hok) rfl
      exact hfailed
    | some (.answered _), hrequest, _ => exact sound_idle hk hrequest
    | some .aborted, hrequest, _ => exact sound_idle hk hrequest

/-- What a turn hands to the model is paired. -/
theorem handed_turn {s : Record} {t : Turn} (h : Answering s t) :
    ∀ history ∈ t.handed, Paired history := by
  intro history hhistory
  rw [Turn.handed] at hhistory
  split at hhistory
  case h_1 hpc =>
    simp only [Answering, hpc] at h
    split at hhistory
    · obtain rfl := List.mem_singleton.mp hhistory
      exact h.messages
    · cases hhistory
  case h_2 hpc =>
    simp only [Answering, hpc] at h
    obtain rfl := List.mem_singleton.mp hhistory
    refine leaves_concat.mpr ⟨_, h.1.messages, ?_, rfl⟩
    have hids : resultIds (t.uses.map (fun use =>
        .toolResult use.id "Not run yet: awaiting the user's approval." false) ++
          [.text wordsBesideApproval]) = t.uses.map ToolUse.id := by
      simp [resultIds, List.filterMap_map, List.filterMap_eq_map']
    rw [hids]
    exact answers_self h.1.nodup
  case h_3 => cases hhistory

/-- What a compaction hands to the model is paired. -/
theorem paired_summaryAsked {s : Record} (hk : Kept s.rows) (hs : Stands s.rows [])
    {call : CompactionCall} {history : List Canonical}
    (h : summaryAsked call (historyRows s.rows) = some history) : Paired history := by
  rw [summaryAsked] at h
  split at h
  case isTrue =>
    obtain rfl := Option.some.inj h
    refine paired_summarized (fun row hrow => hk.tidy row ?_) (leaves_loadHistory hk.table hk.tidy hs)
    rw [historyRows_eq hk.table.ordered hk.table.markersFinal] at hrow
    rcases List.mem_append.mp hrow with hrow | hrow
    · exact (markerInForce_mem hk.table.ordered hk.table.markersFinal
        (Option.mem_toList.mp hrow)).1
    · exact (mem_sentRows.mp hrow).1
  case isFalse => cases h

theorem handsPaired_step (s : Session) (a : SessionAction) (t : Session) (hs : Sound s)
    (hok : Unbroken s a) (h : sessionStep s a = some t) : HandsPaired s a t := by
  have ht := sound_step s a t hs hok h
  intro history hhistory
  rcases List.mem_append.mp hhistory with hsummary | hturn
  · cases sessionStep_cases h with
    | sent hpending _ =>
      exact paired_summaryAsked hs.1 (stands_idle hs hpending) (Option.mem_toList.mp hsummary)
    | _ => cases hsummary
  · obtain ⟨record, request⟩ := t
    match request, ht, hturn with
    | some (.turn t _), ht, hturn => exact handed_turn ht.2 history hturn
    | none, _, hturn | some (.decided _), _, hturn | some (.answered _), _, hturn
    | some .aborted, _, hturn => cases hturn

/-- Whatever a conversation goes through, every history its model is handed is paired, as long as
    nothing is broken off with a call open. -/
theorem handsPaired_run {as : List SessionAction}
    (h : Guarded sessionStep Unbroken .created as) :
    EveryStep sessionStep HandsPaired .created as :=
  everyStep_of_guarded sound_step handsPaired_step sound_created h

/-! ### Calls left open -/

/-- An agent with one tool on the MCP server. -/
def clerk : Agent := ⟨"clerk", [⟨"search", false⟩], []⟩

def desk : Toolbox := ⟨[], ["search"]⟩

def plainCall : CompactionCall := ⟨none, [], fun _ => none, fun _ => none, "m", "now"⟩

def searchUse : Block := .toolUse ⟨some "call_1", "search", [("q", .str "fern")]⟩

/-- A call answered, a reply stopped while only text had streamed, and another turn. -/
def stoppedInText : List SessionAction :=
  [.send clerk desk [.text "find ferns"] plainCall,
    .work .saveUser,
    .work (.reply [.text "Let me look.", searchUse]),
    .work (.runTool (.result "three" false)),
    .work .saveResults,
    .work (.interrupt [.text "There are"] true),
    .finalize,
    .send clerk desk [.text "go on"] plainCall,
    .work .saveUser,
    .work (.reply [.text "Three ferns."]),
    .respond]

theorem handsPaired_run_stoppedInText :
    EveryStep sessionStep HandsPaired .created stoppedInText := handsPaired_run (by decide +kernel)

/-- The user stops a reply whose call had streamed: the partial row is promoted with it. -/
def abortedCall : List SessionAction :=
  [.send clerk desk [.text "find ferns"] plainCall,
    .work .saveUser,
    .work (.interrupt [.text "Let me look.", searchUse] true),
    .finalize,
    .send clerk desk [.text "go on"] plainCall,
    .work .saveUser]

/-- The tool raises after the reply with its call was stored. -/
def raisedTool : List SessionAction :=
  [.send clerk desk [.text "find ferns"] plainCall,
    .work .saveUser,
    .work (.reply [.text "Let me look.", searchUse]),
    .work (.runTool (.raised "connection reset")),
    .send clerk desk [.text "again?"] plainCall,
    .work .saveUser]

/-- The next turn hands the model a call without a result. -/
theorem handed_unpaired :
    ¬ EveryStep sessionStep HandsPaired .created abortedCall ∧
      ¬ EveryStep sessionStep HandsPaired .created raisedTool := by
  decide +kernel

end LunaCore.Engine
