import LunaCore.Engine.ChatRunner
import LunaCore.Engine.Dispatch

/-! Does a call run by the decision made for that very call?

    A decision is looked up by the id the provider gave the call, over all approvals the
    conversation ever had; a call without a row runs, and inputs that are `{}` count as not
    corrected. The ghost `call` of an approval says which call it was created for, so that "its own
    decision" is said without that lookup. -/

namespace LunaCore.Engine
open LunaCore.Values LunaCore.Chat LunaCore.Schemes

/-- The calls the step dispatched, each with the inputs it was given. -/
def Session.sentSince (s t : Session) : List (CallId × Dict) :=
  (t.record.dispatched.drop s.record.dispatched.length).map fun d => (d.call, d.input)

/-- What was sent is right for the call. A call with an approval row of its own was sent at most
    once in all, approved, and with the inputs of the row; a call without one was sent, with the
    inputs the model wrote. -/
def OwnDecision (s : Record) (call : CallId) (use : ToolUse) (sent : List (CallId × Dict)) : Prop :=
  (∀ row ∈ s.approvals, row.call = call → sent = [] ∨ (row.status = .approved ∧
    sent = [(call, row.toolInput)] ∧ ∀ d ∈ s.dispatched, d.call ≠ call)) ∧
  ((∀ row ∈ s.approvals, row.call ≠ call) → sent = [(call, use.input)])

/-- The step runs the call the turn has come to by that call's own decision, and nothing else. -/
def ByOwnDecision (s : Session) (a : SessionAction) (t : Session) : Prop :=
  match a with
  | .work (.runTool _) => ∀ turn ∈ s.turn, ∀ entry ∈ turn.current,
      OwnDecision s.record entry.1 entry.2 (s.sentSince t)
  | _ => s.sentSince t = []

/-- The lookup by id finds the call's own decision, and it says the same. A gated call has an id, or
    was approved as it stands; its row was not corrected to `{}`, unless the call's inputs are `{}`.
    No row of another call bears the id of a call that needed no approval, unless that row was
    approved and its inputs are `{}` or the same. -/
def FindsOwn (approvals : List ToolApproval) (call : CallId) (use : ToolUse) : Prop :=
  (∀ row ∈ approvals, row.call = call →
    (use.id = none → row.status = .approved ∧ row.toolInput = use.input) ∧
    (row.status = .approved → row.toolInput = [] → use.input = [])) ∧
  ((∀ row ∈ approvals, row.call ≠ call) → ∀ row ∈ approvals, use.id = some row.toolUseId →
    row.status = .approved ∧ (row.toolInput = [] ∨ row.toolInput = use.input))

/-- A resumed turn comes to no call but such. -/
def OnlyOwn (s : Session) (a : SessionAction) : Prop :=
  match a with
  | .work (.runTool _) => ∀ turn ∈ s.turn, turn.decisions.isSome → ∀ entry ∈ turn.current,
      FindsOwn s.record.approvals entry.1 entry.2
  | _ => True

instance (s : Record) (call : CallId) (use : ToolUse) (sent : List (CallId × Dict)) :
    Decidable (OwnDecision s call use sent) :=
  have (row : ToolApproval) : Decidable (row.call = call → sent = [] ∨ (row.status = .approved ∧
      sent = [(call, row.toolInput)] ∧ ∀ d ∈ s.dispatched, d.call ≠ call)) := instDecidableForall
  @instDecidableAnd _ _ inferInstance inferInstance

instance (s : Session) : ∀ a t, Decidable (ByOwnDecision s a t)
  | .work (.runTool _), _ => inferInstanceAs (Decidable (∀ turn ∈ s.turn, ∀ entry ∈ turn.current, _))
  | .work .saveUser, _ | .work (.reply _), _ | .work (.interrupt ..), _ | .work .exceed, _
  | .work (.words _), _ | .work .suspend, _ | .work .takeDecisions, _ | .work .saveResults, _
  | .work (.fail _), _ | .send .., _ | .handOff .., _ | .finalize, _ | .respond, _ | .decide .., _
  | .resume .., _ | .lose, _ => inferInstanceAs (Decidable (_ = _))

/-! ### The invariant -/

/-- The last row is a final reply, of that sequence and with those calls. -/
def LastReply (rows : List ConversationMessage) (message : ℕ) (uses : List ToolUse) : Prop :=
  ∃ row, rows.getLast? = some row ∧ row.isPartial = false ∧ isMarker row = false ∧
    row.sequence = message ∧ toolUses row.content = uses

/-- No approval and no dispatch is about a call of that row. -/
def Untouched (s : Record) (message : ℕ) : Prop :=
  (∀ row ∈ s.approvals, row.call.1 ≠ message) ∧ ∀ d ∈ s.dispatched, d.call.1 ≠ message

/-- The approvals of these calls bear their ids, and none of the calls was dispatched. -/
def Asked (s : Record) (message : ℕ) (uses : List ToolUse) : Prop :=
  (∀ row ∈ s.approvals, ∀ entry ∈ numbered message uses, row.call = entry.1 →
    row.toolUseId = storedId entry.2) ∧ ∀ d ∈ s.dispatched, d.call.1 ≠ message

/-- The conversation ends with the reply a turn was suspended at. -/
def SuspendedAt (s : Record) (message : ℕ) : Prop :=
  ∃ uses, LastReply s.rows message uses ∧ Asked s message uses

/-- A call still to run was not dispatched yet. On a run it has no approval; on a resume the
    decisions are the approvals', and its own bears its id. -/
structure ToRun (s : Record) (decisions : Option (List ToolApproval)) (call : CallId)
    (use : ToolUse) : Prop where
  below : call.1 < nextMessageSequence s.rows
  notSent : ∀ d ∈ s.dispatched, d.call ≠ call
  unasked : decisions = none → ∀ row ∈ s.approvals, row.call ≠ call
  decided : ∀ rows, decisions = some rows → rows = decisionsByToolUse s.approvals ∧
    ∀ row ∈ s.approvals, row.call = call → row.toolUseId = storedId use

/-- Where a turn stands among the rows, the approvals and the calls dispatched. -/
def Working (s : Record) (t : Turn) : Prop :=
  match t.pc with
  | .beginning content => t.decisions = none ∧ fromUser content = true
  | .calling => t.decisions = none
  | .wording | .suspending => t.decisions = none ∧ LastReply s.rows t.message t.uses ∧
      Untouched s t.message
  | .resuming => t.messages = loadHistory s.rows ∧ SuspendedAt s t.message
  | .executing pending results _ => (pending.map Prod.fst).Nodup ∧
      (∀ entry ∈ pending, ToRun s t.decisions entry.1 entry.2) ∧ ∀ block, .compaction block ∉ results

/-- The rows are in order, the approvals bear different ids, and whatever an approval or a dispatch
    is about is stored. -/
structure Ledger (s : Record) : Prop where
  table : Table s.rows
  ids : (s.approvals.map ToolApproval.toolUseId).Nodup
  asked : ∀ row ∈ s.approvals, row.call.1 < nextMessageSequence s.rows
  sent : ∀ d ∈ s.dispatched, d.call.1 < nextMessageSequence s.rows

/-- No approval is pending while a turn runs; while one is, the conversation ends with the reply of
    the suspended turn. -/
def Orderly (s : Session) : Prop :=
  Ledger s.record ∧ match s.request with
    | none => countPending s.record.approvals = 0 ∨ ∃ message, SuspendedAt s.record message
    | some (.decided _) => ∃ message, SuspendedAt s.record message
    | some (.turn t _) => countPending s.record.approvals = 0 ∧ Working s.record t
    | some (.answered _) | some .aborted => countPending s.record.approvals = 0

theorem orderly_created : Orderly .created :=
  ⟨⟨table_nil, List.nodup_nil, by simp [Session.created], by simp [Session.created]⟩, .inl rfl⟩

/-! ### Rows -/

/-- A record whose rows changed, in order still and with no lower a next sequence. -/
theorem Ledger.rows {s : Record} (h : Ledger s) {rows : List ConversationMessage}
    (ht : Table rows) (hle : nextMessageSequence s.rows ≤ nextMessageSequence rows) :
    Ledger { s with rows := rows } :=
  ⟨ht, h.ids, fun row hrow => lt_of_lt_of_le (h.asked row hrow) hle,
    fun d hd => lt_of_lt_of_le (h.sent d hd) hle⟩

theorem Ledger.save {s : Record} (h : Ledger s) {role : Role} {content : List Block}
    (isPartial : Bool) (hcontent : compactionBlock (role, content) = none) :
    Ledger (saveMessage s role content isPartial) :=
  h.rows (h.table.save rfl (by simp [isMarker, canonical, hcontent]))
    (nextMessageSequence_le s.rows _)

theorem Ledger.edit {s : Record} (h : Ledger s) {f : ConversationMessage → ConversationMessage}
    (hf : Edit f) : Ledger { s with rows := s.rows.map f } :=
  h.rows (hf.table h.table) (hf.nextMessageSequence s.rows).ge

/-- The next row is of a sequence nothing is about yet. -/
theorem Ledger.untouched {s : Record} (h : Ledger s) : Untouched s (nextMessageSequence s.rows) :=
  ⟨fun row hrow => ne_of_lt (h.asked row hrow), fun d hd => ne_of_lt (h.sent d hd)⟩

theorem lastReply_save (s : Record) {blocks : List Block} (hblocks : fromProvider blocks = true) :
    LastReply (saveMessage s .assistant blocks false).rows (nextMessageSequence s.rows)
      (toolUses blocks) := by
  refine ⟨_, List.getLast?_concat, rfl, ?_, rfl, rfl⟩
  simp [isMarker, canonical, compactionBlock_fromProvider hblocks]

theorem LastReply.worded {rows : List ConversationMessage} {message : ℕ} {uses : List ToolUse}
    (h : LastReply rows message uses) (text : String) (last : ℕ) :
    LastReply (rows.map (addText text last)) message uses := by
  obtain ⟨row, hlast, hstreamed, hmarker, hseq, huses⟩ := h
  have hedit := edit_addText text last
  exact ⟨addText text last row, by simp [hlast], by simpa using hstreamed,
    by rw [hedit.isMarker, hmarker], by rw [hedit.sequence, hseq], by simpa using huses⟩

theorem LastReply.lt {rows : List ConversationMessage} {message : ℕ} {uses : List ToolUse}
    (h : LastReply rows message uses) : message < nextMessageSequence rows := by
  obtain ⟨row, hlast, -, -, rfl, -⟩ := h
  exact lt_nextMessageSequence (List.mem_of_getLast? hlast)

/-- The history ends with the last row where that is a final reply. -/
theorem LastReply.history {rows : List ConversationMessage} {message : ℕ} {uses : List ToolUse}
    (h : LastReply rows message uses) (ht : Table rows) :
    (historyRows rows).getLast? = rows.getLast? := by
  obtain ⟨row, hlast, hstreamed, hmarker, -, -⟩ := h
  obtain ⟨init, rfl⟩ := List.getLast?_eq_some_iff.mp hlast
  have hcovered : coveredThrough (init ++ [row]) < row.sequence := by
    rw [coveredThrough]
    cases hm : markerInForce (init ++ [row]) with
    | none => exact ht.ordered.positive row (by simp)
    | some marker =>
      have hmem := (markerInForce_mem ht.ordered ht.markersFinal hm)
      have hinit : marker ∈ init := by
        rcases List.mem_append.mp hmem.1 with h | h
        · exact h
        · rw [List.mem_singleton.mp h, hmarker] at hmem
          exact absurd hmem.2 (by simp)
      have hlt := (List.pairwise_append.mp ht.ordered.increasing).2.2 marker hinit row (by simp)
      exact lt_trans (ht.before marker hm) hlt
  rw [historyRows_eq ht.ordered ht.markersFinal, sentRows, List.filter_append,
    List.filter_singleton]
  simp [hstreamed, hmarker, hcovered]

/-! ### Approvals -/

theorem Ledger.resolve {s : Record} (h : Ledger s) {f : ToolApproval → ToolApproval}
    (hf : Keeps f) : Ledger { s with approvals := s.approvals.map f } := by
  refine ⟨h.table, ?_, fun row hrow => ?_, h.sent⟩
  · rw [List.map_map, show ToolApproval.toolUseId ∘ f = ToolApproval.toolUseId from
      funext hf.toolUseId]
    exact h.ids
  · obtain ⟨r, hr, rfl⟩ := List.mem_map.mp hrow
    rw [hf.call]
    exact h.asked r hr

theorem SuspendedAt.resolve {s : Record} {message : ℕ} (h : SuspendedAt s message)
    {f : ToolApproval → ToolApproval} (hf : Keeps f) :
    SuspendedAt { s with approvals := s.approvals.map f } message := by
  obtain ⟨uses, hlast, hids, hsent⟩ := h
  refine ⟨uses, hlast, fun row hrow entry hentry hcall => ?_, hsent⟩
  obtain ⟨r, hr, rfl⟩ := List.mem_map.mp hrow
  rw [hf.call] at hcall
  rw [hf.toolUseId]
  exact hids r hr entry hentry hcall

/-! ### Calls -/

theorem numbered_calls (message : ℕ) (uses : List ToolUse) :
    (numbered message uses).map Prod.fst = (List.range uses.length).map (Prod.mk message) := by
  refine List.ext_getElem (by simp [numbered]) fun k _ _ => ?_
  simp [numbered]

theorem numbered_nodup (message : ℕ) (uses : List ToolUse) :
    ((numbered message uses).map Prod.fst).Nodup := by
  rw [numbered_calls]
  exact List.nodup_range.map (Prod.mk_right_injective message)

theorem numbered_message {message : ℕ} {uses : List ToolUse} {entry : CallId × ToolUse}
    (h : entry ∈ numbered message uses) : entry.1.1 = message := by
  obtain ⟨k, _, rfl⟩ := List.mem_mapIdx.mp h
  rfl

/-- A call of a row is one place among its calls. -/
theorem numbered_inj {message : ℕ} {uses : List ToolUse} {a b : CallId × ToolUse}
    (ha : a ∈ numbered message uses) (hb : b ∈ numbered message uses) (h : a.1 = b.1) : a = b :=
  List.inj_on_of_nodup_map (numbered_nodup message uses) ha hb h

/-- The turn that was suspended at a reply asked about that reply's calls. -/
theorem suspendedAt_created {s : Record} {t : Turn} {approvals : List ToolApproval}
    (hlast : LastReply s.rows t.message t.uses) (hun : Untouched s t.message)
    (h : createPendingApprovals s.approvals t.setup.agent.name t.gated = some approvals) :
    SuspendedAt { s with approvals := approvals } t.message := by
  refine ⟨t.uses, hlast, fun row hrow entry hentry hcall => ?_, hun.2⟩
  rcases (createPendingApprovals_some h).2 row hrow with hold | ⟨other, hother, hc, hid⟩
  · exact absurd (by rw [hcall, numbered_message hentry]) (hun.1 row hold)
  · have hsame : other = entry :=
      numbered_inj (List.mem_filter.mp hother).1 hentry (hc.symm.trans hcall)
    rw [hid, hsame]

theorem ledger_created {s : Record} {t : Turn} {approvals : List ToolApproval} (hl : Ledger s)
    (hlast : LastReply s.rows t.message t.uses)
    (h : createPendingApprovals s.approvals t.setup.agent.name t.gated = some approvals) :
    Ledger { s with approvals := approvals } := by
  obtain ⟨hnodup, hrows⟩ := createPendingApprovals_some h
  refine ⟨hl.table, hnodup, fun row hrow => ?_, hl.sent⟩
  rcases hrows row hrow with hold | ⟨entry, hentry, hc, -⟩
  · exact hl.asked row hold
  · rw [hc, numbered_message (List.mem_filter.mp hentry).1]
    exact hlast.lt

/-- The calls of a reply just stored are to run. -/
theorem toRun_called {s : Record} {blocks : List Block} (hl : Ledger s)
    (hblocks : fromProvider blocks = true) {entry : CallId × ToolUse}
    (hentry : entry ∈ numbered (nextMessageSequence s.rows) (toolUses blocks)) :
    ToRun (saveMessage s .assistant blocks false) none entry.1 entry.2 := by
  have hmessage := numbered_message hentry
  obtain ⟨hasked, hsent⟩ := hl.untouched
  refine
    { below := ?_
      notSent := fun d hd hcall => hsent d hd (by rw [hcall, hmessage])
      unasked := fun _ row hrow hcall => hasked row hrow (by rw [hcall, hmessage])
      decided := fun rows h => by cases h }
  rw [hmessage]
  exact (lastReply_save s hblocks).lt

/-- The calls of a suspended reply are to run once its turn resumes. -/
theorem toRun_resumed {s : Record} {message : ℕ} {uses : List ToolUse}
    (hlast : LastReply s.rows message uses) (hasked : Asked s message uses)
    {entry : CallId × ToolUse} (hentry : entry ∈ numbered message uses) :
    ToRun s (some (decisionsByToolUse s.approvals)) entry.1 entry.2 := by
  have hmessage := numbered_message hentry
  exact
    { below := hmessage ▸ hlast.lt
      notSent := fun d hd hcall => hasked.2 d hd (by rw [hcall, hmessage])
      unasked := fun h => by cases h
      decided := fun rows h => ⟨(Option.some.inj h).symm, fun row hrow hcall =>
        hasked.1 row hrow entry hentry hcall⟩ }

/-- One more call dispatched leaves the others to run. -/
theorem ToRun.sent {s : Record} {decisions : Option (List ToolApproval)} {call : CallId}
    {use : ToolUse} {d : Dispatch} (h : ToRun s decisions call use) (hd : d.call ≠ call) :
    ToRun { s with dispatched := s.dispatched ++ [d] } decisions call use := by
  refine { h with notSent := fun e he => ?_ }
  rcases List.mem_append.mp he with he | he
  · exact h.notSent e he
  · rwa [List.mem_singleton.mp he]

/-- The record and the turn of a suspended reply agree on its calls. -/
theorem resumed_uses {s : Record} {t : Turn} {content : List Block} {uses : List ToolUse}
    (ht : Table s.rows) (hmessages : t.messages = loadHistory s.rows)
    (hlast : LastReply s.rows t.message uses)
    (hcontent : t.messages.getLast? = some (Role.assistant, content)) : toolUses content = uses := by
  have hhistory := hlast.history ht
  obtain ⟨row, hrow, -, -, -, rfl⟩ := hlast
  rw [hmessages, loadHistory, List.getLast?_map, hhistory, hrow] at hcontent
  have hsame := congrArg Prod.snd (Option.some.inj hcontent)
  rw [← show row.content = content from hsame]

/-- A step of a turn keeps the conversation orderly. -/
theorem orderly_turnStep {s : Record} {t : Turn} {a : TurnAction} {after : After} (path : Path)
    (hl : Ledger s) (hpending : countPending s.approvals = 0) (hw : Working s t)
    (h : turnStep s t a = some after) : Orderly (afterTurn path after) := by
  cases turnStep_cases h with
  | userSaved hpc =>
    simp only [Working, hpc] at hw
    exact ⟨hl.save false (compactionBlock_fromUser hw.2), hpending, by simp [Working, hw.1]⟩
  | nothingToSave hpc =>
    simp only [Working, hpc] at hw
    exact ⟨hl, hpending, by simp [Working, hw.1]⟩
  | answered hpc hblocks _ =>
    exact ⟨hl.save false (compactionBlock_fromProvider hblocks), hpending⟩
  | called hpc hblocks hnext =>
    simp only [Working, hpc] at hw
    refine ⟨hl.save false (compactionBlock_fromProvider hblocks), hpending, ?_⟩
    rcases hnext with ⟨rfl | rfl, -⟩ | rfl
    · exact ⟨hw, lastReply_save s hblocks, hl.untouched⟩
    · exact ⟨hw, lastReply_save s hblocks, hl.untouched⟩
    · exact ⟨numbered_nodup _ _, fun entry hentry => hw.symm ▸ toRun_called hl hblocks hentry, by simp⟩
  | @interrupted streamed _ rows _ hpc hstreamed hrows hended =>
    have hl' : Ledger { s with rows := rows } := by
      rcases hrows with hrows | hrows
      · exact hrows ▸ hl
      · exact hrows ▸ hl.save true (compactionBlock_fromProvider hstreamed)
    rcases hended with rfl | rfl
    · obtain ⟨viaSend, hops⟩ := path
      cases viaSend
      · exact ⟨hl', .inl hpending⟩
      · exact ⟨hl', hpending⟩
    · exact ⟨hl', .inl hpending⟩
  | exceeded _ => exact ⟨hl, .inl hpending⟩
  | worded hpc hrows =>
    simp only [Working, hpc] at hw
    obtain ⟨hnone, hlast, hun⟩ := hw
    rcases hrows with rfl | rfl
    · exact ⟨hl, hpending, hnone, hlast, hun⟩
    · rcases addTextToLastAssistant_eq s.rows _ with heq | ⟨last, heq⟩
      · rw [heq]
        exact ⟨hl, hpending, hnone, hlast, hun⟩
      · rw [heq]
        exact ⟨hl.edit (edit_addText _ last), hpending, hnone, hlast.worded _ last, hun⟩
  | suspended hpc hcreated =>
    simp only [Working, hpc] at hw
    obtain ⟨_, hlast, hun⟩ := hw
    exact ⟨ledger_created hl hlast hcreated, .inr ⟨_, suspendedAt_created hlast hun hcreated⟩⟩
  | refused _ _ => exact ⟨hl, .inl hpending⟩
  | resumed hpc hcontent =>
    simp only [Working, hpc] at hw
    obtain ⟨hmessages, uses, hlast, hasked⟩ := hw
    obtain rfl := resumed_uses hl.table hmessages hlast hcontent
    exact ⟨hl, hpending, numbered_nodup _ _, fun entry hentry =>
      toRun_resumed hlast hasked hentry, by simp⟩
  | notResumed _ _ => exact ⟨hl, .inl hpending⟩
  | rejected hpc _ =>
    simp only [Working, hpc] at hw
    obtain ⟨hnodup, hrun, hresults⟩ := hw
    refine ⟨hl, hpending, (List.nodup_cons.mp hnodup).2, fun entry hentry => ?_, by simpa using hresults⟩
    exact hrun entry (List.mem_cons_of_mem _ hentry)
  | @ran _ call use _ _ _ _ hpc _ hnext =>
    simp only [Working, hpc] at hw
    obtain ⟨hnodup, hrun, hresults⟩ := hw
    have hcurrent := hrun _ List.mem_cons_self
    have hl' : Ledger { s with dispatched := s.dispatched ++ [⟨call, use.name,
        effectiveInput (t.decision use) use, dispatcherOf t.setup.systemByName use.name⟩] } :=
      ⟨hl.table, hl.ids, hl.asked, fun d hd => by
        rcases List.mem_append.mp hd with hd | hd
        · exact hl.sent d hd
        · rw [List.mem_singleton.mp hd]
          exact hcurrent.below⟩
    rcases hnext with ⟨error, -, rfl⟩ | ⟨content, isError, ends, rfl⟩
    · exact ⟨hl', .inl hpending⟩
    · refine ⟨hl', hpending, (List.nodup_cons.mp hnodup).2, fun entry hentry => ?_,
        by simpa using hresults⟩
      refine (hrun entry (List.mem_cons_of_mem _ hentry)).sent fun heq => ?_
      exact (List.nodup_cons.mp hnodup).1 (List.mem_map.mpr ⟨entry, hentry, heq.symm⟩)
  | resultsSaved hpc hnext =>
    simp only [Working, hpc] at hw
    have hl' : Ledger (saveMessage s .user _ false) := hl.save false (compactionBlock_none hw.2.2)
    rcases hnext with rfl | ⟨setup, iteration, rfl⟩
    · exact ⟨hl', hpending⟩
    · exact ⟨hl', hpending, rfl⟩
  | failed => exact ⟨hl, .inl hpending⟩

theorem orderly_send {s : Record} (hl : Ledger s) (hpending : countPending s.approvals = 0)
    (agent : Agent) (box : Toolbox) {content : List Block} (hcontent : fromUser content = true)
    (call : CompactionCall) : Orderly (send s agent box content call) :=
  ⟨hl.rows (hl.table.compact call) (nextMessageSequence_le _ _), hpending, rfl, hcontent⟩

/-- The suspended turn resumes over the history that ends with its reply. -/
theorem working_resume {s : Record} (ht : Table s.rows) {message : ℕ} (hs : SuspendedAt s message)
    (setup : Setup) : Working s (.resume setup (loadHistory s.rows) (lastSequence s.rows)) := by
  refine ⟨rfl, ?_⟩
  obtain ⟨uses, hlast, _⟩ := id hs
  obtain ⟨row, hrow, -, -, hseq, -⟩ := id hlast
  have hmessage : lastSequence s.rows = message := by
    rw [lastSequence, hlast.history ht, hrow]
    exact hseq
  simpa only [Turn.resume, hmessage] using hs

/-- A step of the conversation keeps it orderly. -/
theorem orderly_step (s : Session) (a : SessionAction) (t : Session) (hs : Orderly s)
    (h : sessionStep s a = some t) : Orderly t := by
  obtain ⟨hl, hrequest⟩ := hs
  cases sessionStep_cases h with
  | sent hpending hcontent => exact orderly_send hl hpending _ _ hcontent _
  | worked hafter => exact orderly_turnStep _ hl hrequest.1 hrequest.2 hafter
  | handedOff => exact ⟨hl, hrequest, rfl, rfl⟩
  | finalized => exact ⟨hl.edit edit_promote, .inl hrequest⟩
  | responded => exact ⟨hl, .inl hrequest⟩
  | decided hpending hf =>
    obtain ⟨message, hs⟩ := hrequest.resolve_left hpending
    exact ⟨hl.resolve hf, message, hs.resolve hf⟩
  | waits hf _ =>
    obtain ⟨message, hs⟩ := hrequest
    exact ⟨hl.resolve hf, .inr ⟨message, hs.resolve hf⟩⟩
  | resumes hf hnone =>
    obtain ⟨message, hs⟩ := hrequest
    exact ⟨hl.resolve hf, hnone, working_resume (hl.resolve hf).table (hs.resolve hf) _⟩
  | lost =>
    refine ⟨hl, ?_⟩
    obtain ⟨record, request⟩ := s
    match request, hrequest with
    | none, hrequest => exact hrequest
    | some (.decided _), hrequest => exact .inr hrequest
    | some (.turn ..), hrequest => exact .inl hrequest.1
    | some (.answered _), hrequest => exact .inl hrequest
    | some .aborted, hrequest => exact .inl hrequest

/-! ### The decision found for a call -/

/-- With the ids all different, the lookup finds the row of the id, and no other. -/
theorem decisionFor_some {rows : List ToolApproval}
    (hids : (rows.map ToolApproval.toolUseId).Nodup) (hpending : countPending rows = 0)
    {use : ToolUse} {row : ToolApproval} (hrow : row ∈ rows) (hid : use.id = some row.toolUseId) :
    decisionFor (decisionsByToolUse rows) use = some row := by
  have hresolved : row.status ≠ .pending := by
    simpa using List.countP_eq_zero.mp hpending row hrow
  have hmem : row ∈ decisionsByToolUse rows := List.mem_filter.mpr ⟨hrow, by simpa using hresolved⟩
  rw [decisionFor]
  rw [hid, Option.bind_some]
  cases hfind : (decisionsByToolUse rows).reverse.find? fun r => r.toolUseId == row.toolUseId with
  | none => simpa using List.find?_eq_none.mp hfind row (List.mem_reverse.mpr hmem)
  | some found =>
    have hfound := List.mem_filter.mp (List.mem_reverse.mp (List.mem_of_find?_eq_some hfind))
    have hsame : found.toolUseId = row.toolUseId := by simpa using List.find?_some hfind
    rw [List.inj_on_of_nodup_map hids hfound.1 hrow hsame]

/-- The lookup finds nothing for a call without an id, or of an id no row bears. -/
theorem decisionFor_none {rows : List ToolApproval} {use : ToolUse}
    (h : ∀ row ∈ rows, use.id ≠ some row.toolUseId) :
    decisionFor (decisionsByToolUse rows) use = none := by
  rw [decisionFor]
  cases hid : use.id with
  | none => rfl
  | some id =>
    refine List.find?_eq_none.mpr fun row hrow hsame => ?_
    refine h row (List.mem_filter.mp (List.mem_reverse.mp hrow)).1 ?_
    rw [hid, eq_of_beq hsame]

/-- What a call is sent with, under a decision: nothing when it was rejected. -/
def sentUnder (decision : Option ToolApproval) (call : CallId) (use : ToolUse) :
    List (CallId × Dict) :=
  if rejects decision then [] else [(call, effectiveInput decision use)]

theorem sentUnder_none (call : CallId) (use : ToolUse) :
    sentUnder none call use = [(call, use.input)] := rfl

theorem sentUnder_rejected {row : ToolApproval} (h : row.status = .rejected) (call : CallId)
    (use : ToolUse) : sentUnder (some row) call use = [] := by
  simp [sentUnder, rejects, h]

/-- An approved call is sent with the row's inputs, unless they are `{}`. -/
theorem sentUnder_approved {row : ToolApproval} (h : row.status = .approved) (call : CallId)
    (use : ToolUse) : sentUnder (some row) call use =
      [(call, if row.toolInput = [] then use.input else row.toolInput)] := by
  have hinput : effectiveInput (some row) use =
      if row.toolInput = [] then use.input else row.toolInput := by
    by_cases hempty : row.toolInput = []
    · simp [effectiveInput, edited, hempty]
    · by_cases hsame : row.toolInput = use.input
      · simp [effectiveInput, edited, hsame]
      · simp [effectiveInput, edited, h, hempty, hsame]
  simp [sentUnder, rejects, h, hinput]

/-- Once it is resolved, the row says whether the call is sent, and with what. -/
theorem sentUnder_resolved {row : ToolApproval} (hresolved : row.status ≠ .pending) (call : CallId)
    (use : ToolUse) : sentUnder (some row) call use = if row.status = .approved then
      [(call, if row.toolInput = [] then use.input else row.toolInput)] else [] := by
  cases hstatus : row.status with
  | pending => exact absurd hstatus hresolved
  | rejected => simp [sentUnder_rejected hstatus]
  | approved => simp [sentUnder_approved hstatus]

/-- Under a decision a call is sent as the row says just when the row was not corrected to `{}`, or
    the call's inputs are `{}`. -/
theorem sentUnder_some_iff {row : ToolApproval} (hresolved : row.status ≠ .pending) (call : CallId)
    (use : ToolUse) : (sentUnder (some row) call use = [] ∨
      (row.status = .approved ∧ sentUnder (some row) call use = [(call, row.toolInput)])) ↔
      (row.status = .approved → row.toolInput = [] → use.input = []) := by
  rw [sentUnder_resolved hresolved]
  by_cases happroved : row.status = .approved
  · by_cases hempty : row.toolInput = [] <;> simp [happroved, hempty]
  · simp [happroved]

/-- Under a decision a call is sent with its own inputs just when the row was approved, and holds
    `{}` or the same inputs. -/
theorem sentUnder_own_iff {row : ToolApproval} (hresolved : row.status ≠ .pending) (call : CallId)
    (use : ToolUse) : sentUnder (some row) call use = [(call, use.input)] ↔
      row.status = .approved ∧ (row.toolInput = [] ∨ row.toolInput = use.input) := by
  rw [sentUnder_resolved hresolved]
  by_cases happroved : row.status = .approved
  · by_cases hempty : row.toolInput = [] <;> simp [happroved, hempty]
  · simp [happroved]

/-! ### One step, and a run -/

theorem sentSince_eq {s t : Session} (sent : List Dispatch)
    (h : t.record.dispatched = s.record.dispatched ++ sent) :
    s.sentSince t = sent.map fun d => (d.call, d.input) := by
  rw [Session.sentSince, h, List.drop_left]

/-- Running a call sends it under the decision the turn has for it. -/
theorem sentSince_runTool {s : Record} {t : Turn} {path : Path} {outcome : ToolOutcome}
    {after : After} {call : CallId} {use : ToolUse} (hcurrent : t.current = some (call, use))
    (h : turnStep s t (.runTool outcome) = some after) :
    (⟨s, some (.turn t path)⟩ : Session).sentSince (afterTurn path after) =
      sentUnder (t.decision use) call use := by
  cases turnStep_cases h with
  | rejected hpc hrejects =>
    simp only [Turn.current, hpc, Option.some.injEq, Prod.mk.injEq] at hcurrent
    obtain ⟨rfl, rfl⟩ := hcurrent
    rw [sentUnder, if_pos hrejects]
    exact sentSince_eq [] (List.append_nil _).symm
  | @ran _ call use _ _ _ _ hpc hrejects =>
    simp only [Turn.current, hpc, Option.some.injEq, Prod.mk.injEq] at hcurrent
    obtain ⟨rfl, rfl⟩ := hcurrent
    rw [sentUnder, hrejects, if_neg Bool.false_ne_true]
    exact sentSince_eq [⟨call, use.name, effectiveInput (t.decision use) use,
      dispatcherOf t.setup.systemByName use.name⟩] rfl

/-- The call a turn has come to is to run. -/
theorem toRun_current {s : Record} {t : Turn} {entry : CallId × ToolUse} (hw : Working s t)
    (h : t.current = some entry) : ToRun s t.decisions entry.1 entry.2 := by
  rw [Turn.current] at h
  split at h
  case h_1 current rest results terminal hpc =>
    obtain rfl := Option.some.inj h
    simp only [Working, hpc] at hw
    exact hw.2.1 current List.mem_cons_self
  case h_2 => cases h

/-- On a run a call is sent as it stands, and no approval is about it. -/
theorem ownDecision_run {s : Record} {call : CallId} {use : ToolUse}
    (hrun : ToRun s none call use) : OwnDecision s call use (sentUnder none call use) :=
  ⟨fun row hrow hcall => absurd hcall (hrun.unasked rfl row hrow), fun _ => rfl⟩

/-- On a resume a call is sent by its own decision just when the lookup by id finds that one. -/
theorem ownDecision_resume {s : Record} {decisions : List ToolApproval} {call : CallId}
    {use : ToolUse} (hl : Ledger s) (hpending : countPending s.approvals = 0)
    (hrun : ToRun s (some decisions) call use) :
    OwnDecision s call use (sentUnder (decisionFor decisions use) call use) ↔
      FindsOwn s.approvals call use := by
  obtain ⟨rfl, hids⟩ := hrun.decided decisions rfl
  have hresolved : ∀ row ∈ s.approvals, row.status ≠ .pending := fun row hrow => by
    simpa using List.countP_eq_zero.mp hpending row hrow
  refine and_congr (forall_congr' fun row => forall_congr' fun hrow => forall_congr' fun hcall => ?_)
    (forall_congr' fun hother => ?_)
  · -- the call has an approval of its own
    have hid := hids row hrow hcall
    rw [and_iff_left hrun.notSent]
    cases huse : use.id with
    | none =>
      rw [decisionFor_none (by simp [huse]), sentUnder_none]
      constructor
      · rintro (h | ⟨happroved, hinput⟩)
        · cases h
        · have hsame : row.toolInput = use.input := by simpa using hinput.symm
          exact ⟨fun _ => ⟨happroved, hsame⟩, fun _ hempty => hsame ▸ hempty⟩
      · rintro ⟨hgated, -⟩
        obtain ⟨happroved, hsame⟩ := hgated rfl
        exact .inr ⟨happroved, by rw [hsame]⟩
    | some id =>
      rw [decisionFor_some hl.ids hpending hrow (by simp [huse, hid, storedId]),
        sentUnder_some_iff (hresolved row hrow)]
      simp
  · -- it has none: a row found under its id is another call's
    by_cases hfound : ∃ row ∈ s.approvals, use.id = some row.toolUseId
    · obtain ⟨row, hrow, hid⟩ := hfound
      rw [decisionFor_some hl.ids hpending hrow hid, sentUnder_own_iff (hresolved row hrow)]
      refine ⟨fun h r hr hid' => ?_, fun h => h row hrow hid⟩
      have hsame : r = row := List.inj_on_of_nodup_map hl.ids hr hrow
        (Option.some.inj (hid'.symm.trans hid))
      exact hsame ▸ h
    · rw [decisionFor_none fun row hrow hid => hfound ⟨row, hrow, hid⟩, sentUnder_none]
      exact iff_of_true rfl fun row hrow hid => absurd ⟨row, hrow, hid⟩ hfound

/-- A step but the running of a call sends nothing. -/
theorem sentSince_none {s t : Session} {a : SessionAction} (h : sessionStep s a = some t)
    (ha : ∀ outcome, a ≠ .work (.runTool outcome)) : s.sentSince t = [] := by
  refine sentSince_eq [] ?_
  rw [List.append_nil]
  cases sessionStep_cases h with
  | worked hafter => exact turnStep_dispatched hafter fun outcome heq => ha outcome (by rw [heq])
  | _ => rfl

/-- A step runs a call by its own decision just when, on a resume, the lookup finds that one. -/
theorem byOwnDecision_iff (s : Session) (a : SessionAction) (t : Session) (hs : Orderly s)
    (h : sessionStep s a = some t) : ByOwnDecision s a t ↔ OnlyOwn s a := by
  by_cases ha : ∀ outcome, a ≠ .work (.runTool outcome)
  · have hnone := sentSince_none h ha
    unfold ByOwnDecision OnlyOwn
    split
    case h_1 => exact absurd rfl (ha _)
    case h_2 => exact iff_of_true hnone trivial
  · obtain ⟨outcome, rfl⟩ := not_forall_not.mp ha
    cases sessionStep_cases h with
    | @worked s turn path _ after hafter =>
      obtain ⟨hl, hpending, hw⟩ := hs
      simp only [ByOwnDecision, OnlyOwn, Session.turn, Option.mem_some_iff, forall_eq']
      cases hcurrent : turn.current with
      | none => simp
      | some entry =>
        simp only [Option.mem_some_iff, forall_eq']
        rw [sentSince_runTool hcurrent hafter]
        have hrun := toRun_current hw hcurrent
        rw [Turn.decision]
        cases hdecisions : turn.decisions with
        | none =>
          rw [hdecisions] at hrun
          exact iff_of_true (ownDecision_run hrun) (by simp)
        | some decisions =>
          rw [hdecisions] at hrun
          simpa using ownDecision_resume hl hpending hrun

/-- An agent that may look by itself and water when allowed. -/
def gardener : Agent :=
  ⟨"gardener", [⟨"look", false⟩, ⟨"water", true⟩], []⟩

def garden : Toolbox := ⟨[], ["look", "water"]⟩

def silentCall : CompactionCall := ⟨none, [], fun _ => none, fun _ => none, "m", "now"⟩

/-- The backend gives no ids, so a reply's calls are `tc_0`, `tc_1`, …; the user rejects the first
    `tc_0`, and a later turn looks under the same id before it asks to water. -/
def reusedId : List SessionAction :=
  [.send gardener garden [.text "water the ferns"] silentCall,
    .work .saveUser,
    .work (.reply [.text "May I?", .toolUse ⟨some "tc_0", "water", [("bed", .num 1)]⟩]),
    .work .suspend,
    .decide 0 ⟨.rejected, none, none⟩,
    .resume gardener garden,
    .work .takeDecisions,
    .work (.runTool (.result "" false)),
    .work .saveResults,
    .respond,
    .send gardener garden [.text "look first"] silentCall,
    .work .saveUser,
    .work (.reply [.text "I look, then water.", .toolUse ⟨some "tc_0", "look", [("bed", .num 2)]⟩,
      .toolUse ⟨some "tc_1", "water", [("bed", .num 2)]⟩]),
    .work .suspend,
    .decide 1 ⟨.approved, none, none⟩,
    .resume gardener garden,
    .work .takeDecisions,
    .work (.runTool (.result "dry" false))]

/-- The user approves a call with every input taken out. -/
def emptied : List SessionAction :=
  [.send gardener garden [.text "water the ferns"] silentCall,
    .work .saveUser,
    .work (.reply [.text "May I?", .toolUse ⟨some "tc_0", "water", [("bed", .num 1)]⟩]),
    .work .suspend,
    .decide 0 ⟨.approved, none, some []⟩,
    .resume gardener garden,
    .work .takeDecisions,
    .work (.runTool (.result "done" false))]

end LunaCore.Engine
