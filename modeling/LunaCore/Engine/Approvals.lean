import LunaCore.Engine.Decisions

/-! The approvals of one conversation over its whole life.

        suspended ─→ pending ─ decide ─────────────────────────→ resolved, for good
                        └──── a correction on another call ────→ rejected, for good

    `reject_pending_with_reason` names no turn: it rejects whatever is pending in the conversation.
    That is right only while everything pending asks about the one reply the turn was suspended
    at. -/

namespace LunaCore.Engine
open LunaCore.Values LunaCore.Chat LunaCore.Schemes

/-- The approval asks about a call of that reply, as the model wrote it. -/
def AsksAbout (row : ToolApproval) (reply : ConversationMessage) : Prop :=
  reply.isPartial = false ∧ ∃ use, (row.call, use) ∈ numbered reply.sequence (toolUses reply.content) ∧
    row.toolUseId = storedId use ∧ row.toolName = use.name ∧ row.toolInput = use.input

/-- Whatever is pending asks about the reply the conversation ends with, and no turn is at work. -/
def PendingTogether (s : Session) : Prop :=
  ∀ row ∈ s.record.approvals, row.status = .pending → s.turn = none ∧
    ∃ reply, s.record.rows.getLast? = some reply ∧ AsksAbout row reply

/-- A rejection with that reason stands on another call of the approval's reply. -/
def CorrectedBeside (s : Record) (d : Decision) (row : ToolApproval) : Prop :=
  ∃ first ∈ s.approvals, first.status = .rejected ∧ first.reason = d.reason ∧
    first.call.1 = row.call.1

/-- What the step may make of a pending approval: what the user decided about it, or the rejection
    that a correction of the same reply carries over to it. -/
def ResolvedBy (s : Session) (a : SessionAction) (row row' : ToolApproval) : Prop :=
  match a with
  | .decide id d => row.id = id ∧ row' = resolve d row
  | .resume .. => ∃ d, s.request = some (.decided d) ∧ shouldCascadeRejection d = true ∧
      CorrectedBeside s.record d row ∧
      row' = { row with status := .rejected, reason := some (d.reason.getD "") }
  | _ => False

/-- What one step makes of the approvals. -/
structure LawfulApprovals (s : Session) (a : SessionAction) (t : Session) : Prop where
  together : PendingTogether t
  ids : (t.record.approvals.map ToolApproval.id).Nodup
  kept : ∀ (k : ℕ) row, s.record.approvals[k]? = some row → ∃ row', t.record.approvals[k]? = some row' ∧
    (row' = row ∨ row.status = .pending ∧ row'.status ≠ .pending ∧ ResolvedBy s a row row')
  added : ∀ row ∈ t.record.approvals.drop s.record.approvals.length,
    a = .work .suspend ∧ row.status = .pending
  resumed : ∀ agent box d, a = .resume agent box → s.request = some (.decided d) →
    shouldCascadeRejection d = true → countPending t.record.approvals = 0 ∧ t.turn.isSome

/-! ### What a step does to the approvals -/

/-- What one step can do to the approvals, a constructor for each of its ways. Rows are written only
    while nothing is pending. -/
inductive ApprovalStep (s : Session) : SessionAction → Session → Prop
  | same {a : SessionAction} {t : Session} (happrovals : t.record.approvals = s.record.approvals)
      (hrows : countPending s.record.approvals = 0 ∨ t.record.rows = s.record.rows)
      (hdecided : ∀ d, t.request ≠ some (.decided d))
      (hplain : ∀ agent box d, a = .resume agent box → s.request = some (.decided d) →
        shouldCascadeRejection d = false) : ApprovalStep s a t
  | asked {u : Turn} {path : Path} {approvals : List ToolApproval}
      (hrequest : s.request = some (.turn u path)) (hpc : u.pc = .suspending)
      (hcreated : createPendingApprovals s.record.approvals u.setup.agent.name u.gated =
        some approvals) :
      ApprovalStep s (.work .suspend) ⟨{ s.record with approvals := approvals }, none⟩
  | decided {id : ℕ} {d : Decision} {approvals : List ToolApproval} (hrequest : s.request = none)
      (hadmitted : d.admitted = true)
      (hdecided : decideApproval s.record.approvals id d = some approvals) :
      ApprovalStep s (.decide id d) ⟨{ s.record with approvals := approvals }, some (.decided d)⟩
  | corrected {agent : Agent} {box : Toolbox} {d : Decision} {u : Turn} {path : Path}
      (hrequest : s.request = some (.decided d)) (hcascade : shouldCascadeRejection d = true) :
      ApprovalStep s (.resume agent box) ⟨{ s.record with
        approvals := rejectPendingWithReason s.record.approvals (some (d.reason.getD "")) },
        some (.turn u path)⟩

/-- A turn writes approvals only where it is suspended. -/
theorem turnStep_approvals {s : Record} {t : Turn} {a : TurnAction} {after : After}
    (h : turnStep s t a = some after) : after.1.approvals = s.approvals ∨
      (a = .suspend ∧ t.pc = .suspending ∧ ∃ approvals,
        createPendingApprovals s.approvals t.setup.agent.name t.gated = some approvals ∧
        after = ({ s with approvals := approvals }, .inr .suspended)) := by
  cases turnStep_cases h with
  | suspended hpc hcreated => exact .inr ⟨rfl, hpc, _, hcreated, rfl⟩
  | _ => exact .inl rfl

theorem afterTurn_request (path : Path) (after : After) (d : Decision) :
    (afterTurn path after).request ≠ some (.decided d) := by
  obtain ⟨record, next⟩ := after
  unfold afterTurn
  cases next with
  | inl t => simp
  | inr ended =>
    cases ended with
    | aborted => cases path.viaSend <;> simp
    | _ => simp

/-- A correction leaves nothing pending. -/
@[simp] theorem countPending_rejectPendingWithReason (rows : List ToolApproval)
    (reason : Option String) : countPending (rejectPendingWithReason rows reason) = 0 := by
  refine List.countP_eq_zero.mpr fun row hrow => ?_
  obtain ⟨r, -, rfl⟩ := List.mem_map.mp hrow
  split
  case isTrue => simp
  case isFalse h => simpa using h

/-- A step of an orderly conversation does one of these things to the approvals. -/
theorem approvalStep {s t : Session} {a : SessionAction} (hs : Orderly s)
    (h : sessionStep s a = some t) : ApprovalStep s a t := by
  obtain ⟨record, request⟩ := s
  cases a with
  | send agent box content call =>
    obtain ⟨⟨rfl, hpending, -⟩, rfl⟩ := by simpa [sessionStep] using h
    exact .same rfl (.inl hpending) (fun d => by simp [send]) (by simp)
  | work a =>
    rcases request with _ | r
    · cases h
    cases r with
    | turn u path =>
      obtain ⟨after, hafter, rfl⟩ := Option.map_eq_some_iff.mp h
      rcases turnStep_approvals hafter with hsame | ⟨rfl, hpc, approvals, hcreated, rfl⟩
      · exact .same hsame (.inl hs.2.1) (afterTurn_request path after) (by simp)
      · exact .asked rfl hpc hcreated
    | _ => cases h
  | handOff agent box =>
    rcases request with _ | r
    · cases h
    cases r with
    | answered path =>
      obtain ⟨-, rfl⟩ := by simpa [sessionStep] using h
      exact .same rfl (.inr rfl) (fun d => by simp [handOff]) (by simp)
    | _ => cases h
  | finalize =>
    rcases request with _ | r
    · cases h
    cases r with
    | aborted =>
      obtain rfl := Option.some.inj h
      exact .same rfl (.inl hs.2) (by simp) (by simp)
    | _ => cases h
  | respond =>
    rcases request with _ | r
    · cases h
    cases r with
    | answered path =>
      obtain rfl := Option.some.inj h
      exact .same rfl (.inr rfl) (by simp) (by simp)
    | _ => cases h
  | decide id d =>
    obtain ⟨⟨rfl, hadmitted⟩, approvals, hdecided, rfl⟩ := by simpa [sessionStep] using h
    exact .decided rfl hadmitted hdecided
  | resume agent box =>
    rcases request with _ | r
    · cases h
    cases r with
    | decided d =>
      obtain rfl := Option.some.inj h
      cases hcascade : shouldCascadeRejection d with
      | true =>
        have hnext := @ApprovalStep.corrected ⟨record, some (.decided d)⟩ agent box d
          (.resume (chatSetup agent box) (loadHistory record.rows) (lastSequence record.rows))
          ⟨false, 0⟩ rfl hcascade
        simpa [resume, hcascade] using hnext
      | false =>
        refine .same (by simp [resume, hcascade]) (.inr rfl) (fun d' => ?_) fun _ _ d' _ hd => ?_
        · simp only [resume]
          split <;> simp
        · obtain rfl : d = d' := by simpa using hd
          exact hcascade
    | _ => cases h
  | lose =>
    obtain rfl := Option.some.inj h
    exact .same rfl (.inr rfl) (by simp) (by simp)

/-! ### The invariant -/

/-- What holds of the approvals between the steps: nothing is pending but calls of the last reply;
    ids are places; and a decision being carried out stands on a call of that reply. -/
structure Approved (s : Session) : Prop where
  orderly : Orderly s
  together : PendingTogether s
  ids : ∀ (k : ℕ) row, s.record.approvals[k]? = some row → row.id = k
  decided : ∀ d, s.request = some (.decided d) → ∃ first ∈ s.record.approvals,
    first.status = d.status ∧ first.reason = d.reason ∧
    ∃ reply, s.record.rows.getLast? = some reply ∧ first.call.1 = reply.sequence

theorem approved_created : Approved .created where
  orderly := orderly_created
  together := by simp [PendingTogether, Session.created]
  ids := by simp [Session.created]
  decided := by simp [Session.created]

theorem not_pending {rows : List ToolApproval} (h : countPending rows = 0) {row : ToolApproval}
    (hrow : row ∈ rows) : row.status ≠ .pending := by
  simpa using List.countP_eq_zero.mp h row hrow

/-- While something is pending no turn is at work. -/
theorem Orderly.turn_none {s : Session} (hs : Orderly s) {row : ToolApproval}
    (hrow : row ∈ s.record.approvals) (hpending : row.status = .pending) : s.turn = none := by
  obtain ⟨record, request⟩ := s
  match request, hs with
  | some (.turn t path), hs => exact absurd hpending (not_pending hs.2.1 hrow)
  | some (.decided _), _ | some (.answered _), _ | some .aborted, _ | none, _ => rfl

/-- Ids that are places are all different. -/
theorem ids_nodup {rows : List ToolApproval} (h : ∀ (k : ℕ) row, rows[k]? = some row → row.id = k) :
    (rows.map ToolApproval.id).Nodup := by
  have hrange : rows.map ToolApproval.id = List.range rows.length := by
    refine List.ext_getElem (by simp) fun k hk _ => ?_
    simpa using h k _ (List.getElem?_eq_getElem (by simpa using hk))
  rw [hrange]
  exact List.nodup_range

/-! ### What a step makes of one approval -/

/-- A resolved approval stays; a pending one stays, or is resolved as the step may. -/
def Resolves (s : Session) (a : SessionAction) (f : ToolApproval → ToolApproval) : Prop :=
  ∀ row ∈ s.record.approvals, f row = row ∨
    row.status = .pending ∧ (f row).status ≠ .pending ∧ ResolvedBy s a row (f row)

/-- Where approvals are resolved in place, what is pending still was so, and asks what it asked. -/
theorem together_resolved {s t : Session} {a : SessionAction} {f : ToolApproval → ToolApproval}
    (hs : Approved s) (hf : Resolves s a f) (ht : Orderly t)
    (hmap : t.record.approvals = s.record.approvals.map f)
    (hrows : countPending s.record.approvals = 0 ∨ t.record.rows = s.record.rows) :
    PendingTogether t := by
  intro row hrow hpending
  refine ⟨ht.turn_none hrow hpending, ?_⟩
  rw [hmap] at hrow
  obtain ⟨r, hr, rfl⟩ := List.mem_map.mp hrow
  rcases hf r hr with hsame | ⟨-, hresolved, -⟩
  · rw [hsame] at hpending ⊢
    rcases hrows with hnone | hrows
    · exact absurd hpending (not_pending hnone hr)
    · rw [hrows]
      exact (hs.together r hr hpending).2
  · exact absurd hpending hresolved

theorem kept_resolved {s t : Session} {a : SessionAction} {f : ToolApproval → ToolApproval}
    (hf : Resolves s a f) (hmap : t.record.approvals = s.record.approvals.map f) (k : ℕ)
    (row : ToolApproval) (hrow : s.record.approvals[k]? = some row) :
    ∃ row', t.record.approvals[k]? = some row' ∧
      (row' = row ∨ row.status = .pending ∧ row'.status ≠ .pending ∧ ResolvedBy s a row row') :=
  ⟨f row, by rw [hmap, List.getElem?_map, hrow]; rfl, hf row (List.mem_of_getElem? hrow)⟩

theorem ids_resolved {s t : Session} {f : ToolApproval → ToolApproval} (hs : Approved s)
    (hid : ∀ row, (f row).id = row.id) (hmap : t.record.approvals = s.record.approvals.map f)
    (k : ℕ) (row : ToolApproval) (hrow : t.record.approvals[k]? = some row) : row.id = k := by
  rw [hmap, List.getElem?_map] at hrow
  obtain ⟨r, hr, rfl⟩ := Option.map_eq_some_iff.mp hrow
  rw [hid]
  exact hs.ids k r hr

theorem added_resolved {s t : Session} {a : SessionAction} {f : ToolApproval → ToolApproval}
    (hmap : t.record.approvals = s.record.approvals.map f) :
    ∀ row ∈ t.record.approvals.drop s.record.approvals.length,
      a = .work .suspend ∧ row.status = .pending := by
  rw [hmap, List.drop_eq_nil_of_le (by simp)]
  simp

/-- `decide`'s UPDATE, on one row. -/
def decideRow (id : ℕ) (d : Decision) (row : ToolApproval) : ToolApproval :=
  if row.id = id ∧ row.status = .pending then resolve d row else row

/-- The UPDATE of `reject_pending_with_reason`, on one row. -/
def correctRow (reason : Option String) (row : ToolApproval) : ToolApproval :=
  if row.status = .pending then { row with status := .rejected, reason := reason } else row

@[simp] theorem decideRow_id (id : ℕ) (d : Decision) (row : ToolApproval) :
    (decideRow id d row).id = row.id := by
  unfold decideRow
  split <;> rfl

@[simp] theorem correctRow_id (reason : Option String) (row : ToolApproval) :
    (correctRow reason row).id = row.id := by
  unfold correctRow
  split <;> rfl

/-- The rows once `decide` went through: the pending one of that id is resolved. -/
theorem decideApproval_eq {rows approvals : List ToolApproval} {id : ℕ} {d : Decision}
    (h : decideApproval rows id d = some approvals) : approvals = rows.map (decideRow id d) ∧
      ∃ row ∈ rows, row.id = id ∧ row.status = .pending := by
  rw [decideApproval] at h
  split at h
  case isTrue hany =>
    refine ⟨(Option.some.inj h).symm, ?_⟩
    obtain ⟨row, hrow, hboth⟩ := List.any_eq_true.mp hany
    rw [Bool.and_eq_true, beq_iff_eq, beq_iff_eq] at hboth
    exact ⟨row, hrow, hboth⟩
  case isFalse => cases h

theorem resolves_decide {s : Session} {id : ℕ} {d : Decision} (hadmitted : d.admitted = true) :
    Resolves s (.decide id d) (decideRow id d) := by
  intro row _
  by_cases hrow : row.id = id ∧ row.status = .pending
  · have heq : decideRow id d row = resolve d row := if_pos hrow
    refine .inr ⟨hrow.2, ?_, hrow.1, heq⟩
    rw [heq]
    intro hpending
    have hd : d.status = .pending := hpending
    simp [Decision.admitted, hd] at hadmitted
  · exact .inl (if_neg hrow)

/-- A correction reaches only what asks about the reply it was written on. -/
theorem resolves_corrected {s : Session} (agent : Agent) (box : Toolbox) {d : Decision}
    (hs : Approved s) (hrequest : s.request = some (.decided d))
    (hcascade : shouldCascadeRejection d = true) :
    Resolves s (.resume agent box) (correctRow (some (d.reason.getD ""))) := by
  intro row hrow
  by_cases hpending : row.status = .pending
  · refine .inr ⟨hpending, by simp [correctRow, hpending], d, hrequest, hcascade, ?_,
      if_pos hpending⟩
    obtain ⟨first, hfirst, hstatus, hreason, reply, hreply, hcall⟩ := hs.decided d hrequest
    obtain ⟨-, reply', hreply', -, use, huse, -⟩ := hs.together row hrow hpending
    obtain rfl : reply = reply' := Option.some.inj (hreply.symm.trans hreply')
    have hrejected : d.status = .rejected := by
      rw [shouldCascadeRejection, Bool.and_eq_true, beq_iff_eq] at hcascade
      exact hcascade.1
    exact ⟨first, hfirst, hstatus.trans hrejected, hreason,
      hcall.trans (numbered_message huse).symm⟩
  · exact .inl (if_neg hpending)

/-- The approvals a suspended turn creates come after those there were, a pending one for each of
    its gated calls. -/
theorem createPendingApprovals_eq {rows approvals : List ToolApproval} {name : String}
    {gated : List (CallId × ToolUse)}
    (h : createPendingApprovals rows name gated = some approvals) :
    approvals = rows ++ gated.mapIdx fun k entry =>
      pendingApproval name (rows.length + k) entry.1 entry.2 := by
  unfold createPendingApprovals at h
  dsimp only at h
  split at h
  case isTrue => exact (Option.some.inj h).symm
  case isFalse => cases h

/-- The approvals just created ask about the calls of the reply. -/
theorem asksAbout_created {s : Record} {u : Turn} {row : ToolApproval} {k : ℕ}
    {entry : CallId × ToolUse} (hlast : LastReply s.rows u.message u.uses)
    (hentry : entry ∈ u.gated)
    (hrow : row = pendingApproval u.setup.agent.name k entry.1 entry.2) :
    ∃ reply, s.rows.getLast? = some reply ∧ AsksAbout row reply := by
  obtain ⟨reply, hreply, hfinal, -, hseq, huses⟩ := hlast
  subst hrow
  refine ⟨reply, hreply, hfinal, entry.2, ?_, rfl, rfl, rfl⟩
  rw [hseq, huses]
  exact (List.mem_filter.mp hentry).1

/-- A turn is suspended with nothing pending before. -/
theorem together_created {s : Session} {u : Turn} {path : Path} {approvals : List ToolApproval}
    (hs : Approved s) (hrequest : s.request = some (.turn u path)) (hpc : u.pc = .suspending)
    (hcreated : createPendingApprovals s.record.approvals u.setup.agent.name u.gated =
      some approvals) : PendingTogether ⟨{ s.record with approvals := approvals }, none⟩ := by
  have horderly := hs.orderly.2
  simp only [hrequest, Working, hpc] at horderly
  obtain ⟨hnone, -, hlast, -⟩ := horderly
  intro row hrow hpending
  refine ⟨rfl, ?_⟩
  obtain rfl := createPendingApprovals_eq hcreated
  rcases List.mem_append.mp hrow with hold | hnew
  · exact absurd hpending (not_pending hnone hold)
  · obtain ⟨k, hk, rfl⟩ := List.mem_mapIdx.mp hnew
    exact asksAbout_created hlast (List.getElem_mem hk) rfl

/-- New approvals are numbered on. -/
theorem ids_created {rows approvals : List ToolApproval} {name : String}
    {gated : List (CallId × ToolUse)}
    (hids : ∀ (k : ℕ) row, rows[k]? = some row → row.id = k)
    (h : createPendingApprovals rows name gated = some approvals) (k : ℕ) (row : ToolApproval)
    (hrow : approvals[k]? = some row) : row.id = k := by
  rw [createPendingApprovals_eq h] at hrow
  by_cases hk : k < rows.length
  · rw [List.getElem?_append_left hk] at hrow
    exact hids k row hrow
  · rw [List.getElem?_append_right (Nat.le_of_not_lt hk), List.getElem?_mapIdx] at hrow
    obtain ⟨entry, -, rfl⟩ := Option.map_eq_some_iff.mp hrow
    simp only [pendingApproval]
    omega

/-! ### One step, and a run -/

/-- A step keeps the invariant. -/
theorem approved_step (s : Session) (a : SessionAction) (t : Session) (hs : Approved s)
    (h : sessionStep s a = some t) : Approved t := by
  have ht := orderly_step s a t hs.orderly h
  cases approvalStep hs.orderly h with
  | same happrovals hrows hdecided _ =>
    refine ⟨ht, ?_, ?_, fun d hd => absurd hd (hdecided d)⟩
    · exact together_resolved (a := a) hs (fun _ _ => .inl rfl) ht (by simpa using happrovals) hrows
    · rw [happrovals]
      exact hs.ids
  | asked hrequest hpc hcreated =>
    exact ⟨ht, together_created hs hrequest hpc hcreated, ids_created hs.ids hcreated, by simp⟩
  | @decided id d approvals hrequest hadmitted hdecided =>
    obtain ⟨rfl, row, hrow, hid, hpending⟩ := decideApproval_eq hdecided
    refine ⟨ht, together_resolved hs (resolves_decide hadmitted) ht rfl (.inr rfl),
      ids_resolved hs (decideRow_id id d) rfl, fun d' hd => ?_⟩
    obtain rfl : d = d' := by simpa using hd
    obtain ⟨-, reply, hreply, -, use, huse, -⟩ := hs.together row hrow hpending
    exact ⟨decideRow id d row, List.mem_map_of_mem hrow, by simp [decideRow, hid, hpending, resolve],
      by simp [decideRow, hid, hpending, resolve], reply, hreply,
      by simpa [decideRow, hid, hpending, resolve] using numbered_message huse⟩
  | @corrected agent box d u path hrequest hcascade =>
    have hf := resolves_corrected agent box hs hrequest hcascade
    exact ⟨ht, together_resolved hs hf ht rfl (.inr rfl),
      ids_resolved hs (correctRow_id _) rfl, by simp⟩

/-- What a step makes of the approvals is lawful. -/
theorem lawfulApprovals_step (s : Session) (a : SessionAction) (t : Session) (hs : Approved s)
    (h : sessionStep s a = some t) : LawfulApprovals s a t := by
  have ht := approved_step s a t hs h
  refine ⟨ht.together, ids_nodup ht.ids, ?_, ?_, ?_⟩
  · cases approvalStep hs.orderly h with
    | same happrovals _ _ _ =>
      exact kept_resolved (f := id) (fun _ _ => .inl rfl) (by simpa using happrovals)
    | asked _ _ hcreated =>
      intro k row hrow
      refine ⟨row, ?_, .inl rfl⟩
      obtain ⟨hk, -⟩ := List.getElem?_eq_some_iff.mp hrow
      obtain rfl := createPendingApprovals_eq hcreated
      exact (List.getElem?_append_left hk).trans hrow
    | decided _ hadmitted hdecided =>
      exact kept_resolved (resolves_decide hadmitted) (decideApproval_eq hdecided).1
    | corrected hrequest hcascade =>
      exact kept_resolved (resolves_corrected _ _ hs hrequest hcascade) rfl
  · cases approvalStep hs.orderly h with
    | same happrovals _ _ _ => exact added_resolved (f := id) (by simpa using happrovals)
    | asked _ _ hcreated =>
      intro row hrow
      obtain rfl := createPendingApprovals_eq hcreated
      rw [List.drop_left] at hrow
      obtain ⟨k, hk, rfl⟩ := List.mem_mapIdx.mp hrow
      exact ⟨rfl, rfl⟩
    | decided _ _ hdecided => exact added_resolved (decideApproval_eq hdecided).1
    | corrected _ _ => exact added_resolved (f := correctRow _) rfl
  · intro agent box d ha hd hcascade
    subst ha
    cases approvalStep hs.orderly h with
    | same _ _ _ hplain => simp [hplain agent box d rfl hd] at hcascade
    | corrected _ _ => exact ⟨countPending_rejectPendingWithReason _ _, rfl⟩

/-- SAFETY: whatever turns, suspensions, decisions, resumes and losses a conversation has, all that
    is pending asks about the one reply it ends with, in the words of that reply, while no turn is
    at work; an approval is resolved once, by the decision made about it or by a correction written
    on another call of the same reply, and stays so; and a correction always resumes the turn. -/
theorem lawfulApprovals_run (as : List SessionAction) :
    EveryStep sessionStep LawfulApprovals .created as :=
  everyStep_of_inv approved_step lawfulApprovals_step approved_created

end LunaCore.Engine
