import LunaCore.Engine.Interruption

/-! What a promotion makes visible.

    A model call that ends early leaves what streamed as a partial row, which neither `list_messages`
    nor the history a model is sent has. After an aborted send one UPDATE makes all partial rows of
    the conversation final:

        attempt fails ─→ partial ┐
        decision aborted ─→ partial ├─ UPDATE ─→ visible
        send aborted ─→ partial  ┘

    It shows the aborted call's and nothing else just when no call was given up, since the UPDATE
    before, that had streamed something. -/

namespace LunaCore.Engine.Interruption
open LunaCore.Schemes LunaCore.Providers

/-! ### What is asked of a promotion -/

/-- `list_messages`, and the history a call is sent: the row in this place is there. -/
def Shown (s : State) (i : ℕ) : Prop := ∃ row ∈ s.rows[i]?, row.row.isPartial = false

/-- The call whose signal the turn caught. -/
def State.aborted (s : State) : Option Call := s.turn.bind fun turn => turn.phase.aborted

/-- The call whose partial the step is to make visible. -/
def toShow (s : State) : Action → Option Call
  | .turn .finalize => s.aborted
  | _ => none

/-- A partial row becomes visible just when it is the aborted call's, and then no call has completed
    its request. -/
structure ShowsAborted (s : State) (a : Action) (t : State) : Prop where
  exactly : ∀ i row, s.rows[i]? = some row → row.row.isPartial = true →
    (Shown t i ↔ ∃ c ∈ toShow s a, c.owns row = true)
  unanswered : ∀ i row, s.rows[i]? = some row → row.row.isPartial = true → Shown t i →
    ∀ other ∈ s.rows, other.row.isPartial = false →
      ∀ o ∈ row.origin, ∀ o' ∈ other.origin, o'.1 ≠ o.1

/-- No call was given up, since the last promotion, that left a partial row. -/
def NoneLeft (s : State) : Action → Prop
  | .turn .finalize => s.left = []
  | _ => True

/-! ### Whose the partial rows are -/

/-- The call that streams, or whose signal was caught and whose partial is not final yet. -/
def Phase.current : Phase → Option Call
  | .calling c | .aborting c | .flagDeleted c => some c
  | _ => none

/-- The request that has no answer yet. -/
def Phase.request : Phase → Option ℕ
  | .calling c | .aborting c | .flagDeleted c => some c.request
  | .retrying request => some request
  | _ => none

def State.current (s : State) : Option Call := s.turn.bind fun turn => turn.phase.current

def State.request (s : State) : Option ℕ := s.turn.bind fun turn => turn.phase.request

/-- A partial row is the aborted call's or of a call that was given up, each of which has one, and
    the request that is open has no completed call. -/
structure Tracked (s : State) : Prop where
  whose : ∀ row ∈ s.rows, row.row.isPartial = true →
    (∃ o ∈ row.origin, o.2 ∈ s.left) ∨ ∃ c ∈ s.aborted, c.owns row = true
  there : ∀ m ∈ s.left, ∃ row ∈ s.rows, row.row.isPartial = true ∧ ∃ o ∈ row.origin, o.2 = m
  apart : ∀ c ∈ s.current, c.message ∉ s.left
  given : ∀ row ∈ s.rows, ∀ o ∈ row.origin, o.1 < s.requests
  asked : ∀ r ∈ s.request, r < s.requests
  unanswered : ∀ r ∈ s.request, ∀ row ∈ s.rows, row.row.isPartial = false →
    ∀ o ∈ row.origin, o.1 ≠ r

theorem forall_mem_of_none {α : Type*} {o : Option α} {P : α → Prop} (h : o = none) :
    ∀ a ∈ o, P a := by
  simp [h]

theorem tracked_empty : Tracked .empty := by
  refine ⟨?_, ?_, ?_, ?_, ?_, ?_⟩ <;> simp [State.empty, State.current, State.request]

/-- The rows stay. -/
theorem tracked_stays {s t : State} (hs : Tracked s) (hrows : t.rows = s.rows)
    (hleft : t.left = s.left) (hrequests : s.requests ≤ t.requests)
    (haborted : ∀ c ∈ s.aborted, c ∈ t.aborted) (hcurrent : ∀ c ∈ t.current, c.message ∉ s.left)
    (hrequest : ∀ r ∈ t.request, r ∈ s.request ∨ r = s.requests ∧ r < t.requests) : Tracked t := by
  refine ⟨?_, ?_, ?_, ?_, ?_, ?_⟩
  · rw [hrows, hleft]
    intro row hrow hpart
    refine (hs.whose row hrow hpart).imp_right ?_
    rintro ⟨c, hc, howns⟩
    exact ⟨c, haborted c hc, howns⟩
  · rw [hrows, hleft]
    exact hs.there
  · rw [hleft]
    exact hcurrent
  · rw [hrows]
    exact fun row hrow o ho => (hs.given row hrow o ho).trans_le hrequests
  · intro r hr
    rcases hrequest r hr with hold | ⟨_, hlt⟩
    · exact (hs.asked r hold).trans_le hrequests
    · exact hlt
  · rw [hrows]
    intro r hr row hrow hfinal o ho
    rcases hrequest r hr with hold | ⟨rfl, _⟩
    · exact hs.unanswered r hold row hrow hfinal o ho
    · exact (hs.given row hrow o ho).ne

/-- The turn goes on outside any request, and no signal had been caught. -/
theorem tracked_between {s t : State} (hs : Tracked s) (hrows : t.rows = s.rows)
    (hleft : t.left = s.left) (hrequests : t.requests = s.requests) (haborted : s.aborted = none)
    (hcurrent : t.current = none) (hrequest : t.request = none) : Tracked t :=
  tracked_stays hs hrows hleft hrequests.ge (forall_mem_of_none haborted)
    (forall_mem_of_none hcurrent) (forall_mem_of_none hrequest)

/-- A final row joins the others, and no request is open, or it is no call's. -/
theorem tracked_final {s t : State} (hs : Tracked s) {row : StoredRow}
    (hfinal : row.row.isPartial = false) (hrow : ∀ o ∈ row.origin, o.1 < s.requests)
    (hrows : t.rows = s.rows ++ [row]) (hleft : t.left = s.left) (hrequests : t.requests = s.requests)
    (haborted : s.aborted = none) (hcurrent : t.current = none) (hrequest : t.request = none) :
    Tracked t := by
  refine ⟨?_, ?_, ?_, ?_, ?_, ?_⟩
  · rw [hrows, hleft]
    intro r hr hpart
    rcases List.mem_append.mp hr with hold | hnew
    · refine .inl ((hs.whose r hold hpart).resolve_right ?_)
      simp [haborted]
    · obtain rfl := List.mem_singleton.mp hnew
      rw [hfinal] at hpart
      cases hpart
  · rw [hrows, hleft]
    intro m hm
    obtain ⟨r, hr, h⟩ := hs.there m hm
    exact ⟨r, List.mem_append_left _ hr, h⟩
  · simp [hcurrent]
  · rw [hrows, hrequests]
    intro r hr
    rcases List.mem_append.mp hr with hold | hnew
    · exact hs.given r hold
    · obtain rfl := List.mem_singleton.mp hnew
      exact hrow
  · simp [hrequest]
  · simp [hrequest]

/-- A call ends with its partial row, if it has one. -/
theorem tracked_ended {s t : State} (hs : Tracked s) {c : Call} (hempty : c.streamed.rows = [])
    (hc : s.current = some c) (hrequest : s.request = some c.request) (haborted : s.aborted = none)
    {saved : Bool} (hrows : t.rows = s.rows ++ c.partialRows saved)
    (hrequests : t.requests = s.requests) (hopen : ∀ r ∈ t.request, r = c.request)
    (hend : (t.left = s.left ∧ t.aborted = some c ∧ t.current = some c) ∨
      (t.left = s.left ++ (c.partialRows saved).map (fun _ => c.message) ∧ t.current = none)) :
    Tracked t := by
  have hmem (row : StoredRow) (hrow : row ∈ c.partialRows saved) := mem_partialRows hempty hrow
  have hold (row : StoredRow) (hrow : row ∈ s.rows) (hpart : row.row.isPartial = true) :
      ∃ o ∈ row.origin, o.2 ∈ s.left := by
    refine (hs.whose row hrow hpart).resolve_right ?_
    simp [haborted]
  refine ⟨?_, ?_, ?_, ?_, ?_, ?_⟩
  · rw [hrows]
    intro row hrow hpart
    rcases List.mem_append.mp hrow with hin | hnew
    · obtain ⟨o, ho, hleft⟩ := hold row hin hpart
      refine .inl ⟨o, ho, ?_⟩
      rcases hend with ⟨hsame, _⟩ | ⟨hmore, _⟩
      · exact hsame ▸ hleft
      · exact hmore ▸ List.mem_append_left _ hleft
    · have horigin := (hmem row hnew).1
      rcases hend with ⟨_, hcaught, _⟩ | ⟨hmore, _⟩
      · exact .inr ⟨c, hcaught, by simp [Call.owns, horigin]⟩
      · refine .inl ⟨_, horigin, ?_⟩
        rw [hmore]
        exact List.mem_append_right _ (List.mem_map.mpr ⟨row, hnew, rfl⟩)
  · rw [hrows]
    have hkeep (m : ℕ) (hm : m ∈ s.left) : ∃ row ∈ s.rows ++ c.partialRows saved,
        row.row.isPartial = true ∧ ∃ o ∈ row.origin, o.2 = m := by
      obtain ⟨row, hrow, h⟩ := hs.there m hm
      exact ⟨row, List.mem_append_left _ hrow, h⟩
    rcases hend with ⟨hsame, _⟩ | ⟨hmore, _⟩
    · rw [hsame]
      exact hkeep
    · rw [hmore]
      intro m hm
      rcases List.mem_append.mp hm with hin | hnew
      · exact hkeep m hin
      · obtain ⟨row, hrow, rfl⟩ := List.mem_map.mp hnew
        exact ⟨row, List.mem_append_right _ hrow, (hmem row hrow).2.1, _, (hmem row hrow).1, rfl⟩
  · rcases hend with ⟨hsame, _, hcurrent⟩ | ⟨_, hcurrent⟩
    · rw [hsame, hcurrent, ← hc]
      exact hs.apart
    · simp [hcurrent]
  · rw [hrows, hrequests]
    intro row hrow o ho
    rcases List.mem_append.mp hrow with hin | hnew
    · exact hs.given row hin o ho
    · rw [(hmem row hnew).1] at ho
      obtain rfl := Option.some.inj ho
      exact hs.asked _ hrequest
  · rw [hrequests]
    intro r hr
    rw [hopen r hr]
    exact hs.asked _ hrequest
  · rw [hrows]
    intro r hr row hrow hfinal
    rw [hopen r hr]
    rcases List.mem_append.mp hrow with hin | hnew
    · exact hs.unanswered _ hrequest row hin hfinal
    · rw [(hmem row hnew).2.1] at hfinal
      cases hfinal

/-- The turn ends; a partial of the call whose signal was caught is left. -/
theorem tracked_endTurn {s : State} (hs : Tracked s) {turn : Turn} (hturn : s.turn = some turn) :
    Tracked (s.endTurn turn) := by
  have haborted : s.aborted = turn.phase.aborted := by rw [State.aborted, hturn]; rfl
  refine ⟨?_, ?_, forall_mem_of_none rfl, hs.given, forall_mem_of_none rfl, forall_mem_of_none rfl⟩
  · intro row hrow hpart
    refine .inl ?_
    rcases hs.whose row hrow hpart with ⟨o, ho, hleft⟩ | ⟨c, hc, howns⟩
    · exact ⟨o, ho, List.mem_append_left _ hleft⟩
    · refine ⟨_, of_decide_eq_true howns, List.mem_append_right _ ?_⟩
      rw [haborted] at hc
      rw [hc]
      exact List.mem_map.mpr ⟨row, List.mem_filter.mpr ⟨hrow, by simp [hpart, howns]⟩, rfl⟩
  · intro m hm
    rcases List.mem_append.mp hm with hin | hnew
    · exact hs.there m hin
    · cases hcaught : turn.phase.aborted with
      | none =>
        rw [hcaught] at hnew
        cases hnew
      | some c =>
        rw [hcaught] at hnew
        obtain ⟨row, hrow, rfl⟩ := List.mem_map.mp hnew
        obtain ⟨hin, hboth⟩ := List.mem_filter.mp hrow
        obtain ⟨hpart, howns⟩ := Bool.and_eq_true_iff.mp hboth
        exact ⟨row, hin, hpart, _, of_decide_eq_true howns, rfl⟩

/-- A message id that was not given out is no call's that was given up. -/
theorem Tracked.fresh {s : State} (hs : Tracked s) (hsound : Sound s) : s.messages ∉ s.left := by
  intro hm
  obtain ⟨row, hrow, _, o, ho, hmessage⟩ := hs.there _ hm
  have hlt := hsound.rows row hrow o ho
  omega

/-- STEP: what the turn does keeps track of the partial rows. -/
theorem tracked_moves {s t : State} (hs : Tracked s) (hsound : Sound s) {turn : Turn}
    (hturn : s.turn = some turn) {a : TurnAction} (h : Moves s turn a t) : Tracked t := by
  have haborted : s.aborted = turn.phase.aborted := by rw [State.aborted, hturn]; rfl
  have hcurrent : s.current = turn.phase.current := by rw [State.current, hturn]; rfl
  have hrequest : s.request = turn.phase.request := by rw [State.request, hturn]; rfl
  cases h with
  | clearStale hphase =>
    rw [hphase] at haborted
    exact tracked_between hs rfl rfl rfl haborted rfl rfl
  | store hphase content =>
    rw [hphase] at haborted hcurrent hrequest
    refine tracked_final hs rfl ?_ rfl rfl rfl haborted hcurrent hrequest
    intro o ho
    cases ho
  | call hphase =>
    refine tracked_stays hs rfl rfl (Nat.le_succ _) (by simp [haborted, hphase, Phase.aborted]) ?_ ?_
    · rintro _ ⟨⟩
      exact hs.fresh hsound
    · rintro _ ⟨⟩
      exact .inr ⟨rfl, Nat.lt_succ_self _⟩
  | chunk c hphase kind text =>
    rw [hphase] at hcurrent hrequest
    refine tracked_stays hs rfl rfl le_rfl (by simp [haborted, hphase, Phase.aborted]) ?_ ?_
    · rintro _ ⟨⟩
      exact hs.apart c hcurrent
    · rintro _ ⟨⟩
      exact .inl hrequest
  | look c hphase saved hflag => exact hs
  | caught c hphase saved hflag hkind =>
    rw [hphase] at haborted hcurrent hrequest
    refine tracked_ended hs (hsound.turn turn hturn |>.streaming c hphase).1 hcurrent hrequest
      haborted rfl rfl ?_ (.inl ⟨rfl, rfl, rfl⟩)
    rintro _ ⟨⟩
    rfl
  | raised c hphase saved hflag hkind =>
    rw [hphase] at haborted hcurrent hrequest
    refine tracked_ended hs (hsound.turn turn hturn |>.streaming c hphase).1 hcurrent hrequest
      haborted rfl rfl (forall_mem_of_none rfl) (.inr ⟨?_, rfl⟩)
    simp [State.endTurn, State.giveUp, hphase, Phase.aborted]
  | attemptFails c hphase saved =>
    rw [hphase] at haborted hcurrent hrequest
    refine tracked_ended hs (hsound.turn turn hturn |>.streaming c hphase).1 hcurrent hrequest
      haborted rfl rfl ?_ (.inr ⟨rfl, rfl⟩)
    rintro _ ⟨⟩
    rfl
  | attemptReturns c hphase content thinking =>
    rw [hphase] at haborted hcurrent hrequest
    refine tracked_final hs rfl ?_ rfl rfl rfl haborted rfl rfl
    rintro _ ⟨⟩
    exact hs.asked _ hrequest
  | retry request hphase =>
    rw [hphase] at hrequest
    refine tracked_stays hs rfl rfl le_rfl (by simp [haborted, hphase, Phase.aborted]) ?_ ?_
    · rintro _ ⟨⟩
      exact hs.fresh hsound
    · rintro _ ⟨⟩
      exact .inl hrequest
  | words hphase =>
    rw [hphase] at haborted
    exact tracked_between hs rfl rfl rfl haborted rfl rfl
  | wordsLook hphase hflag => exact hs
  | swallowed hphase hflag =>
    rw [hphase] at haborted
    exact tracked_between hs rfl rfl rfl haborted rfl rfl
  | wordsReturn hphase =>
    rw [hphase] at haborted
    exact tracked_between hs rfl rfl rfl haborted rfl rfl
  | finish hphase => exact tracked_endTurn hs hturn
  | fail => exact tracked_endTurn hs hturn
  | deleteFlag c hphase =>
    rw [hphase] at haborted hcurrent hrequest
    refine tracked_stays hs rfl rfl le_rfl ?_ ?_ ?_
    · rw [haborted]
      exact fun _ h => h
    · rintro _ ⟨⟩
      exact hs.apart c hcurrent
    · rintro _ ⟨⟩
      exact .inl hrequest
  | finalize c hphase =>
    refine ⟨?_, ?_, forall_mem_of_none rfl, ?_, forall_mem_of_none rfl, forall_mem_of_none rfl⟩
    · intro row hrow hpart
      obtain ⟨old, _, rfl⟩ := List.mem_map.mp hrow
      cases hpart
    · intro m hm
      cases hm
    · intro row hrow
      obtain ⟨old, hold, rfl⟩ := List.mem_map.mp hrow
      exact hs.given old hold
  | respond c hphase => exact tracked_endTurn hs hturn
  | lose => exact tracked_endTurn hs hturn

/-- A step that moves no turn keeps the call and the request it has. -/
theorem tracked_flagged {s t : State} (hs : Tracked s) (hrows : t.rows = s.rows)
    (hleft : t.left = s.left) (hrequests : t.requests = s.requests)
    {f : Turn → Turn} (hmap : t.turn = s.turn.map f) (hphase : ∀ turn, (f turn).phase = turn.phase) :
    Tracked t := by
  have haborted : t.aborted = s.aborted := by
    rw [State.aborted, State.aborted, hmap]
    cases s.turn <;> simp [hphase]
  have hcurrent : t.current = s.current := by
    rw [State.current, State.current, hmap]
    cases s.turn <;> simp [hphase]
  have hrequest : t.request = s.request := by
    rw [State.request, State.request, hmap]
    cases s.turn <;> simp [hphase]
  refine tracked_stays hs hrows hleft hrequests.ge ?_ ?_ ?_
  · rw [haborted]
    exact fun _ h => h
  · rw [hcurrent]
    exact hs.apart
  · rw [hrequest]
    exact fun _ h => .inl h

theorem tracked_step {s t : State} (hs : Tracked s) (hsound : Sound s) {a : Action}
    (h : step s a = some t) : Tracked t := by
  cases a with
  | start kind =>
    simp only [step] at h
    split at h
    case isFalse => cases h
    case isTrue hnone =>
      obtain rfl := Option.some.inj h
      have haborted : s.aborted = none := by
        rw [State.aborted, Option.isNone_iff_eq_none.mp hnone]
        rfl
      refine tracked_stays hs rfl rfl le_rfl (by simp [haborted]) ?_ ?_
      all_goals cases kind <;> exact forall_mem_of_none rfl
  | turn a =>
    obtain ⟨turn, hturn, hmove⟩ := Option.bind_eq_some_iff.mp h
    exact tracked_moves hs hsound hturn (moves_of_turnStep hmove)
  | abort =>
    obtain rfl := Option.some.inj h
    exact tracked_flagged hs rfl rfl rfl rfl fun _ => rfl
  | expire =>
    obtain rfl := Option.some.inj h
    exact tracked_flagged hs rfl rfl rfl rfl fun _ => rfl

/-! ### What a step shows -/

/-- Only a promotion makes a row visible that was not. -/
theorem moves_rows {s t : State} {turn : Turn} {a : TurnAction} (h : Moves s turn a t) :
    (∃ new, t.rows = s.rows ++ new) ∨ a = .finalize := by
  have hself : ∃ new, s.rows = s.rows ++ new := ⟨[], (List.append_nil _).symm⟩
  cases h with
  | store hphase content => exact .inl ⟨_, rfl⟩
  | caught c hphase saved hflag hkind => exact .inl ⟨_, rfl⟩
  | raised c hphase saved hflag hkind => exact .inl ⟨_, rfl⟩
  | attemptFails c hphase saved => exact .inl ⟨_, rfl⟩
  | attemptReturns c hphase content thinking => exact .inl ⟨_, rfl⟩
  | finalize c hphase => exact .inr rfl
  | _ => exact .inl hself

theorem step_rows {s t : State} {a : Action} (h : step s a = some t) :
    (∃ new, t.rows = s.rows ++ new) ∨ a = .turn .finalize := by
  cases a with
  | start kind =>
    simp only [step] at h
    split at h
    case isFalse => cases h
    case isTrue =>
      obtain rfl := Option.some.inj h
      exact .inl ⟨[], (List.append_nil _).symm⟩
  | turn a =>
    obtain ⟨turn, _, hmove⟩ := Option.bind_eq_some_iff.mp h
    refine (moves_rows (moves_of_turnStep hmove)).imp_right ?_
    rintro rfl
    rfl
  | _ =>
    obtain rfl := Option.some.inj h
    exact .inl ⟨[], (List.append_nil _).symm⟩

/-- Where rows are only added, a partial row stays hidden. -/
theorem not_shown_of_append {s t : State} {new : List StoredRow} (h : t.rows = s.rows ++ new) {i : ℕ}
    {row : StoredRow} (hrow : s.rows[i]? = some row) (hpart : row.row.isPartial = true) :
    ¬ Shown t i := by
  rintro ⟨row', hrow', hfinal⟩
  have hlt := (List.getElem?_eq_some_iff.mp hrow).1
  rw [h, List.getElem?_append_left hlt] at hrow'
  obtain rfl := Option.some.inj (hrow.symm.trans hrow')
  rw [hpart] at hfinal
  cases hfinal

/-- A promotion shows them all. -/
theorem shown_of_promote {s t : State} (h : t.rows = s.rows.map StoredRow.promote) {i : ℕ}
    {row : StoredRow} (hrow : s.rows[i]? = some row) : Shown t i :=
  ⟨row.promote, by rw [h, List.getElem?_map, hrow]; rfl, rfl⟩

/-- STEP: a promotion shows the aborted call's row and no other just when no call was left. -/
theorem shows_finalize_iff {s t : State} (hs : Tracked s) {turn : Turn} (hturn : s.turn = some turn)
    {c : Call} (hphase : turn.phase = .flagDeleted c) (ht : t.rows = s.rows.map StoredRow.promote) :
    ShowsAborted s (.turn .finalize) t ↔ s.left = [] := by
  have haborted : s.aborted = some c := by rw [State.aborted, hturn, Option.bind_some, hphase]; rfl
  have hcurrent : s.current = some c := by rw [State.current, hturn, Option.bind_some, hphase]; rfl
  have hrequest : s.request = some c.request := by
    rw [State.request, hturn, Option.bind_some, hphase]
    rfl
  constructor
  · intro h
    by_contra hleft
    obtain ⟨m, hm⟩ := List.exists_mem_of_ne_nil _ hleft
    obtain ⟨row, hrow, hpart, o, ho, rfl⟩ := hs.there m hm
    obtain ⟨i, hi⟩ := List.mem_iff_getElem?.mp hrow
    -- the row of a call that was given up is shown, so it would be the aborted call's
    obtain ⟨c', hc', howns⟩ := (h.exactly i row hi hpart).mp (shown_of_promote ht hi)
    obtain rfl := Option.some.inj (haborted.symm.trans hc')
    obtain rfl := Option.some.inj (ho.symm.trans (of_decide_eq_true howns))
    exact hs.apart c hcurrent hm
  · intro hleft
    have hmine {row : StoredRow} (hrow : row ∈ s.rows) (hpart : row.row.isPartial = true) :
        c.owns row = true := by
      rcases hs.whose row hrow hpart with ⟨o, _, hin⟩ | ⟨c', hc', howns⟩
      · rw [hleft] at hin
        cases hin
      · obtain rfl := Option.some.inj (haborted.symm.trans hc')
        exact howns
    refine ⟨?_, ?_⟩
    · intro i row hi hpart
      have howns := hmine (List.mem_of_getElem? hi) hpart
      exact iff_of_true (shown_of_promote ht hi) ⟨c, haborted, howns⟩
    · intro i row hi hpart _ other hother hfinal o ho o' ho'
      have howns := hmine (List.mem_of_getElem? hi) hpart
      obtain rfl := Option.some.inj (ho.symm.trans (of_decide_eq_true howns))
      exact hs.unanswered _ hrequest other hother hfinal o' ho'

/-- No other step is to show anything. -/
theorem toShow_other (s : State) {a : Action} (ha : a ≠ .turn .finalize) :
    toShow s a = none ∧ NoneLeft s a := by
  constructor
  · rw [toShow]
    exact ha
  · rw [NoneLeft]
    · exact trivial
    · exact ha

theorem shows_step_iff {s t : State} (hs : Tracked s) {a : Action} (h : step s a = some t) :
    ShowsAborted s a t ↔ NoneLeft s a := by
  by_cases ha : a = .turn .finalize
  · subst ha
    obtain ⟨turn, hturn, hmove⟩ := Option.bind_eq_some_iff.mp h
    cases moves_of_turnStep hmove with
    | finalize c hphase => exact shows_finalize_iff hs hturn hphase rfl
  · obtain ⟨new, hrows⟩ := (step_rows h).resolve_right ha
    obtain ⟨hnothing, hleft⟩ := toShow_other s ha
    refine iff_of_true ⟨?_, ?_⟩ hleft
    · intro i row hi hpart
      rw [hnothing]
      exact iff_of_false (not_shown_of_append hrows hi hpart) (by simp)
    · intro i row hi hpart hshown
      exact absurd hshown (not_shown_of_append hrows hi hpart)

/-- EXACT CONDITION: in a run every promotion makes visible the partial row of the aborted call and
    nothing else, and no request has both its answer and a promoted partial, just when no promotion
    finds a call, given up since the one before, that left a partial row. -/
theorem shows_aborted_iff (as : List Action) :
    EveryStep step ShowsAborted .empty as ↔ Guarded step NoneLeft .empty as :=
  @everyStep_iff_guarded _ _ step (fun s => Sound s ∧ Tracked s) NoneLeft ShowsAborted
    (fun s a t hs _ h => ⟨sound_step s a t hs.1 h, tracked_step hs.2 hs.1 h⟩)
    (fun _ _ _ hs h => shows_step_iff hs.2 h) as .empty ⟨sound_empty, tracked_empty⟩

/-! ### A retried call -/

/-- The first attempt breaks off after it has streamed a word, the second is stopped by the user. -/
def retriedThenStopped : List Action :=
  [.start .send, .turn .clearStale, .turn .call, .turn (.chunk .text "Par"),
    .turn (.attemptFails true), .turn .retry, .turn (.chunk .text "Paris"), .abort,
    .turn (.check true), .turn .deleteFlag]

/-- Both are made visible. -/
theorem failed_attempt_shown :
    ¬ EveryStep step ShowsAborted .empty (retriedThenStopped ++ [.turn .finalize]) := by
  intro h
  have hshows := EveryStep.at h (rfl : runFrom _ _ retriedThenStopped = some _) rfl
  obtain ⟨c, hc, howns⟩ := (hshows.exactly 0 _ rfl rfl).mp ⟨_, rfl, rfl⟩
  obtain rfl := Option.some.inj hc
  exact absurd howns (by decide +kernel)

end LunaCore.Engine.Interruption
