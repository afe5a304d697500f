import LunaCore.Schemes.Machine
import LunaCore.Providers.StreamedTurn

/-! Stopping a turn of a conversation.

    The abort endpoint sets a Redis key of the conversation, whatever runs. A model call looks at the
    key while it streams; if it is set, the call stores what streamed as a partial row and raises. A
    send that has chosen its agent deletes the key first, and reports the signal; a resumed decision
    does neither:

        send      lock ─ route ─ DEL key ─ calls … ─ signal ─ DEL key ─ promote ─ "aborted"
        decision  lock ─ calls … ─ signal ─ error

    So an abort goes unheard if the key is deleted or expires before a call looks at it, if no call
    looks any more, or if the call that looks is the one for the words beside an approval, which
    swallows whatever is raised. -/

namespace LunaCore.Engine.Interruption
open LunaCore.Schemes LunaCore.Providers
open LunaCore.Stream (Kind)

/-- The two endpoints that hold the turn lock. -/
inductive TurnKind where
  | send
  | decision
  deriving DecidableEq

/-- One attempt at a model call, with a message id of its own. The attempts the router makes at one
    request share its number. -/
structure Call where
  request : ℕ
  message : ℕ
  streamed : Streamed

/-- Where a turn stands: `admitted` is a send before it deletes the key, the last three are its
    `except AbortSignalError`. -/
inductive Phase where
  | admitted
  | working
  | calling (call : Call)
  | retrying (request : ℕ)
  | wording
  | aborting (call : Call)
  | flagDeleted (call : Call)
  | finalized (call : Call)

/-- The turn that holds the lock, with its number. For proofs only: was an abort issued in it, and
    was one wiped off the key before a call saw it. -/
structure Turn where
  kind : TurnKind
  number : ℕ
  phase : Phase
  issued : Bool
  wiped : Bool

/-- A row of the conversation. For proofs only: the request and message id of the call it is of. -/
structure StoredRow where
  row : TurnRow
  origin : Option (ℕ × ℕ)

/-- The conversation: the abort key (for proofs, with the turn it was set in), the rows in sequence
    order, the turn that runs, and how many turns, requests and message ids there were. For proofs
    only: the calls given up since the last promotion that left a partial row. -/
structure State where
  flag : Option (Option ℕ)
  rows : List StoredRow
  turn : Option Turn
  turns : ℕ
  requests : ℕ
  messages : ℕ
  left : List ℕ

def State.empty : State := ⟨none, [], none, 0, 0, 0, []⟩

/-- What the turn does next. `store` is a row of no call: the user's message, a tool's result. -/
inductive TurnAction where
  | clearStale
  | store (content : List TurnBlock)
  | call
  | chunk (kind : Kind) (text : String)
  | check (saved : Bool)
  | attemptFails (saved : Bool)
  | attemptReturns (content : List TurnBlock) (thinking : Option String)
  | retry
  | words
  | wordsCheck
  | wordsReturn
  | finish
  | fail
  | deleteFlag
  | finalize
  | respond
  | lose

inductive Action where
  | start (kind : TurnKind)
  | turn (a : TurnAction)
  | abort
  | expire

/-- The row is one of this call's. -/
def Call.owns (c : Call) (row : StoredRow) : Bool := row.origin = some (c.request, c.message)

/-- `_save_partial_blocks`: what streamed, if anything did; a row that cannot be stored is passed
    over. -/
def Call.partialRows (c : Call) (saved : Bool) : List StoredRow :=
  if saved then c.streamed.savePartial.rows.map fun row => ⟨row, some (c.request, c.message)⟩ else []

/-- The call whose signal the turn caught. -/
def Phase.aborted : Phase → Option Call
  | .aborting c | .flagDeleted c | .finalized c => some c
  | _ => none

/-- `is_partial=False`. -/
def StoredRow.promote (row : StoredRow) : StoredRow :=
  { row with row := { row.row with isPartial := false } }

/-- The key was set in this turn. -/
def State.flagged (s : State) (turn : Turn) : Bool := s.flag = some (some turn.number)

def State.goto (s : State) (turn : Turn) (phase : Phase) : State :=
  { s with turn := some { turn with phase := phase } }

/-- The lock is released; a partial of the call whose signal was caught stays one. -/
def State.endTurn (s : State) (turn : Turn) : State :=
  { s with
    turn := none
    left := s.left ++ match turn.phase.aborted with
      | some c => (s.rows.filter fun row => row.row.isPartial && c.owns row).map fun _ => c.message
      | none => [] }

/-- The call is given up, with or without a partial row. -/
def State.giveUp (s : State) (c : Call) (saved : Bool) : State :=
  { s with
    rows := s.rows ++ c.partialRows saved
    left := s.left ++ (c.partialRows saved).map fun _ => c.message }

/-- A new attempt at a request. -/
def State.attempt (s : State) (turn : Turn) (request : ℕ) : State :=
  { s.goto turn (.calling ⟨request, s.messages, .fresh⟩) with messages := s.messages + 1 }

/-- A step of the turn. -/
def turnStep (s : State) (turn : Turn) : Phase → TurnAction → Option State
  | .admitted, .clearStale =>
    some { s with
      flag := none
      turn := some { turn with phase := .working, wiped := turn.wiped || s.flagged turn } }
  | .working, .store content => some { s with rows := s.rows ++ [⟨⟨content, none, false⟩, none⟩] }
  | .working, .call => some { s.attempt turn s.requests with requests := s.requests + 1 }
  | .calling c, .chunk kind text =>
    some (s.goto turn (.calling { c with streamed := c.streamed.run none (.append kind text) }))
  | .calling c, .check saved =>
    if s.flag.isNone then some s
    else match turn.kind with
      | .send => some { s.goto turn (.aborting c) with rows := s.rows ++ c.partialRows saved }
      | .decision => some ((s.giveUp c saved).endTurn turn)
  | .calling c, .attemptFails saved => some ((s.giveUp c saved).goto turn (.retrying c.request))
  | .calling c, .attemptReturns content thinking =>
    some { s.goto turn .working with
      rows := s.rows ++ [⟨⟨content, thinking, false⟩, some (c.request, c.message)⟩] }
  | .retrying request, .retry => some (s.attempt turn request)
  | .working, .words => some (s.goto turn .wording)
  -- its partial goes to the live channel only, and the exception is swallowed
  | .wording, .wordsCheck => if s.flag.isNone then some s else some (s.goto turn .working)
  -- the words, if any, go into a row that is there
  | .wording, .wordsReturn => some (s.goto turn .working)
  -- completed, or awaiting approval
  | .working, .finish => some (s.endTurn turn)
  | .calling _, .fail | .wording, .fail => none
  | _, .fail => some (s.endTurn turn)
  | .aborting c, .deleteFlag => some { s.goto turn (.flagDeleted c) with flag := none }
  | .flagDeleted c, .finalize =>
    some { s.goto turn (.finalized c) with rows := s.rows.map StoredRow.promote, left := [] }
  | .finalized _, .respond => some (s.endTurn turn)
  | _, .lose => some (s.endTurn turn)
  | _, _ => none

/-- One step of a request, of the turn that holds the lock, or of Redis. -/
def step (s : State) : Action → Option State
  | .start kind =>
    if s.turn.isNone then
      let phase := match kind with
        | .send => .admitted
        | .decision => .working
      some { s with turn := some ⟨kind, s.turns, phase, false, false⟩, turns := s.turns + 1 }
    else none
  | .turn a => s.turn.bind fun turn => turnStep s turn turn.phase a
  | .abort => some { s with
      flag := some (s.turn.map Turn.number)
      turn := s.turn.map fun turn => { turn with issued := true } }
  | .expire => some { s with
      flag := none
      turn := s.turn.map fun turn => { turn with wiped := turn.wiped || s.flagged turn } }

/-! ### What is asked of an abort -/

/-- What a request that held the lock returns. -/
inductive Reply where
  | finished
  | error
  | aborted
  deriving DecidableEq

/-- The response a step ends the turn with. A turn whose process dies has none. -/
def reply (s : State) : Action → Option Reply
  | .turn .finish => some .finished
  | .turn .fail => some .error
  | .turn .respond => some .aborted
  | .turn (.check _) =>
    if s.flag.isSome ∧ s.turn.any fun turn => turn.kind = .decision then some .error else none
  | _ => none

/-- A model call of the turn finds the key set. -/
def finds (s : State) : Action → Bool
  | .turn (.check _) | .turn .wordsCheck => s.flag.isSome
  | _ => false

/-- The text of the call is in a row that is shown. -/
def Kept (rows : List StoredRow) (c : Call) : Prop :=
  c.streamed.text = "" ∨
    ∃ row ∈ rows, c.owns row = true ∧ row.row.isPartial = false ∧ row.row.text = c.streamed.text

/-- A turn in which an abort was issued reports that it was aborted, with the streamed text kept and
    the key gone; a turn is not disturbed by an abort from a time when none ran. -/
structure Obeys (s : State) (a : Action) (t : State) : Prop where
  stopped : ∀ turn ∈ s.turn, turn.issued = true → ∀ r ∈ reply s a, r = .aborted
  settled : reply s a = some .aborted → t.flag = none ∧
    ∀ turn ∈ s.turn, ∀ c ∈ turn.phase.aborted, Kept t.rows c
  undisturbed : finds s a = true → s.flag ≠ some none

/-- When a turn ends by itself, no abort of it was wiped off the key or stands in it, and it has not
    caught a signal; when one reports, no abort came since it deleted the key, and its text was
    stored. What a call finds in the key is from no idle time, nor from a resumed decision's own. -/
def Timely (s : State) : Action → Prop
  | .turn .finish | .turn .fail => ∀ turn ∈ s.turn,
    turn.wiped = false ∧ s.flagged turn = false ∧ turn.phase.aborted = none
  | .turn .respond => s.flag = none ∧ ∀ turn ∈ s.turn, ∀ c ∈ turn.phase.aborted,
    c.streamed.text = "" ∨ ∃ row ∈ s.rows, c.owns row = true
  | .turn (.check _) => s.flag ≠ some none ∧
    ∀ turn ∈ s.turn, turn.kind = .decision → s.flagged turn = false
  | .turn .wordsCheck => s.flag ≠ some none
  | _ => True

/-! ### What a turn can do -/

/-- The steps of a turn, each with the phase it is taken in and what it leads to. -/
inductive Moves (s : State) (turn : Turn) : TurnAction → State → Prop
  | clearStale (h : turn.phase = .admitted) : Moves s turn .clearStale { s with
      flag := none
      turn := some { turn with phase := .working, wiped := turn.wiped || s.flagged turn } }
  | store (h : turn.phase = .working) (content : List TurnBlock) : Moves s turn (.store content)
      { s with rows := s.rows ++ [⟨⟨content, none, false⟩, none⟩] }
  | call (h : turn.phase = .working) :
      Moves s turn .call { s.attempt turn s.requests with requests := s.requests + 1 }
  | chunk (c : Call) (h : turn.phase = .calling c) (kind : Kind) (text : String) :
      Moves s turn (.chunk kind text)
        (s.goto turn (.calling { c with streamed := c.streamed.run none (.append kind text) }))
  | look (c : Call) (h : turn.phase = .calling c) (saved : Bool) (hflag : s.flag = none) :
      Moves s turn (.check saved) s
  | caught (c : Call) (h : turn.phase = .calling c) (saved : Bool) (hflag : s.flag ≠ none)
      (hkind : turn.kind = .send) : Moves s turn (.check saved)
        { s.goto turn (.aborting c) with rows := s.rows ++ c.partialRows saved }
  | raised (c : Call) (h : turn.phase = .calling c) (saved : Bool) (hflag : s.flag ≠ none)
      (hkind : turn.kind = .decision) : Moves s turn (.check saved) ((s.giveUp c saved).endTurn turn)
  | attemptFails (c : Call) (h : turn.phase = .calling c) (saved : Bool) :
      Moves s turn (.attemptFails saved) ((s.giveUp c saved).goto turn (.retrying c.request))
  | attemptReturns (c : Call) (h : turn.phase = .calling c) (content : List TurnBlock)
      (thinking : Option String) : Moves s turn (.attemptReturns content thinking)
        { s.goto turn .working with
          rows := s.rows ++ [⟨⟨content, thinking, false⟩, some (c.request, c.message)⟩] }
  | retry (request : ℕ) (h : turn.phase = .retrying request) :
      Moves s turn .retry (s.attempt turn request)
  | words (h : turn.phase = .working) : Moves s turn .words (s.goto turn .wording)
  | wordsLook (h : turn.phase = .wording) (hflag : s.flag = none) : Moves s turn .wordsCheck s
  | swallowed (h : turn.phase = .wording) (hflag : s.flag ≠ none) :
      Moves s turn .wordsCheck (s.goto turn .working)
  | wordsReturn (h : turn.phase = .wording) : Moves s turn .wordsReturn (s.goto turn .working)
  | finish (h : turn.phase = .working) : Moves s turn .finish (s.endTurn turn)
  | fail : Moves s turn .fail (s.endTurn turn)
  | deleteFlag (c : Call) (h : turn.phase = .aborting c) :
      Moves s turn .deleteFlag { s.goto turn (.flagDeleted c) with flag := none }
  | finalize (c : Call) (h : turn.phase = .flagDeleted c) : Moves s turn .finalize
      { s.goto turn (.finalized c) with rows := s.rows.map StoredRow.promote, left := [] }
  | respond (c : Call) (h : turn.phase = .finalized c) : Moves s turn .respond (s.endTurn turn)
  | lose : Moves s turn .lose (s.endTurn turn)

theorem moves_of_turnStep {s t : State} {turn : Turn} {a : TurnAction}
    (h : turnStep s turn turn.phase a = some t) : Moves s turn a t := by
  generalize hphase : turn.phase = phase at h
  unfold turnStep at h
  split at h
  case h_5 c saved =>
    split at h
    case isTrue hnone =>
      obtain rfl := Option.some.inj h
      exact .look c hphase saved (Option.isNone_iff_eq_none.mp hnone)
    case isFalse hsome =>
      have hflag : s.flag ≠ none := fun hnone => hsome (Option.isNone_iff_eq_none.mpr hnone)
      cases hkind : turn.kind with
      | send =>
        rw [hkind] at h
        obtain rfl := Option.some.inj h
        exact .caught c hphase saved hflag hkind
      | decision =>
        rw [hkind] at h
        obtain rfl := Option.some.inj h
        exact .raised c hphase saved hflag hkind
  case h_10 =>
    split at h
    case isTrue hnone =>
      obtain rfl := Option.some.inj h
      exact .wordsLook hphase (Option.isNone_iff_eq_none.mp hnone)
    case isFalse hsome =>
      obtain rfl := Option.some.inj h
      exact .swallowed hphase fun hnone => hsome (Option.isNone_iff_eq_none.mpr hnone)
  all_goals first
    | cases h
      done
    | obtain rfl := Option.some.inj h
      constructor <;> assumption

/-! ### What the steps keep -/

/-- The turn that runs. An abort issued in it was wiped, stands in the key or was caught; from then
    on, and in a send once it has deleted the key, the key is not another's. -/
structure TurnSound (s : State) (turn : Turn) : Prop where
  number : turn.number < s.turns
  issued : turn.issued = true ↔
    turn.wiped = true ∨ s.flagged turn = true ∨ turn.phase.aborted.isSome = true
  mine : turn.issued = true → ∀ k ∈ s.flag, k = some turn.number
  cleared : turn.kind = .send → turn.phase ≠ .admitted → ∀ k ∈ s.flag, k = some turn.number
  streaming : ∀ c, turn.phase = .calling c → c.streamed.rows = [] ∧ c.message < s.messages ∧
    ∀ row ∈ s.rows, c.owns row = false
  stored : ∀ c ∈ turn.phase.aborted, ∀ row ∈ s.rows, c.owns row = true →
    row.row.text = c.streamed.text
  promoted : ∀ c, turn.phase = .finalized c → ∀ row ∈ s.rows, row.row.isPartial = false

/-- The numbers in use were given out, and the turn is sound. -/
structure Sound (s : State) : Prop where
  flag : ∀ k, s.flag = some (some k) → k < s.turns
  rows : ∀ row ∈ s.rows, ∀ o ∈ row.origin, o.2 < s.messages
  turn : ∀ turn ∈ s.turn, TurnSound s turn

theorem sound_empty : Sound .empty := by
  refine ⟨?_, ?_, ?_⟩ <;> simp [State.empty]

/-- A partial row is its call's, partial, and holds the text that streamed. -/
theorem mem_partialRows {c : Call} (hc : c.streamed.rows = []) {saved : Bool} {row : StoredRow}
    (h : row ∈ c.partialRows saved) : row.origin = some (c.request, c.message) ∧
      row.row.isPartial = true ∧ row.row.text = c.streamed.text := by
  rw [Call.partialRows] at h
  split at h
  case isFalse => cases h
  case isTrue =>
    obtain ⟨r, hr, rfl⟩ := List.mem_map.mp h
    rcases savePartial_row hc with ⟨_, hsave⟩ | ⟨_, r', hsave, hpart, htext⟩
    · rw [hsave, hc] at hr
      cases hr
    · rw [hsave] at hr
      obtain rfl := List.mem_singleton.mp hr
      exact ⟨rfl, hpart, htext⟩

@[simp] theorem rows_append (s : Streamed) (kind : Kind) (text : String) :
    (s.run none (.append kind text)).rows = s.rows := by
  cases kind <;> rfl

/-- The lock is released. -/
theorem sound_idle {s t : State} (hs : Sound s) (hturn : t.turn = none) (hflag : t.flag = s.flag)
    (hturns : t.turns = s.turns) (hrows : ∀ row ∈ t.rows, ∀ o ∈ row.origin, o.2 < t.messages) :
    Sound t := by
  refine ⟨?_, hrows, ?_⟩
  · intro k hk
    rw [hturns]
    exact hs.flag k (hflag ▸ hk)
  · intro turn ht
    rw [hturn] at ht
    cases ht

/-- Neither about to delete the key, nor stopped by a signal. -/
def Phase.underWay (phase : Phase) : Prop := phase ≠ .admitted ∧ phase.aborted = none

theorem underWay_working : Phase.working.underWay := ⟨by simp, rfl⟩

theorem underWay_calling (c : Call) : (Phase.calling c).underWay := ⟨by simp, rfl⟩

theorem underWay_retrying (request : ℕ) : (Phase.retrying request).underWay := ⟨by simp, rfl⟩

theorem underWay_wording : Phase.wording.underWay := ⟨by simp, rfl⟩

/-- The turn goes on, no signal has been caught, and the key is as it was. -/
theorem sound_goes {s t : State} {turn : Turn} (phase : Phase) (hs : Sound s)
    (hturn : s.turn = some turn) (hbefore : turn.phase.underWay) (hphase : phase.aborted = none)
    (ht : t.turn = some { turn with phase := phase }) (hflag : t.flag = s.flag)
    (hturns : t.turns = s.turns) (hrows : ∀ row ∈ t.rows, ∀ o ∈ row.origin, o.2 < t.messages)
    (hstreaming : ∀ c, phase = .calling c → c.streamed.rows = [] ∧ c.message < t.messages ∧
      ∀ row ∈ t.rows, c.owns row = false) : Sound t := by
  have h := hs.turn turn hturn
  obtain ⟨hadmitted, hcaught⟩ := hbefore
  refine ⟨?_, hrows, ?_⟩
  · intro k hk
    rw [hturns]
    exact hs.flag k (hflag ▸ hk)
  · intro turn' hturn'
    obtain rfl := Option.some.inj (ht.symm.trans hturn')
    refine ⟨?_, ?_, ?_, ?_, hstreaming, ?_, ?_⟩
    · rw [hturns]
      exact h.number
    · have hissued := h.issued
      rw [hcaught] at hissued
      rw [hphase, hissued, State.flagged, State.flagged, hflag]
    · rw [hflag]
      exact h.mine
    · rw [hflag]
      exact fun hsend _ => h.cleared hsend hadmitted
    · intro c hc
      rw [hphase] at hc
      cases hc
    · intro c hc
      obtain rfl : phase = .finalized c := hc
      cases hphase

theorem Sound.fresh {s : State} (hs : Sound s) (request : ℕ) (row : StoredRow) (h : row ∈ s.rows) :
    Call.owns ⟨request, s.messages, .fresh⟩ row = false := by
  cases horigin : row.origin with
  | none => simp [Call.owns, horigin]
  | some o =>
    have hlt := hs.rows row h o horigin
    simp only [Call.owns, horigin, Option.some.injEq, decide_eq_false_iff_not]
    rintro rfl
    exact absurd hlt (lt_irrefl _)

/-- One more message id has been given out. -/
theorem Sound.rows_succ {s : State} (hs : Sound s) :
    ∀ row ∈ s.rows, ∀ o ∈ row.origin, o.2 < s.messages + 1 :=
  fun row hrow o ho => Nat.lt_succ_of_lt (hs.rows row hrow o ho)

/-- Rows of a call, or of none, join the others. -/
theorem Sound.rows_append {s : State} (hs : Sound s) {c : Call} (hc : c.message < s.messages)
    {new : List StoredRow} (hnew : ∀ row ∈ new, ∀ o ∈ row.origin, o = (c.request, c.message)) :
    ∀ row ∈ s.rows ++ new, ∀ o ∈ row.origin, o.2 < s.messages := by
  intro row hrow o ho
  rcases List.mem_append.mp hrow with hold | hin
  · exact hs.rows row hold o ho
  · rw [hnew row hin o ho]
    exact hc

/-- A new attempt goes out. -/
theorem sound_attempt {s t : State} {turn : Turn} (request : ℕ) (hs : Sound s)
    (hturn : s.turn = some turn) (hbefore : turn.phase.underWay)
    (ht : t.turn = some { turn with phase := .calling ⟨request, s.messages, .fresh⟩ })
    (hflag : t.flag = s.flag) (hturns : t.turns = s.turns) (hrows : t.rows = s.rows)
    (hmessages : t.messages = s.messages + 1) : Sound t := by
  refine sound_goes (.calling _) hs hturn hbefore rfl ht hflag hturns ?_ ?_
  · rw [hrows, hmessages]
    exact hs.rows_succ
  · intro c hc
    obtain rfl := Phase.calling.inj hc
    rw [hrows, hmessages]
    exact ⟨rfl, Nat.lt_succ_self _, hs.fresh request⟩

theorem sound_start {s t : State} (hs : Sound s) {kind : TurnKind}
    (h : step s (.start kind) = some t) : Sound t := by
  simp only [step] at h
  split at h
  case isFalse => cases h
  case isTrue hnone =>
    obtain rfl := Option.some.inj h
    refine ⟨fun k hk => Nat.lt_succ_of_lt (hs.flag k hk), hs.rows, fun turn hturn => ?_⟩
    obtain rfl := Option.some.inj hturn
    -- the key was set in an earlier turn or in none
    have hother : s.flag ≠ some (some s.turns) := fun hk => absurd (hs.flag _ hk) (lt_irrefl _)
    refine ⟨Nat.lt_succ_self _, ?_, nofun, ?_, ?_, ?_, ?_⟩
    · cases kind <;> simp [State.flagged, Phase.aborted, hother]
    · rintro rfl hadmitted
      exact absurd rfl hadmitted
    all_goals cases kind <;> simp [Phase.aborted]

/-- An abort is set in the turn that runs, if one does. -/
theorem sound_abort {s t : State} (hs : Sound s) (h : step s .abort = some t) : Sound t := by
  obtain rfl := Option.some.inj h
  cases hturn : s.turn with
  | none => exact ⟨by simp, hs.rows, by simp⟩
  | some turn =>
    have hold := hs.turn turn hturn
    refine ⟨?_, hs.rows, ?_⟩
    · intro k hk
      obtain rfl := Option.some.inj (Option.some.inj hk)
      exact hold.number
    · rintro _ ⟨⟩
      refine ⟨hold.number, ?_, ?_, ?_, hold.streaming, hold.stored, hold.promoted⟩
      · simp [State.flagged]
      · rintro _ k ⟨⟩
        rfl
      · rintro _ _ k ⟨⟩
        rfl

theorem sound_expire {s t : State} (hs : Sound s) (h : step s .expire = some t) : Sound t := by
  obtain rfl := Option.some.inj h
  refine ⟨nofun, hs.rows, fun turn hturn => ?_⟩
  obtain ⟨old, hold, rfl⟩ := Option.map_eq_some_iff.mp hturn
  have hsound := hs.turn old hold
  refine ⟨hsound.number, ?_, nofun, nofun, hsound.streaming, hsound.stored, hsound.promoted⟩
  rw [hsound.issued]
  simp [State.flagged, or_assoc]

/-- The rows of a call that is given up. -/
theorem Sound.rows_giveUp {s : State} (hs : Sound s) {c : Call} (hrows : c.streamed.rows = [])
    (hc : c.message < s.messages) (saved : Bool) :
    ∀ row ∈ s.rows ++ c.partialRows saved, ∀ o ∈ row.origin, o.2 < s.messages := by
  refine hs.rows_append hc fun row hrow o ho => ?_
  rw [(mem_partialRows hrows hrow).1] at ho
  exact (Option.some.inj ho).symm

/-- STEP: what the turn does keeps it sound. -/
theorem sound_moves {s t : State} (hs : Sound s) {turn : Turn} (hturn : s.turn = some turn)
    {a : TurnAction} (h : Moves s turn a t) : Sound t := by
  have hold := hs.turn turn hturn
  cases h with
  | clearStale hphase =>
    refine ⟨nofun, hs.rows, ?_⟩
    rintro _ ⟨⟩
    refine ⟨hold.number, ?_, nofun, nofun, nofun, nofun, nofun⟩
    rw [hold.issued, hphase]
    simp [State.flagged, Phase.aborted]
  | store hphase content =>
    refine sound_goes .working hs hturn (hphase ▸ underWay_working) rfl (by rw [hturn, ← hphase])
      rfl rfl ?_ nofun
    intro row hrow o ho
    rcases List.mem_append.mp hrow with hin | hnew
    · exact hs.rows row hin o ho
    · obtain rfl := List.mem_singleton.mp hnew
      cases ho
  | call hphase =>
    exact sound_attempt s.requests hs hturn (hphase ▸ underWay_working) rfl rfl rfl rfl rfl
  | chunk c hphase kind text =>
    refine sound_goes (.calling _) hs hturn (hphase ▸ underWay_calling c) rfl rfl rfl rfl hs.rows ?_
    intro c' hc'
    obtain rfl := Phase.calling.inj hc'
    obtain ⟨hrows, hmessage, hown⟩ := hold.streaming c hphase
    exact ⟨(rows_append _ _ _).trans hrows, hmessage, hown⟩
  | look c hphase saved hflag => exact hs
  | caught c hphase saved hflag hkind =>
    obtain ⟨hrows, hmessage, hown⟩ := hold.streaming c hphase
    refine ⟨hs.flag, hs.rows_giveUp hrows hmessage saved, ?_⟩
    rintro _ ⟨⟩
    have hadmitted : turn.phase ≠ .admitted := by simp [hphase]
    have hmine := hold.cleared hkind hadmitted
    obtain ⟨k, hk⟩ := Option.ne_none_iff_exists'.mp hflag
    have hflagged : s.flagged turn = true := by
      rw [State.flagged, hk, hmine k hk]
      exact decide_eq_true rfl
    have hissued : turn.issued = true := hold.issued.mpr (.inr (.inl hflagged))
    refine ⟨hold.number, ?_, fun _ => hmine, fun _ _ => hmine, nofun, ?_, nofun⟩
    · exact iff_of_true hissued (.inr (.inr rfl))
    · rintro _ ⟨⟩ row hrow howns
      rcases List.mem_append.mp hrow with hin | hnew
      · rw [hown row hin] at howns
        cases howns
      · exact (mem_partialRows hrows hnew).2.2
  | raised c hphase saved hflag hkind =>
    obtain ⟨hrows, hmessage, _⟩ := hold.streaming c hphase
    exact sound_idle hs rfl rfl rfl (hs.rows_giveUp hrows hmessage saved)
  | attemptFails c hphase saved =>
    obtain ⟨hrows, hmessage, _⟩ := hold.streaming c hphase
    exact sound_goes (.retrying _) hs hturn (hphase ▸ underWay_calling c) rfl rfl rfl rfl
      (hs.rows_giveUp hrows hmessage saved) nofun
  | attemptReturns c hphase content thinking =>
    obtain ⟨hrows, hmessage, _⟩ := hold.streaming c hphase
    refine sound_goes .working hs hturn (hphase ▸ underWay_calling c) rfl rfl rfl rfl
      (hs.rows_append hmessage ?_) nofun
    intro row hrow o ho
    obtain rfl := List.mem_singleton.mp hrow
    exact (Option.some.inj ho).symm
  | retry request hphase =>
    exact sound_attempt request hs hturn (hphase ▸ underWay_retrying request) rfl rfl rfl rfl rfl
  | words hphase =>
    exact sound_goes .wording hs hturn (hphase ▸ underWay_working) rfl rfl rfl rfl hs.rows nofun
  | wordsLook hphase hflag => exact hs
  | swallowed hphase hflag =>
    exact sound_goes .working hs hturn (hphase ▸ underWay_wording) rfl rfl rfl rfl hs.rows nofun
  | wordsReturn hphase =>
    exact sound_goes .working hs hturn (hphase ▸ underWay_wording) rfl rfl rfl rfl hs.rows nofun
  | finish hphase => exact sound_idle hs rfl rfl rfl hs.rows
  | fail => exact sound_idle hs rfl rfl rfl hs.rows
  | deleteFlag c hphase =>
    refine ⟨nofun, hs.rows, ?_⟩
    rintro _ ⟨⟩
    have hissued : turn.issued = true := hold.issued.mpr (.inr (.inr (by rw [hphase]; rfl)))
    refine ⟨hold.number, iff_of_true hissued (.inr (.inr rfl)), nofun, nofun, nofun, ?_, nofun⟩
    rintro _ ⟨⟩
    exact hold.stored c (by rw [hphase]; rfl)
  | finalize c hphase =>
    refine ⟨hs.flag, ?_, ?_⟩
    · intro row hrow
      obtain ⟨old, hin, rfl⟩ := List.mem_map.mp hrow
      exact hs.rows old hin
    · rintro _ ⟨⟩
      have hissued : turn.issued = true := hold.issued.mpr (.inr (.inr (by rw [hphase]; rfl)))
      refine ⟨hold.number, iff_of_true hissued (.inr (.inr rfl)), hold.mine,
        fun hsend _ => hold.cleared hsend (by simp [hphase]), nofun, ?_, ?_⟩
      · rintro _ ⟨⟩ row hrow howns
        obtain ⟨old, hin, rfl⟩ := List.mem_map.mp hrow
        exact hold.stored c (by rw [hphase]; rfl) old hin howns
      · intro _ _ row hrow
        obtain ⟨old, _, rfl⟩ := List.mem_map.mp hrow
        rfl
  | respond c hphase => exact sound_idle hs rfl rfl rfl hs.rows
  | lose => exact sound_idle hs rfl rfl rfl hs.rows

theorem sound_step (s : State) (a : Action) (t : State) (hs : Sound s) (h : step s a = some t) :
    Sound t := by
  cases a with
  | start kind => exact sound_start hs h
  | turn a =>
    obtain ⟨turn, hturn, hmove⟩ := Option.bind_eq_some_iff.mp h
    exact sound_moves hs hturn (moves_of_turnStep hmove)
  | abort => exact sound_abort hs h
  | expire => exact sound_expire hs h

/-! ### When an abort is obeyed -/

theorem reply_eq_none {s : State} {turn : Turn} (hturn : s.turn = some turn) (saved : Bool)
    (h : s.flag = none ∨ turn.kind = .send) : reply s (.turn (.check saved)) = none := by
  rw [reply, hturn]
  rcases h with hnone | hsend
  · simp [hnone]
  · simp [hsend]

/-- A step that replies nothing. -/
theorem obeys_unanswered {s t : State} {a : Action} (hreply : reply s a = none)
    (hidle : finds s a = true → s.flag ≠ some none) : Obeys s a t := by
  refine ⟨?_, ?_, hidle⟩
  · intro _ _ _ r hr
    rw [hreply] at hr
    cases hr
  · intro hr
    rw [hreply] at hr
    cases hr

/-- A step that replies nothing and finds nothing in the key. -/
theorem obeys_quiet {s t : State} {a : Action} (hreply : reply s a = none)
    (hfinds : finds s a = false) : Obeys s a t :=
  obeys_unanswered hreply fun hf => by simp [hfinds] at hf

/-- A turn that ends by itself is obedient just when no abort was issued in it. -/
theorem obeys_ends_iff {s t : State} (hs : Sound s) {turn : Turn} (hturn : s.turn = some turn)
    {a : Action} {r : Reply} (hreply : reply s a = some r) (hr : r ≠ .aborted)
    (hfinds : finds s a = false) : Obeys s a t ↔ ∀ turn ∈ s.turn,
      turn.wiped = false ∧ s.flagged turn = false ∧ turn.phase.aborted = none := by
  have hissued := (hs.turn turn hturn).issued
  rw [hturn]
  simp only [Option.mem_def, Option.some.injEq, forall_eq']
  constructor
  · intro h
    have hnot : turn.issued ≠ true := fun hi => hr (h.stopped turn hturn hi r hreply)
    rw [Ne, hissued] at hnot
    simpa using hnot
  · rintro ⟨hwiped, hflagged, hcaught⟩
    refine ⟨?_, ?_, ?_⟩
    · intro turn' hturn' hi
      obtain rfl := Option.some.inj (hturn.symm.trans hturn')
      rw [hissued, hwiped, hflagged, hcaught] at hi
      simp at hi
    · intro habort
      exact absurd (Option.some.inj (hreply.symm.trans habort)) hr
    · intro hf
      rw [hfinds] at hf
      cases hf

/-- A call of a send looks at the key only after the send has deleted it. -/
theorem flag_ne_idle {s : State} (hs : Sound s) {turn : Turn} (hturn : s.turn = some turn)
    (hsend : turn.kind = .send) (hadmitted : turn.phase ≠ .admitted) : s.flag ≠ some none := by
  intro hidle
  have hmine := (hs.turn turn hturn).cleared hsend hadmitted none hidle
  cases hmine

/-- A resumed decision that raises is obedient just when the key is from an earlier turn. -/
theorem obeys_raised_iff {s t : State} (hs : Sound s) {turn : Turn} (hturn : s.turn = some turn)
    {saved : Bool} (hflag : s.flag ≠ none) (hkind : turn.kind = .decision) :
    Obeys s (.turn (.check saved)) t ↔ Timely s (.turn (.check saved)) := by
  have hold := hs.turn turn hturn
  obtain ⟨k, hk⟩ := Option.ne_none_iff_exists'.mp hflag
  have hreply : reply s (.turn (.check saved)) = some .error := by
    simp [reply, hturn, hk, hkind]
  simp only [Timely, hturn, Option.mem_def, Option.some.injEq, forall_eq']
  constructor
  · intro h
    refine ⟨h.undisturbed (by simp [finds, hk]), fun _ => ?_⟩
    by_contra hflagged
    have hissued := hold.issued.mpr (.inr (.inl (by simpa using hflagged)))
    have hr := h.stopped turn hturn hissued .error hreply
    cases hr
  · rintro ⟨hidle, hflagged⟩
    refine ⟨?_, ?_, fun _ => hidle⟩
    · intro turn' hturn' hissued
      obtain rfl := Option.some.inj (hturn.symm.trans hturn')
      have hmine := hold.mine hissued k hk
      have hnot := hflagged hkind
      rw [State.flagged, hk, hmine] at hnot
      simp at hnot
    · intro habort
      cases hreply.symm.trans habort

/-- A turn that reports is obedient just when the key is still gone and its text was stored. -/
theorem obeys_respond_iff {s : State} (hs : Sound s) {turn : Turn} (hturn : s.turn = some turn)
    {c : Call} (hphase : turn.phase = .finalized c) :
    Obeys s (.turn .respond) (s.endTurn turn) ↔ Timely s (.turn .respond) := by
  have hold := hs.turn turn hturn
  have hcaught : turn.phase.aborted = some c := by rw [hphase]; rfl
  simp only [Timely, hturn, Option.mem_def, Option.some.injEq, forall_eq', hcaught]
  constructor
  · intro h
    obtain ⟨hflag, hkept⟩ := h.settled rfl
    refine ⟨hflag, (hkept turn hturn c hcaught).imp_right ?_⟩
    rintro ⟨row, hrow, howns, _⟩
    exact ⟨row, hrow, howns⟩
  · rintro ⟨hflag, hrow⟩
    refine ⟨?_, fun _ => ⟨hflag, ?_⟩, nofun⟩
    · rintro _ _ _ _ ⟨⟩
      rfl
    · intro turn' hturn' c' hc'
      obtain rfl := Option.some.inj (hturn.symm.trans hturn')
      obtain rfl := Option.some.inj (hcaught.symm.trans hc')
      refine hrow.imp_right ?_
      rintro ⟨row, hin, howns⟩
      exact ⟨row, hin, howns, hold.promoted c hphase row hin, hold.stored c hcaught row hin howns⟩

/-- STEP: what a turn does is obedient just when it is timely. -/
theorem obeys_moves_iff {s t : State} (hs : Sound s) {turn : Turn} (hturn : s.turn = some turn)
    {a : TurnAction} (h : Moves s turn a t) : Obeys s (.turn a) t ↔ Timely s (.turn a) := by
  cases h with
  | look _ _ saved hflag =>
    have hreply := reply_eq_none hturn saved (.inl hflag)
    refine iff_of_true (obeys_quiet hreply (by simp [finds, hflag])) ⟨by simp [hflag], ?_⟩
    simp [State.flagged, hflag]
  | caught c hphase saved hflag hkind =>
    have hidle := flag_ne_idle hs hturn hkind (by simp [hphase])
    have hreply := reply_eq_none hturn saved (.inr hkind)
    refine iff_of_true (obeys_unanswered hreply fun _ => hidle) ⟨hidle, ?_⟩
    simp [hturn, hkind]
  | raised _ _ saved hflag hkind => exact obeys_raised_iff hs hturn hflag hkind
  | wordsLook hphase hflag =>
    exact iff_of_true (obeys_quiet rfl (by simp [finds, hflag])) (by simp [Timely, hflag])
  | swallowed _ hflag =>
    refine ⟨fun h => h.undisturbed (by simpa [finds, Option.isSome_iff_ne_none] using hflag), ?_⟩
    intro hidle
    exact obeys_unanswered rfl fun _ => hidle
  | finish hphase => exact obeys_ends_iff hs hturn rfl (by decide) rfl
  | fail => exact obeys_ends_iff hs hturn rfl (by decide) rfl
  | respond c hphase => exact obeys_respond_iff hs hturn hphase
  | _ => exact iff_of_true (obeys_quiet rfl rfl) trivial

theorem obeys_step_iff (s : State) (a : Action) (t : State) (hs : Sound s)
    (h : step s a = some t) : Obeys s a t ↔ Timely s a := by
  cases a with
  | turn a =>
    obtain ⟨turn, hturn, hmove⟩ := Option.bind_eq_some_iff.mp h
    exact obeys_moves_iff hs hturn (moves_of_turnStep hmove)
  | _ => exact iff_of_true (obeys_quiet rfl rfl) trivial

/-- EXACT CONDITION: whatever the order of abort requests and turns, every abort is obeyed in the
    turn it was issued in and disturbs no turn from a time when none ran, just when every step is
    timely. -/
theorem aborts_obeyed_iff (as : List Action) :
    EveryStep step Obeys .empty as ↔ Guarded step Timely .empty as :=
  everyStep_iff_guarded (fun s a t hs _ h => sound_step s a t hs h) obeys_step_iff sound_empty

/-! ### A resumed decision is stopped -/

/-- The user stops the answer that a decision resumed. -/
def stoppedResume : List Action :=
  [.start .decision, .turn .call, .turn (.chunk .text "Booked"), .abort]

/-- The request fails instead of reporting it. -/
theorem stopped_resume_fails :
    ¬ EveryStep step Obeys .empty (stoppedResume ++ [.turn (.check true)]) := by
  intro h
  have hobeys := EveryStep.at h (rfl : runFrom _ _ stoppedResume = some _) rfl
  have hreply := hobeys.stopped _ rfl rfl .error rfl
  cases hreply

end LunaCore.Engine.Interruption
