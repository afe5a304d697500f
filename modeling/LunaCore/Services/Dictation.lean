import Mathlib.Algebra.Order.Group.Defs
import Mathlib.Algebra.Order.Group.Int
import Mathlib.Tactic.Common
import LunaCore.Schemes.Machine

/-! A transcription session: what the microphone hears, what the voice detection says of it, and
    when the session may close.

    client     audio ─ audio ─ … ─ stop
                                    │ commit if speech is open
    upstream   started ─ stopped ─ started ─ completed ─ …
    session    waiting ──────────── wake ─ look ─ sleep ─ look ─ … ─ closed
                                            │ commit if speech is open
                                            │ closed if no turn is open and the settle time is over

    `speech_open` is lowered by the end of an utterance, and by the transcript of any other. So it
    tells whether the user is speaking only as long as no earlier transcript comes in meanwhile. -/

namespace LunaCore.Services.Dictation
open LunaCore.Schemes

/-- What `translate_upstream_event` makes of an event; an utterance is known by its number. -/
inductive UpstreamEvent where
  | speechStarted
  | speechStopped
  | completed (utterance : ℕ)
  | failed (utterance : ℕ)
  | commitEmpty
  | other
  deriving DecidableEq

/-- How `pump_client` ended. -/
inductive ClientEnd where
  | stopped
  | left
  deriving DecidableEq

/-- Where `run_transcription_session` waits. -/
inductive Pc (T : Type*) where
  | waiting
  /-- in `send_commit`, with the settle deadline -/
  | committing (settle : T)
  /-- between two looks, until that time -/
  | sleeping (settle wake : T)
  | closed
  deriving DecidableEq

/-- The settings, and how long a look is apart from the next. -/
structure Timeouts (T : Type*) where
  finalize : T
  vadSettle : T
  poll : T

structure Session (T : Type*) where
  turnsOpen : ℕ
  speechOpen : Bool
  unjudgedSince : Option T
  commitSent : Bool
  /-- How many commits have been sent. -/
  commits : ℕ
  now : T
  clientEnd : Option ClientEnd
  upstreamDone : Bool
  durationDone : Bool
  graceDeadline : Option T
  pc : Pc T
  /-- For proofs only: the last voice event is a start; something was finalised since; the
      utterances without an outcome and how many there have been; the user spoke at the stop or in
      the grace; the session looked while the user spoke and nothing was finalised since; it was cut
      short. -/
  mid : Bool
  finalSince : Bool
  unresolved : List ℕ
  started : ℕ
  seen : Bool
  caught : Bool
  cut : Bool
  deriving DecidableEq

inductive Action (T : Type*) where
  | audio
  | stop
  | leave
  | event (e : UpstreamEvent)
  | upstreamClosed
  | durationOver
  | tick (later : T)
  | wake
  | committed
  | poll

/-- A session at this time. -/
def Session.start {T : Type*} (now : T) : Session T :=
  { turnsOpen := 0, speechOpen := false, unjudgedSince := none, commitSent := false, commits := 0
    now := now, clientEnd := none, upstreamDone := false, durationDone := false
    graceDeadline := none, pc := .waiting, mid := false, finalSince := false, unresolved := []
    started := 0, seen := false, caught := false, cut := false }

section
variable {T : Type*}

/-! ### The pumps -/

/-- `send_commit`. -/
def Session.sendCommit (s : Session T) : Session T :=
  if s.commitSent then s else { s with commitSent := true, commits := s.commits + 1 }

/-- What `pump_upstream` does on an event. -/
def Session.hear (s : Session T) : UpstreamEvent → Session T
  | .commitEmpty => { s with speechOpen := false }
  | .failed _ => { s with turnsOpen := s.turnsOpen - 1 }
  | .speechStarted =>
    { s with turnsOpen := s.turnsOpen + 1, speechOpen := true, unjudgedSince := none }
  | .speechStopped => { s with speechOpen := false, unjudgedSince := none }
  | .completed _ =>
    { s with turnsOpen := s.turnsOpen - 1, speechOpen := false, unjudgedSince := none }
  | .other => s

/-- What the event says of the user and the utterances. -/
def Session.note (s : Session T) : UpstreamEvent → Session T
  | .commitEmpty => { s with finalSince := true }
  | .failed k => { s with unresolved := s.unresolved.erase k }
  | .speechStarted =>
    { s with
      mid := true, finalSince := false
      unresolved := s.started :: s.unresolved, started := s.started + 1 }
  | .speechStopped => { s with mid := false }
  | .completed k => { s with finalSince := true, unresolved := s.unresolved.erase k }
  | .other => s

/-- An outcome is of an utterance that has none yet. -/
def Session.expects (s : Session T) : UpstreamEvent → Bool
  | .completed k | .failed k => k ∈ s.unresolved
  | _ => true

/-- The user is heard speaking, and nothing was finalised since the utterance began. -/
def Session.speaking (s : Session T) : Bool := s.mid && !s.finalSince

/-- `if speech_open: await send_commit()`, with a note that the session has looked. -/
def Session.look (s : Session T) : Session T :=
  let noted := { s with caught := s.caught || s.speaking }
  if s.speechOpen then noted.sendCommit else noted

/-- `pump_client` at the `stop` frame. -/
def Session.stop (s : Session T) : Session T := { s.look with clientEnd := some .stopped }

theorem look_eq (s : Session T) : s.look =
    { s with
      caught := s.caught || s.speaking
      commitSent := s.commitSent || s.speechOpen
      commits := if s.speechOpen ∧ ¬ s.commitSent then s.commits + 1 else s.commits } := by
  unfold Session.look Session.sendCommit
  cases s.speechOpen <;> cases s.commitSent <;> simp

theorem speaking_mid {s : Session T} (h : s.speaking = true) : s.mid = true :=
  (Bool.and_eq_true_iff.mp h).1

/-- The flags are what the events make of them, and the commit follows the looks. -/
structure Flags (s : Session T) : Prop where
  turns : s.turnsOpen = s.unresolved.length
  speech : s.speechOpen = s.speaking
  sent : s.commitSent = s.caught
  once : s.commits = if s.commitSent then 1 else 0

/-- A look keeps the flags: it sends the commit where it finds the user speaking, once. -/
theorem Flags.look {s : Session T} (hs : Flags s) : Flags s.look := by
  obtain ⟨hturns, hspeaking, hsent, honce⟩ := hs
  rw [look_eq]
  refine ⟨hturns, hspeaking, ?_, ?_⟩
  · show (s.commitSent || s.speechOpen) = (s.caught || s.speaking)
    rw [hsent, hspeaking]
  · show (if _ then _ else _) = if (s.commitSent || s.speechOpen) = true then 1 else 0
    cases hspeech : s.speechOpen <;> cases hthere : s.commitSent <;> simp [honce, hthere]

/-! ### What the stop is owed -/

variable [LinearOrder T]

/-- The session is open and the grace deadline has not come. -/
def Session.inGrace (s : Session T) : Bool :=
  s.pc ≠ .closed ∧ s.graceDeadline.all fun deadline => s.now < deadline

/-- Whether the user was heard speaking at the stop or after it. -/
def Session.watched (s : Session T) : Session T :=
  { s with seen := s.seen || (decide (s.clientEnd = some .stopped) && s.inGrace && s.mid) }

/-- The session is over, and the client had sent its stop. -/
def Session.Ended (s : Session T) : Prop := s.pc = .closed ∧ s.clientEnd = some .stopped

/-- The commit was sent, once, iff the user spoke at the stop or in the grace, and before the grace
    deadline nothing was left without an outcome. -/
structure Session.Served (s : Session T) : Prop where
  commit : s.commits = if s.seen then 1 else 0
  patient : s.unresolved = [] ∨ ∃ deadline, s.graceDeadline = some deadline ∧ deadline ≤ s.now

/-- Of a user who spoke then, the session looked while the user spoke and nothing was finalised
    since the utterance began; and it was not cut short with an utterance without an outcome. -/
structure Session.Heard (s : Session T) : Prop where
  looked : s.seen = true → s.caught = true
  uncut : s.cut = true → s.unresolved = []

/-- What holds before the session is watched. -/
structure Ready (s : Session T) : Prop extends Flags s where
  spoke : s.caught = true →
    s.seen = true ∨ (s.clientEnd = some .stopped ∧ s.inGrace = true ∧ s.mid = true)
  early : s.pc = .waiting → s.graceDeadline = none
  reading : s.clientEnd ≠ some .stopped → s.pc ≠ .closed → s.pc = .waiting
  whole : s.pc ≠ .closed → s.cut = false
  ending : s.Ended →
    (s.cut = true ∧ ∀ deadline, s.graceDeadline = some deadline → s.now < deadline) ∨
    (s.cut = false ∧
      (s.unresolved = [] ∨ ∃ deadline, s.graceDeadline = some deadline ∧ deadline ≤ s.now))

/-- INVARIANT: and whoever spoke in the grace was seen. -/
structure Sound (s : Session T) : Prop extends Ready s where
  watching : s.clientEnd = some .stopped → s.inGrace = true → s.mid = true → s.seen = true
  known : s.caught = true → s.seen = true

theorem start_sound (now : T) : Sound (Session.start now) where
  turns := rfl
  speech := rfl
  sent := rfl
  once := rfl
  spoke h := by cases h
  early _ := rfl
  reading _ _ := rfl
  whole _ := rfl
  ending h := by cases h.1
  watching h := by cases h
  known h := by cases h

variable {s : Session T}

theorem Ready.watched (h : Ready s) : Sound s.watched where
  turns := h.turns
  speech := h.speech
  sent := h.sent
  once := h.once
  early := h.early
  reading := h.reading
  whole := h.whole
  ending := h.ending
  spoke hcaught := by
    rcases h.spoke hcaught with hseen | hnow
    · exact .inl (by simp [Session.watched, hseen])
    · exact .inr hnow
  watching hstopped hgrace hmid := by
    have hgrace' : s.inGrace = true := hgrace
    have hstopped' : s.clientEnd = some .stopped := hstopped
    have hmid' : s.mid = true := hmid
    simp [Session.watched, hstopped', hgrace', hmid']
  known hcaught := by
    rcases h.spoke hcaught with hseen | ⟨hstopped, hgrace, hmid⟩
    · simp [Session.watched, hseen]
    · simp [Session.watched, hstopped, hgrace, hmid]

theorem Sound.event (hs : Sound s) (hopen : s.pc ≠ .closed) {e : UpstreamEvent}
    (he : s.expects e = true) : Ready ((s.hear e).note e) := by
  have hclosed : ∀ {t : Session T}, t.pc = s.pc → t.Ended → False :=
    fun hpc hended => hopen (hpc.symm.trans hended.1)
  have herase : ∀ k ∈ s.unresolved, s.turnsOpen - 1 = (s.unresolved.erase k).length :=
    fun k hk => by rw [List.length_erase_of_mem hk, hs.turns]
  have hmem : ∀ {k : ℕ}, decide (k ∈ s.unresolved) = true → k ∈ s.unresolved := of_decide_eq_true
  cases e with
  | speechStarted =>
    exact ⟨⟨congrArg (· + 1) hs.turns, rfl, hs.sent, hs.once⟩, fun h => .inl (hs.known h), hs.early,
      hs.reading, hs.whole, fun h => (hclosed rfl h).elim⟩
  | speechStopped =>
    exact ⟨⟨hs.turns, rfl, hs.sent, hs.once⟩, fun h => .inl (hs.known h), hs.early, hs.reading,
      hs.whole, fun h => (hclosed rfl h).elim⟩
  | completed k =>
    exact ⟨⟨herase k (hmem he), (Bool.and_false _).symm, hs.sent, hs.once⟩,
      fun h => .inl (hs.known h), hs.early, hs.reading, hs.whole, fun h => (hclosed rfl h).elim⟩
  | failed k =>
    exact ⟨⟨herase k (hmem he), hs.speech, hs.sent, hs.once⟩, fun h => .inl (hs.known h), hs.early,
      hs.reading, hs.whole, fun h => (hclosed rfl h).elim⟩
  | commitEmpty =>
    exact ⟨⟨hs.turns, (Bool.and_false _).symm, hs.sent, hs.once⟩, fun h => .inl (hs.known h),
      hs.early, hs.reading, hs.whole, fun h => (hclosed rfl h).elim⟩
  | other => exact hs.toReady

/-- The stop: it is a look. -/
theorem Sound.stop (hs : Sound s) (hopen : s.pc ≠ .closed) (hreading : s.clientEnd = none) :
    Ready s.stop := by
  have hwaiting : s.pc = .waiting := hs.reading (by rw [hreading]; decide) hopen
  have hdeadline := hs.early hwaiting
  have hflags := hs.toFlags.look
  rw [Session.stop]
  rw [look_eq] at hflags ⊢
  refine ⟨⟨hflags.turns, hflags.speech, hflags.sent, hflags.once⟩, fun h => ?_, fun _ => hdeadline,
    fun h => absurd rfl h, fun _ => hs.whole hopen, fun h => absurd h.1 hopen⟩
  rcases Bool.or_eq_true_iff.mp h with hold | hspeaking
  · exact .inl (hs.known hold)
  · refine .inr ⟨rfl, ?_, speaking_mid hspeaking⟩
    simp [Session.inGrace, hwaiting, hdeadline]

/-- In the loop: the stop was sent, and nothing has cut the session short. -/
structure Looping (s : Session T) : Prop extends Flags s where
  stopped : s.clientEnd = some .stopped
  whole : s.cut = false
  known : s.caught = true → s.seen = true

/-- What a pass of the loop starts from. -/
structure Passing (s : Session T) (deadline : T) : Prop extends Looping s where
  grace : s.graceDeadline = some deadline
  seeing : s.now < deadline → s.mid = true → s.seen = true

theorem Sound.looping (hs : Sound s) (hopen : s.pc ≠ .closed) (hpc : s.pc ≠ .waiting) : Looping s :=
  ⟨hs.toFlags, by_contra fun h => hpc (hs.reading h hopen), hs.whole hopen, hs.known⟩

/-- Whatever leaves the loop, or stays in it, without a cut. -/
theorem Looping.ready {t : Session T} (ht : Looping t) (hpc : t.pc ≠ .waiting)
    (hending : t.pc = .closed → t.unresolved = [] ∨
      ∃ deadline, t.graceDeadline = some deadline ∧ deadline ≤ t.now) : Ready t where
  toFlags := ht.toFlags
  spoke h := .inl (ht.known h)
  early h := absurd h hpc
  reading h := absurd ht.stopped h
  whole _ := ht.whole
  ending h := .inr ⟨ht.whole, hending h.1⟩

omit [LinearOrder T] in
/-- Where the session waits is none of its concern. -/
theorem Looping.at (hs : Looping s) (pc : Pc T) : Looping { s with pc := pc } :=
  ⟨⟨hs.turns, hs.speech, hs.sent, hs.once⟩, hs.stopped, hs.whole, hs.known⟩

/-- A closed session, when the stop got what it is owed or was cut short. -/
theorem Flags.ready_of_closed {t : Session T} (hf : Flags t)
    (hknown : t.caught = true → t.seen = true) (hpc : t.pc = .closed)
    (hending : t.clientEnd = some .stopped →
      (t.cut = true ∧ ∀ deadline, t.graceDeadline = some deadline → t.now < deadline) ∨
      (t.cut = false ∧
        (t.unresolved = [] ∨ ∃ deadline, t.graceDeadline = some deadline ∧ deadline ≤ t.now))) :
    Ready t where
  toFlags := hf
  spoke h := .inl (hknown h)
  early h := by
    rw [hpc] at h
    cases h
  reading _ h := absurd hpc h
  whole h := absurd hpc h
  ending h := hending h.2

theorem Passing.look {deadline : T} (hs : Passing s deadline) (hgrace : s.now < deadline) :
    Passing s.look deadline := by
  have hflags := hs.toFlags.look
  rw [look_eq] at hflags ⊢
  refine ⟨⟨hflags, hs.stopped, hs.whole, fun h => ?_⟩, hs.grace, hs.seeing⟩
  rcases Bool.or_eq_true_iff.mp h with hold | hspeaking
  · exact hs.known hold
  · exact hs.seeing hgrace (speaking_mid hspeaking)

/-- In any state of the invariant. -/
theorem Sound.served_iff (hs : Sound s) (hended : s.Ended) : s.Served ↔ s.Heard := by
  have hcommit : (s.commits = if s.seen then 1 else 0) ↔ (s.seen = true → s.caught = true) := by
    rw [hs.once, hs.sent]
    cases hseen : s.seen <;> cases hcaught : s.caught
    · simp
    · exact absurd (hs.known hcaught) (by rw [hseen]; decide)
    · simp
    · simp
  have hpatient : (s.unresolved = [] ∨
      ∃ deadline, s.graceDeadline = some deadline ∧ deadline ≤ s.now) ↔
        (s.cut = true → s.unresolved = []) := by
    rcases hs.ending hended with ⟨hcut, hbefore⟩ | ⟨hwhole, hdone⟩
    · simp only [hcut, forall_const]
      refine or_iff_left ?_
      rintro ⟨deadline, hdeadline, hpast⟩
      exact absurd (hbefore deadline hdeadline) (not_lt.mpr hpast)
    · exact iff_of_true hdone fun hcut => by rw [hwhole] at hcut; cases hcut
  exact ⟨fun h => ⟨hcommit.mp h.commit, hpatient.mp h.patient⟩,
    fun h => ⟨hcommit.mpr h.looked, hpatient.mpr h.uncut⟩⟩

/-! ### The grace -/

variable [AddCommGroup T] (x : Timeouts T)

/-- The end of a pass: leave the loop, or sleep. -/
def Session.judge (s : Session T) (settle : T) : Session T :=
  if s.turnsOpen = 0 ∧ settle ≤ s.now then { s with pc := .closed }
  else { s with pc := .sleeping settle (s.now + x.poll) }

/-- The loop from its condition on. A commit that is on its way lets the others run. -/
def Session.pass (s : Session T) (deadline settle : T) : Session T :=
  if s.now < deadline then
    if s.upstreamDone then { s with pc := .closed, cut := true }
    else if s.speechOpen ∧ ¬ s.commitSent then { s.look with pc := .committing settle }
    else s.look.judge x settle
  else { s with pc := .closed }

/-- `settle_deadline`. -/
def Session.settleDeadline (s : Session T) : T :=
  match s.unjudgedSince with
  | some since => if s.now - since < x.vadSettle then since + x.vadSettle else s.now
  | none => s.now

/-- A task is done: what the session makes of it. -/
def Session.wake (s : Session T) : Option (Session T) :=
  if s.durationDone then some { s with pc := .closed, cut := true }
  else match s.clientEnd with
    | some .stopped =>
      let deadline := s.now + x.finalize
      some (({ s with graceDeadline := some deadline } : Session T).pass x deadline
        (s.settleDeadline x))
    | some .left => some { s with pc := .closed }
    | none => if s.upstreamDone then some { s with pc := .closed } else none

/-- One step; a closed session takes none. -/
def serve (s : Session T) : Action T → Option (Session T)
  | .audio =>
    if s.clientEnd = none then some { s with unjudgedSince := s.unjudgedSince.or (some s.now) }
    else none
  | .stop => if s.clientEnd = none then some s.stop else none
  | .leave => if s.clientEnd = none then some { s with clientEnd := some .left } else none
  | .event e => if s.upstreamDone ∨ ¬ s.expects e then none else some ((s.hear e).note e)
  | .upstreamClosed => some { s with upstreamDone := true }
  | .durationOver => some { s with durationDone := true }
  | .tick later => if s.now ≤ later then some { s with now := later } else none
  | .wake => if s.pc = .waiting then s.wake x else none
  | .committed => match s.pc with
    | .committing settle => some (s.judge x settle)
    | _ => none
  | .poll => match s.pc, s.graceDeadline with
    | .sleeping settle wake, some deadline =>
      if wake ≤ s.now then some (s.pass x deadline settle) else none
    | _, _ => none

def step (s : Session T) (a : Action T) : Option (Session T) :=
  if s.pc = .closed then none else (serve x s a).map Session.watched

theorem Looping.judge (hs : Looping s) (settle : T) : Ready (s.judge x settle) := by
  unfold Session.judge
  split
  case isTrue hdone =>
    refine (hs.at .closed).ready (fun h => by cases h) fun _ => .inl ?_
    exact List.eq_nil_of_length_eq_zero (hs.turns.symm.trans hdone.1)
  case isFalse => exact (hs.at _).ready (fun h => by cases h) fun h => by cases h

theorem Passing.pass {deadline : T} (hs : Passing s deadline) (settle : T) :
    Ready (s.pass x deadline settle) := by
  unfold Session.pass
  split
  case isTrue hgrace =>
    split
    · refine Flags.ready_of_closed ⟨hs.turns, hs.speech, hs.sent, hs.once⟩ hs.known rfl
        fun _ => .inl ⟨rfl, fun d hd => ?_⟩
      obtain rfl : deadline = d := Option.some.inj (hs.grace.symm.trans hd)
      exact hgrace
    · have hlook := hs.look hgrace
      split
      · exact (hlook.at _).ready (fun h => by cases h) fun h => by cases h
      · exact hlook.judge x settle
  case isFalse hover =>
    exact (hs.at .closed).ready (fun h => by cases h)
      fun _ => .inr ⟨deadline, hs.grace, not_lt.mp hover⟩

theorem Sound.wake (hs : Sound s) (hwaiting : s.pc = .waiting) {t : Session T}
    (h : s.wake x = some t) : Ready t := by
  have hopen : s.pc ≠ .closed := fun h => by rw [hwaiting] at h; cases h
  have hnone := hs.early hwaiting
  unfold Session.wake at h
  split at h
  case isTrue =>
    obtain rfl := Option.some.inj h
    refine Flags.ready_of_closed ⟨hs.turns, hs.speech, hs.sent, hs.once⟩ hs.known rfl
      fun _ => .inl ⟨rfl, fun d hd => ?_⟩
    cases (hnone.symm.trans hd : none = some d)
  case isFalse =>
    -- nobody sent a stop, so nothing is owed
    have hleft : s.clientEnd ≠ some .stopped → Ready { s with pc := .closed } := fun hclient =>
      Flags.ready_of_closed ⟨hs.turns, hs.speech, hs.sent, hs.once⟩ hs.known rfl
        fun h => absurd h hclient
    split at h
    case h_1 hclient =>
      obtain rfl := Option.some.inj h
      have hgrace : s.inGrace = true := by simp [Session.inGrace, hwaiting, hnone]
      have hpassing : Passing { s with graceDeadline := some (s.now + x.finalize) }
          (s.now + x.finalize) :=
        ⟨⟨⟨hs.turns, hs.speech, hs.sent, hs.once⟩, hclient, hs.whole hopen, hs.known⟩, rfl,
          fun _ hmid => hs.watching hclient hgrace hmid⟩
      exact hpassing.pass x _
    case h_2 hclient =>
      obtain rfl := Option.some.inj h
      exact hleft (by rw [hclient]; decide)
    case h_3 hclient =>
      split at h
      · obtain rfl := Option.some.inj h
        exact hleft (by rw [hclient]; decide)
      · cases h

theorem serve_ready (hs : Sound s) (hopen : s.pc ≠ .closed) {a : Action T} {t : Session T}
    (h : serve x s a = some t) : Ready t := by
  have hgoes : ∀ {u : Session T}, u.pc = s.pc → u.Ended → False :=
    fun hpc hended => hopen (hpc.symm.trans hended.1)
  cases a with
  | audio =>
    obtain ⟨-, h⟩ := Option.ite_none_right_eq_some.mp h
    obtain rfl := Option.some.inj h
    exact ⟨⟨hs.turns, hs.speech, hs.sent, hs.once⟩, hs.spoke, hs.early, hs.reading, hs.whole,
      fun h => (hgoes rfl h).elim⟩
  | stop =>
    obtain ⟨hreading, h⟩ := Option.ite_none_right_eq_some.mp h
    obtain rfl := Option.some.inj h
    exact hs.stop hopen hreading
  | leave =>
    obtain ⟨hreading, h⟩ := Option.ite_none_right_eq_some.mp h
    obtain rfl := Option.some.inj h
    exact ⟨⟨hs.turns, hs.speech, hs.sent, hs.once⟩, fun h => .inl (hs.known h), hs.early,
      fun _ => hs.reading (by rw [hreading]; decide), hs.whole, fun h => absurd h.1 hopen⟩
  | event e =>
    obtain ⟨hok, h⟩ := Option.ite_none_left_eq_some.mp h
    obtain rfl := Option.some.inj h
    exact hs.event hopen (not_not.mp (not_or.mp hok).2)
  | upstreamClosed | durationOver =>
    obtain rfl := Option.some.inj h
    exact ⟨⟨hs.turns, hs.speech, hs.sent, hs.once⟩, hs.spoke, hs.early, hs.reading, hs.whole,
      fun h => (hgoes rfl h).elim⟩
  | tick later =>
    obtain ⟨-, h⟩ := Option.ite_none_right_eq_some.mp h
    obtain rfl := Option.some.inj h
    exact ⟨⟨hs.turns, hs.speech, hs.sent, hs.once⟩, fun h => .inl (hs.known h), hs.early,
      hs.reading, hs.whole, fun h => (hgoes rfl h).elim⟩
  | wake =>
    obtain ⟨hwaiting, h⟩ := Option.ite_none_right_eq_some.mp h
    exact hs.wake x hwaiting h
  | committed =>
    simp only [serve] at h
    split at h
    case h_1 settle hpc =>
      obtain rfl := Option.some.inj h
      exact (hs.looping hopen (by rw [hpc]; exact fun h => by cases h)).judge x settle
    case h_2 => cases h
  | poll =>
    simp only [serve] at h
    split at h
    case h_1 settle wake deadline hpc hgrace =>
      obtain ⟨-, h⟩ := Option.ite_none_right_eq_some.mp h
      obtain rfl := Option.some.inj h
      have hlooping := hs.looping hopen (by rw [hpc]; exact fun h => by cases h)
      refine Passing.pass x ⟨hlooping, hgrace, fun hnow hmid => hs.watching hlooping.stopped ?_ hmid⟩ _
      simp [Session.inGrace, hpc, hgrace, hnow]
    case h_2 => cases h

theorem step_sound (hs : Sound s) {a : Action T} {t : Session T} (h : step x s a = some t) :
    Sound t := by
  obtain ⟨hopen, h⟩ := Option.ite_none_left_eq_some.mp h
  obtain ⟨u, hu, rfl⟩ := Option.map_eq_some_iff.mp h
  exact (serve_ready x hs hopen hu).watched

/-- EXACT CONDITION: of every order of events, a session that ends after a stop has served it iff
    it was heard. -/
theorem served_run_iff (now : T) (run : List (Action T)) {t : Session T}
    (h : runFrom (step x) (Session.start now) run = some t) (hended : t.Ended) :
    t.Served ↔ t.Heard :=
  (inv_run (fun _ _ _ hs h => step_sound x hs h) (start_sound now) h).served_iff hended

end

/-- As the settings are, in milliseconds. -/
def settings : Timeouts ℤ := ⟨10000, 1000, 20⟩

/-- Two utterances; the transcript of the first comes while the user speaks the second, which is
    stopped by hand and transcribed too late. -/
def overlapping : List (Action ℤ) :=
  [.event .speechStarted, .event .speechStopped, .event .speechStarted, .event (.completed 0), .stop,
    .wake, .tick 10000, .poll]

/-- The user is stopped while speaking, and the commit is never sent. -/
theorem overlapping_unserved :
    ¬ ∀ (x : Timeouts ℤ) (now : ℤ) (run : List (Action ℤ)) (t : Session ℤ),
      runFrom (step x) (Session.start now) run = some t → t.Ended → t.Served := by
  intro h
  have hserved := h settings 0 overlapping _ rfl ⟨rfl, rfl⟩
  exact absurd hserved.commit (by decide)

/-- One utterance, stopped by hand and transcribed in time. -/
theorem stopped_served :
    ∃ t, runFrom (step settings) (Session.start 0) [.event .speechStarted, .stop, .wake,
      .event (.completed 0), .tick 20, .poll] = some t ∧ t.Ended ∧ (t.Served ↔ t.Heard) :=
  ⟨_, rfl, ⟨rfl, rfl⟩, served_run_iff settings 0 [.event .speechStarted, .stop, .wake,
    .event (.completed 0), .tick 20, .poll] rfl ⟨rfl, rfl⟩⟩

end LunaCore.Services.Dictation
