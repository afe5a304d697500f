import Mathlib.Data.List.Nodup
import Mathlib.Data.Int.Order.Basic
import LunaCore.Schemes.Machine
import LunaCore.Schemes.Parties
import LunaCore.Schemes.Slots
import LunaCore.Flow.TriggerIdentity

/-! When the scheduler fires a rule, and what it takes for the rule's last firing.

    A tick reads the flows and looks at their rules one by one; for each it asks the table of runs
    when the rule was last fired, and enqueues a task if a slot after that has come. A worker makes
    a run of the task some time later, or fails to:

        tick ─ rule, rule, … ─→ queue ─→ worker ─→ runs (created_at, source, rule_index)
                 ↑                                   │
                 └────────── last firing ────────────┘

    So a slot is enqueued again until a run created since shows it. The runs of a rule are found by
    its place in the list, those of the first rule by nothing but their source, and a cron that has
    no slot left ends the tick for the rules that come after it. -/

namespace LunaCore.Flow.Scheduling
open LunaCore.Values LunaCore.Schemes

/-- Microseconds. -/
def minute : ℤ := 60000000

/-- What the dispatcher reads of a rule; a value that is absent or falsy is `none`. A rule that is
    edited is another rule. -/
structure Rule where
  flow : ℕ
  cron : Option String
  tz : Option String
  userId : Option String
  inputs : Option Dict

/-- The zones there are, what croniter makes of an expression, and the rules by number. -/
structure System where
  zone : String → Bool
  isValid : String → Bool
  croniter : String → String → Slots ℤ
  rules : ℕ → Rule

/-- A row of `flows`: is its trigger a schedule, and which rules does it list. -/
structure FlowRow where
  isActive : Bool
  scheduled : Bool
  rules : List ℕ

/-- A row of `flow_runs`: `trigger.source`, `trigger.metadata.rule_index` as text, `created_at`.
    For proofs only: the rule whose firing it is. -/
structure Run where
  flow : ℕ
  source : TriggerSource
  ruleIndex : Option String
  createdAt : ℤ
  firedBy : Option ℕ
  deriving DecidableEq

/-- The arguments of a `trigger_scheduled_run` task; the flow is the rule's. -/
structure Payload where
  rule : ℕ
  ruleIndex : ℕ
  scheduledFor : ℤ
  userId : String
  inputs : Dict

/-- A dispatch that is going on: its `now`, and the rules it has not looked at, each with its place
    in its flow. -/
structure Tick where
  now : ℤ
  pending : List (ℕ × ℕ)

/-- The two tables, the task queue and the dispatches. For proofs only: all that was enqueued. -/
structure State where
  flows : List FlowRow
  runs : List Run
  queue : List Payload
  sent : List Payload
  ticks : List Tick

def State.empty : State := ⟨[], [], [], [], []⟩

inductive Action where
  | createFlow (flow : FlowRow)
  | saveFlow (f : ℕ) (flow : FlowRow)
  | tick (now : ℤ) (found : List ℕ)
  | evaluate (j : ℕ)
  | createRun (k : ℕ) (createdAt : ℤ)
  | dropTask (k : ℕ)
  | trigger (f : ℕ) (source : TriggerSource) (ruleIndex : Option String) (createdAt : ℤ)

variable (sys : System)

/-- `_resolve_tz`. -/
def resolveTz (tz : String) : String := if sys.zone tz then tz else "UTC"

/-- The dispatcher gets past its `continue`s: the slots of a rule and its owner. -/
def schedule (rule : Rule) : Option (Slots ℤ × String) := do
  let cron ← rule.cron.filter sys.isValid
  let userId ← rule.userId
  some (sys.croniter cron (resolveTz sys (rule.tz.getD "UTC")), userId)

/-- The `where` of `_last_scheduled_fire`. -/
def matchesRule (f idx : ℕ) (run : Run) : Bool :=
  run.flow = f && run.source = .schedule && (idx = 0 || run.ruleIndex = some (toString idx))

/-- The latest `created_at` of the runs that are asked for. -/
def latest (p : Run → Bool) (runs : List Run) : Option ℤ := ((runs.filter p).map Run.createdAt).max?

/-- `last_fire or (now - timedelta(minutes=1))`. -/
def baseOf (p : Run → Bool) (runs : List Run) (now : ℤ) : ℤ := (latest p runs).getD (now - minute)

/-- `_last_scheduled_fire`, and what it is when there is none. -/
def lastFire (s : State) (now : ℤ) (rule idx : ℕ) : ℤ :=
  baseOf (matchesRule (sys.rules rule).flow idx) s.runs now

/-- The rules of the flows that were found, each with its place. A legacy `trigger.cron` stands for
    a rule of nobody's, which is skipped. -/
def entries (flows : List FlowRow) (found : List ℕ) : List (ℕ × ℕ) :=
  found.flatMap fun f => (((flows[f]?).map FlowRow.rules).getD []).zipIdx

/-- The flows the select finds. -/
def listed (flows : List FlowRow) : List ℕ :=
  (List.range flows.length).filter fun f =>
    (flows[f]?).any fun flow => flow.isActive && flow.scheduled

/-- The dispatch goes on with these rules. -/
def State.goOn (s : State) (j : ℕ) (tick : Tick) (rest : List (ℕ × ℕ)) : State :=
  { s with ticks := s.ticks.set j { tick with pending := rest } }

/-- `trigger_scheduled_run_task.delay`. -/
def State.delay (s : State) (p : Payload) : State :=
  { s with queue := s.queue ++ [p], sent := s.sent ++ [p] }

/-- `dispatch_due_runs` looks at its next rule. -/
def evaluate (s : State) (j : ℕ) (tick : Tick) : Option State :=
  match tick.pending with
  | [] => none
  | (rule, idx) :: rest =>
    match schedule sys (sys.rules rule) with
    | none => some (s.goOn j tick rest)
    | some (slots, userId) =>
      match slots.next (lastFire sys s tick.now rule idx) with
      -- croniter has no next date, and the exception ends the dispatch
      | none => some (s.goOn j tick [])
      | some slot =>
        if slot ≤ tick.now then
          let inputs := (sys.rules rule).inputs.getD []
          some ((s.goOn j tick rest).delay ⟨rule, idx, slot, userId, inputs⟩)
        else some (s.goOn j tick rest)

/-- The flow is there and active. -/
def runnable (s : State) (f : ℕ) : Bool := (s.flows[f]?).any FlowRow.isActive

/-- One step of a request, of a dispatch or of a worker. A flow lists rules of its own, each once;
    the select finds the rows in any order; a task may be delivered again, and may fail. -/
def step (s : State) : Action → Option State
  | .createFlow flow =>
    if flow.rules.Nodup ∧ ∀ rule ∈ flow.rules, (sys.rules rule).flow = s.flows.length then
      some { s with flows := s.flows ++ [flow] }
    else none
  | .saveFlow f flow =>
    if f < s.flows.length ∧ flow.rules.Nodup ∧ ∀ rule ∈ flow.rules, (sys.rules rule).flow = f then
      some { s with flows := s.flows.set f flow }
    else none
  | .tick now found =>
    if found.Perm (listed s.flows) then
      some { s with ticks := s.ticks ++ [⟨now, entries s.flows found⟩] }
    else none
  | .evaluate j => (s.ticks[j]?).bind (evaluate sys s j)
  | .createRun k createdAt => (s.queue[k]?).bind fun p =>
      let f := (sys.rules p.rule).flow
      if runnable s f then
        some { s with
          runs := s.runs ++ [⟨f, .schedule, some (toString p.ruleIndex), createdAt, some p.rule⟩] }
      else none
  | .dropTask k => some { s with queue := s.queue.eraseIdx k }
  | .trigger f source ruleIndex createdAt =>
    if runnable s f then
      some { s with runs := s.runs ++ [⟨f, source, ruleIndex, createdAt, none⟩] }
    else none

/-! ### What is asked of the dispatcher -/

/-- No slot of a rule is enqueued twice. -/
def SentOnce (s : State) : Prop := (s.sent.map fun p => (p.rule, p.scheduledFor)).Nodup

instance (s : State) : Decidable (SentOnce s) :=
  inferInstanceAs (Decidable (List.Nodup _))

/-- A firing of this rule, whatever place it had. -/
def firedBy (rule : ℕ) (run : Run) : Bool := run.firedBy = some rule

/-- What is due of a rule by the clock and its own firings: what the dispatcher computes for it
    where the flow has no other rule and no other run. -/
def ownDue (s : State) (now : ℤ) (rule : ℕ) : Option ℤ :=
  (schedule sys (sys.rules rule)).bind fun (slots, _) =>
    slots.due (baseOf (firedBy rule) s.runs now) now

/-- A rule the dispatch comes to is fired for the slot that is due by its own firings, and no rule
    that has one is left out. -/
def Independent (s : State) (a : Action) (t : State) : Prop :=
  match a with
  | .evaluate j => ∀ tick ∈ s.ticks[j]?, ∀ tick' ∈ t.ticks[j]?,
    (∀ entry ∈ tick.pending.head?, (t.sent.drop s.sent.length).map Payload.scheduledFor =
      (ownDue sys s tick.now entry.1).toList) ∧
    ∀ entry ∈ tick.pending.tail, entry ∉ tick'.pending → ownDue sys s tick.now entry.1 = none
  | _ => True

/-- A run that is asked for was created at `τ` or later; where there is none, `τ` is a minute
    ago. -/
def Shown (p : Run → Bool) (runs : List Run) (now τ : ℤ) : Prop :=
  (∃ run ∈ runs, p run = true ∧ τ ≤ run.createdAt) ∨
    (∀ run ∈ runs, p run = false) ∧ τ ≤ now - minute

/-- The dispatcher can see that the slot was fired: a run under the rule's place shows it. -/
def Seen (s : State) (now : ℤ) (rule idx : ℕ) : ℤ → Prop :=
  Shown (matchesRule (sys.rules rule).flow idx) s.runs now

/-- When a dispatch comes to a rule, each slot up to now that was enqueued for it is shown by a run
    since, or another slot before it is not. -/
def Recorded (s : State) : Action → Prop
  | .evaluate j => ∀ tick ∈ s.ticks[j]?, ∀ entry ∈ tick.pending.head?,
    ∀ sched ∈ schedule sys (sys.rules entry.1), ∀ p ∈ s.sent, p.rule = entry.1 →
      p.scheduledFor ≤ tick.now →
        Seen sys s tick.now entry.1 entry.2 p.scheduledFor ∨
          ∃ τ ∈ sched.1.slots, τ < p.scheduledFor ∧ ¬ Seen sys s tick.now entry.1 entry.2 τ
  | _ => True

/-- When a dispatch comes to a rule, the runs under its place show the slots up to now that its own
    firings show; and if they show every slot there is, the own firings of the rules that come after
    it show all theirs. -/
def OwnRunsOnly (s : State) : Action → Prop
  | .evaluate j => ∀ tick ∈ s.ticks[j]?, ∀ entry ∈ tick.pending.head?,
    ∀ sched ∈ schedule sys (sys.rules entry.1),
      (∀ τ ∈ sched.1.slots, τ ≤ tick.now → (Seen sys s tick.now entry.1 entry.2 τ ↔
        Shown (firedBy entry.1) s.runs tick.now τ)) ∧
      ((∀ τ ∈ sched.1.slots, Seen sys s tick.now entry.1 entry.2 τ) →
        ∀ other ∈ tick.pending.tail, ∀ sched' ∈ schedule sys (sys.rules other.1),
          ∀ τ ∈ sched'.1.slots, τ ≤ tick.now → Shown (firedBy other.1) s.runs tick.now τ)
  | _ => True

variable {sys}

/-! ### The last firing -/

/-- A time is not after the base just when it is shown. -/
theorem le_baseOf_iff (p : Run → Bool) (runs : List Run) (now τ : ℤ) :
    τ ≤ baseOf p runs now ↔ Shown p runs now τ := by
  rw [baseOf, Shown]
  cases hlatest : latest p runs with
  | none =>
    have hnone : ∀ run ∈ runs, p run = false := by
      simpa [latest, List.max?_eq_none_iff] using hlatest
    rw [Option.getD_none]
    constructor
    · intro h
      exact .inr ⟨hnone, h⟩
    · rintro (⟨run, hrun, hp, _⟩ | ⟨_, h⟩)
      · rw [hnone run hrun] at hp
        cases hp
      · exact h
  | some last =>
    obtain ⟨hmem, hmax⟩ := List.max?_eq_some_iff.mp hlatest
    obtain ⟨run, hrun, hcreated⟩ := List.mem_map.mp hmem
    obtain ⟨hin, hp⟩ := List.mem_filter.mp hrun
    rw [Option.getD_some]
    constructor
    · intro h
      exact .inl ⟨run, hin, hp, hcreated ▸ h⟩
    · rintro (⟨other, hother, hpo, hle⟩ | ⟨hnone, _⟩)
      · exact hle.trans (hmax _ (List.mem_map_of_mem (List.mem_filter.mpr ⟨hother, hpo⟩)))
      · rw [hnone run hin] at hp
        cases hp

theorem le_lastFire_iff {s : State} {now : ℤ} {rule idx : ℕ} {τ : ℤ} :
    τ ≤ lastFire sys s now rule idx ↔ Seen sys s now rule idx τ :=
  le_baseOf_iff _ _ _ _

theorem ownDue_eq_none_iff {s : State} {now : ℤ} {rule : ℕ} : ownDue sys s now rule = none ↔
    ∀ sched ∈ schedule sys (sys.rules rule), ∀ τ ∈ sched.1.slots, τ ≤ now →
      Shown (firedBy rule) s.runs now τ := by
  rw [ownDue]
  cases schedule sys (sys.rules rule) with
  | none => simp
  | some sched =>
    rw [Option.bind_some, Slots.due_eq_none_iff]
    simp [le_baseOf_iff]

/-! ### What a dispatch does with a rule -/

/-- The rule is passed over, ends the dispatch, or is fired for a slot or not. -/
theorem evaluate_cases {s t : State} {j : ℕ} {tick : Tick} (h : evaluate sys s j tick = some t) :
    ∃ rule idx rest, tick.pending = (rule, idx) :: rest ∧
      ((schedule sys (sys.rules rule) = none ∧ t = s.goOn j tick rest) ∨
        ∃ slots userId, schedule sys (sys.rules rule) = some (slots, userId) ∧
          ((slots.next (lastFire sys s tick.now rule idx) = none ∧ t = s.goOn j tick []) ∨
            (slots.next (lastFire sys s tick.now rule idx) ≠ none ∧
              slots.due (lastFire sys s tick.now rule idx) tick.now = none ∧
              t = s.goOn j tick rest) ∨
            ∃ slot, slots.due (lastFire sys s tick.now rule idx) tick.now = some slot ∧
              t = (s.goOn j tick rest).delay
                ⟨rule, idx, slot, userId, (sys.rules rule).inputs.getD []⟩)) := by
  rw [evaluate] at h
  split at h
  case h_1 => cases h
  case h_2 rule idx rest hpending =>
    refine ⟨rule, idx, rest, hpending, ?_⟩
    cases hsched : schedule sys (sys.rules rule) with
    | none =>
      rw [hsched] at h
      exact .inl ⟨rfl, (Option.some.inj h).symm⟩
    | some sched =>
      obtain ⟨slots, userId⟩ := sched
      rw [hsched] at h
      refine .inr ⟨slots, userId, rfl, ?_⟩
      cases hnext : slots.next (lastFire sys s tick.now rule idx) with
      | none =>
        simp only [hnext] at h
        exact .inl ⟨rfl, (Option.some.inj h).symm⟩
      | some slot =>
        simp only [hnext] at h
        split at h
        case isTrue hdue =>
          exact .inr (.inr ⟨slot, by simp [Slots.due, hnext, hdue], (Option.some.inj h).symm⟩)
        case isFalse hdue =>
          have hnone : slots.due (lastFire sys s tick.now rule idx) tick.now = none := by
            simpa [Slots.due, hnext] using hdue
          exact .inr (.inl ⟨by simp, hnone, (Option.some.inj h).symm⟩)

@[simp] theorem sent_goOn (s : State) (j : ℕ) (tick : Tick) (rest : List (ℕ × ℕ)) :
    (s.goOn j tick rest).sent = s.sent := rfl

@[simp] theorem sent_delay (s : State) (p : Payload) : (s.delay p).sent = s.sent ++ [p] := rfl

@[simp] theorem ticks_delay (s : State) (p : Payload) : (s.delay p).ticks = s.ticks := rfl

/-- Nothing but the dispatcher enqueues. -/
theorem sent_step {s t : State} {a : Action} (h : step sys s a = some t)
    (hother : ∀ j, a ≠ .evaluate j) : t.sent = s.sent := by
  cases a with
  | evaluate j => exact absurd rfl (hother j)
  | dropTask k =>
    obtain rfl := Option.some.inj h
    rfl
  | createRun k createdAt =>
    obtain ⟨p, _, h⟩ := Option.bind_eq_some_iff.mp h
    dsimp only at h
    split at h
    case isTrue =>
      obtain rfl := Option.some.inj h
      rfl
    case isFalse => cases h
  | _ =>
    rw [step] at h
    split at h
    case isTrue =>
      obtain rfl := Option.some.inj h
      rfl
    case isFalse => cases h

/-! ### A slot is enqueued once -/

/-- No slot was enqueued twice, and each is one of its rule's. -/
structure Sent (sys : System) (s : State) : Prop where
  once : SentOnce s
  slots : ∀ p ∈ s.sent, ∀ sched ∈ schedule sys (sys.rules p.rule), p.scheduledFor ∈ sched.1.slots

theorem sent_empty : Sent sys .empty := ⟨List.nodup_nil, nofun⟩

/-- One more task keeps them distinct just when its slot is new for the rule. -/
theorem sentOnce_concat {s : State} (hs : SentOnce s) (p : Payload) : SentOnce (s.delay p) ↔
    ∀ q ∈ s.sent, q.rule = p.rule → q.scheduledFor ≠ p.scheduledFor := by
  rw [SentOnce, sent_delay, List.map_append, List.map_singleton, List.nodup_append]
  constructor
  · rintro ⟨_, _, hdisjoint⟩ q hq hrule hslot
    exact hdisjoint _ (List.mem_map_of_mem hq) _ (List.mem_singleton_self _) (by rw [hrule, hslot])
  · intro hnew
    refine ⟨hs, List.nodup_singleton _, ?_⟩
    rintro _ hold _ hp rfl
    obtain ⟨q, hq, heq⟩ := List.mem_map.mp hold
    obtain ⟨hrule, hslot⟩ := Prod.mk.inj (heq.trans (List.mem_singleton.mp hp))
    exact hnew q hq hrule hslot

/-- STEP: what is due was not enqueued before just when the earlier slots are recorded. -/
theorem sentOnce_evaluate {s t : State} (hs : Sent sys s) {j : ℕ}
    (h : step sys s (.evaluate j) = some t) : SentOnce t ↔ Recorded sys s (.evaluate j) := by
  obtain ⟨tick, htick, h⟩ := Option.bind_eq_some_iff.mp h
  obtain ⟨rule, idx, rest, hpending, hcase⟩ := evaluate_cases h
  simp only [Recorded, htick, hpending, Option.mem_def, Option.some.injEq, List.head?_cons,
    forall_eq']
  -- whatever is due, an earlier task is not for it just when the condition holds of the task
  have hiff {slots : Slots ℤ} {userId : String}
      (hsched : schedule sys (sys.rules rule) = some (slots, userId)) {q : Payload}
      (hq : q ∈ s.sent) (hrule : q.rule = rule) :
      slots.due (lastFire sys s tick.now rule idx) tick.now ≠ some q.scheduledFor ↔
        (q.scheduledFor ≤ tick.now → Seen sys s tick.now rule idx q.scheduledFor ∨
          ∃ τ ∈ slots.slots, τ < q.scheduledFor ∧ ¬ Seen sys s tick.now rule idx τ) := by
    have hslot := hs.slots q hq (slots, userId) (by rw [hrule]; exact hsched)
    rw [Slots.due_ne_some_iff hslot, le_lastFire_iff]
    simp only [← le_lastFire_iff, not_le]
  rcases hcase with ⟨hnone, rfl⟩ | ⟨slots, userId, hsched, hcase⟩
  · simp only [hnone]
    exact iff_of_true hs.once (by simp)
  · simp only [hsched, Option.some.injEq, forall_eq']
    rcases hcase with ⟨hnext, rfl⟩ | ⟨_, hdue, rfl⟩ | ⟨slot, hdue, rfl⟩
    · refine iff_of_true hs.once fun q hq hrule => (hiff hsched hq hrule).mp ?_
      simp [Slots.due, hnext]
    · refine iff_of_true hs.once fun q hq hrule => (hiff hsched hq hrule).mp ?_
      simp [hdue]
    · rw [sentOnce_concat (s := s.goOn j tick rest) hs.once]
      refine forall_congr' fun q => forall_congr' fun hq => forall_congr' fun hrule => ?_
      rw [← hiff hsched hq hrule, hdue, Ne, Ne, Option.some.injEq, eq_comm]

/-- STEP: what is enqueued is a slot of the rule. -/
theorem sent_evaluate {s t : State} (hs : Sent sys s) {j : ℕ}
    (h : step sys s (.evaluate j) = some t) (honce : SentOnce t) : Sent sys t := by
  refine ⟨honce, ?_⟩
  obtain ⟨tick, htick, h⟩ := Option.bind_eq_some_iff.mp h
  obtain ⟨rule, idx, rest, hpending, hcase⟩ := evaluate_cases h
  rcases hcase with ⟨_, rfl⟩ | ⟨slots, userId, hsched, ⟨_, rfl⟩ | ⟨_, _, rfl⟩ | ⟨slot, hdue, rfl⟩⟩
  · exact hs.slots
  · exact hs.slots
  · exact hs.slots
  · intro p hp
    rcases List.mem_append.mp hp with hold | hnew
    · exact hs.slots p hold
    · obtain rfl := List.mem_singleton.mp hnew
      intro sched hsched'
      obtain rfl := Option.some.inj (hsched.symm.trans hsched')
      exact (Slots.due_eq_some_iff.mp hdue).1.1.1

theorem sent_inv {s : State} {a : Action} {t : State} (hs : Sent sys s) (hok : Recorded sys s a)
    (h : step sys s a = some t) : Sent sys t := by
  cases a with
  | evaluate j => exact sent_evaluate hs h ((sentOnce_evaluate hs h).mpr hok)
  | _ =>
    have hsent := sent_step h nofun
    exact ⟨by rw [SentOnce, hsent]; exact hs.once, by rw [hsent]; exact hs.slots⟩

theorem sentOnce_step_iff {s : State} {a : Action} {t : State} (hs : Sent sys s)
    (h : step sys s a = some t) : SentOnce t ↔ Recorded sys s a := by
  cases a with
  | evaluate j => exact sentOnce_evaluate hs h
  | _ =>
    rw [SentOnce, sent_step h nofun]
    exact iff_of_true hs.once trivial

/-- EXACT CONDITION: in a run no slot of a rule is ever enqueued twice just when, each time a
    dispatch comes to a rule, the slots enqueued for it are recorded. -/
theorem sentOnce_iff (sys : System) (as : List Action) :
    EveryStep (step sys) (fun _ _ t => SentOnce t) .empty as ↔
      Guarded (step sys) (Recorded sys) .empty as :=
  everyStep_iff_guarded (fun _ _ _ hs hok h => sent_inv hs hok h)
    (fun _ _ _ hs h => sentOnce_step_iff hs h) sent_empty

/-! ### A rule by itself -/

/-- Where all runs of a flow are one rule's own firings under the place it has, the dispatcher finds
    what is due by them. -/
theorem due_alone {s : State} {now : ℤ} {rule idx : ℕ} {slots : Slots ℤ} {userId : String}
    (hsched : schedule sys (sys.rules rule) = some (slots, userId))
    (halone : ∀ run ∈ s.runs,
      matchesRule (sys.rules rule).flow idx run = true ↔ firedBy rule run = true) :
    slots.due (lastFire sys s now rule idx) now = ownDue sys s now rule := by
  have hfilter : s.runs.filter (matchesRule (sys.rules rule).flow idx) =
      s.runs.filter (firedBy rule) := by
    refine List.filter_congr fun run hrun => ?_
    rw [Bool.eq_iff_iff]
    exact halone run hrun
  rw [ownDue, hsched, lastFire, baseOf, baseOf, latest, latest, hfilter]
  rfl

/-- What a rule's own firings leave due is what the dispatcher finds just when both show the same
    slots up to now. -/
theorem due_eq_ownDue_iff {s : State} {now : ℤ} {rule idx : ℕ} {slots : Slots ℤ} {userId : String}
    (hsched : schedule sys (sys.rules rule) = some (slots, userId)) :
    slots.due (lastFire sys s now rule idx) now = ownDue sys s now rule ↔
      ∀ τ ∈ slots.slots, τ ≤ now →
        (Seen sys s now rule idx τ ↔ Shown (firedBy rule) s.runs now τ) := by
  rw [ownDue, hsched, Option.bind_some, Slots.due_eq_iff]
  simp only [le_lastFire_iff, le_baseOf_iff]

theorem toList_inj {α : Type*} {o o' : Option α} : o.toList = o'.toList ↔ o = o' := by
  cases o <;> cases o' <;> simp

/-- STEP: a rule is fired by its own firings, and ends the dispatch for none that has a slot due,
    just when the runs it is looked up by are as good as its own. -/
theorem independent_evaluate {s t : State} {j : ℕ} (h : step sys s (.evaluate j) = some t) :
    Independent sys s (.evaluate j) t ↔ OwnRunsOnly sys s (.evaluate j) := by
  obtain ⟨tick, htick, h⟩ := Option.bind_eq_some_iff.mp h
  obtain ⟨rule, idx, rest, hpending, hcase⟩ := evaluate_cases h
  have hgone (left : List (ℕ × ℕ)) :
      (s.goOn j tick left).ticks[j]? = some { tick with pending := left } := moved_self _ htick
  simp only [Independent, OwnRunsOnly, htick, hpending, Option.mem_def, Option.some.injEq,
    List.head?_cons, List.tail_cons, forall_eq']
  rcases hcase with ⟨hnone, rfl⟩ | ⟨slots, userId, hsched, hcase⟩
  · have hown : ownDue sys s tick.now rule = none := by rw [ownDue, hnone]; rfl
    simp only [hgone, hnone, hown, sent_goOn, List.drop_length, Option.some.injEq, forall_eq']
    exact iff_of_true ⟨rfl, fun _ hin hout => absurd hin hout⟩ nofun
  · have hraises : slots.next (lastFire sys s tick.now rule idx) = none ↔
        ∀ τ ∈ slots.slots, Seen sys s tick.now rule idx τ := by
      simp only [Slots.next_eq_none_iff, le_lastFire_iff]
    simp only [hsched, Option.some.injEq, forall_eq']
    rw [← due_eq_ownDue_iff hsched, ← hraises, ← toList_inj]
    rcases hcase with ⟨hnext, rfl⟩ | ⟨hnext, hdue, rfl⟩ | ⟨slot, hdue, rfl⟩
    · have hdue : slots.due (lastFire sys s tick.now rule idx) tick.now = none := by
        rw [Slots.due, hnext]
        rfl
      simp only [hgone, hnext, hdue, sent_goOn, List.drop_length, Option.some.injEq, forall_eq',
        List.map_nil, Option.toList_none, List.not_mem_nil, not_false_eq_true, forall_const,
        ownDue_eq_none_iff, Option.mem_def]
    · simp only [hgone, hnext, hdue, sent_goOn, List.drop_length, Option.some.injEq, forall_eq',
        List.map_nil, Option.toList_none, false_implies, and_true]
      exact and_iff_left fun _ hin hout => absurd hin hout
    · have hnext : slots.next (lastFire sys s tick.now rule idx) ≠ none := by
        intro hnone
        rw [Slots.due, hnone] at hdue
        cases hdue
      simp only [ticks_delay, hgone, hnext, hdue, sent_delay, sent_goOn, List.drop_left,
        Option.some.injEq, forall_eq', List.map_singleton, Option.toList_some, false_implies,
        and_true]
      exact and_iff_left fun _ hin hout => absurd hin hout

theorem independent_step_iff {s : State} {a : Action} {t : State} (h : step sys s a = some t) :
    Independent sys s a t ↔ OwnRunsOnly sys s a := by
  cases a with
  | evaluate j => exact independent_evaluate h
  | _ => exact Iff.rfl

/-- EXACT CONDITION: in a run every rule a dispatch comes to is fired by its own firings, and none
    that has a slot due is left out, just when at each of them the runs under the rule's place show
    what its own firings show. -/
theorem independent_iff (sys : System) (as : List Action) :
    EveryStep (step sys) (Independent sys) .empty as ↔
      Guarded (step sys) (OwnRunsOnly sys) .empty as :=
  @everyStep_iff_guarded _ _ (step sys) (fun _ => True) (OwnRunsOnly sys) (Independent sys)
    (fun _ _ _ _ _ _ => trivial) (fun _ _ _ _ h => independent_step_iff h) as .empty trivial

/-! ### An hourly rule -/

def hour : ℤ := 3600000000

/-- The full hours. -/
def hourly : Slots ℤ where
  slots := {τ | hour ∣ τ}
  next base := some ((base / hour + 1) * hour)
  next_some := by
    rintro base s h
    obtain rfl := Option.some.inj h
    simp only [hour, IsLeast, Set.mem_ofPred_eq, mem_lowerBounds]
    refine ⟨by omega, ?_⟩
    rintro r ⟨⟨q, rfl⟩, hlt⟩
    omega
  next_none := nofun

/-- Every rule fires at the full hours and is somebody's. -/
def clockwork : System where
  zone _ := true
  isValid _ := true
  croniter _ _ := hourly
  rules _ := ⟨0, some "0 * * * *", none, some "u", none⟩

/-- A flow with one rule. -/
def oneRule : FlowRow := ⟨true, true, [0]⟩

/-- The rule is fired at one o'clock and at two; a minute later its run of two has not been made. -/
def slowWorker : List Action :=
  [.createFlow oneRule, .tick hour [0], .evaluate 0, .createRun 0 (hour + 1),
    .tick (2 * hour) [0], .evaluate 1, .tick (2 * hour + minute) [0]]

/-- Two o'clock is enqueued again. -/
theorem slot_sent_twice : ¬ EveryStep (step clockwork) (fun _ _ t => SentOnce t) .empty
    (slowWorker ++ [.evaluate 2]) := by
  intro h
  have honce := EveryStep.at h (rfl : runFrom _ _ slowWorker = some _) rfl
  exact absurd honce (by decide +kernel)

/-- A run is made through the API with the scheduler's source, just after the hour. -/
def apiRun : List Action :=
  [.createFlow oneRule, .trigger 0 .schedule none (hour + 1), .tick (hour + 5) [0]]

/-- The slot of the hour is taken for fired. -/
theorem slot_missed :
    ¬ EveryStep (step clockwork) (Independent clockwork) .empty (apiRun ++ [.evaluate 0]) := by
  intro h
  have hfires := EveryStep.at h (rfl : runFrom _ _ apiRun = some _) rfl
  have hslot := (hfires _ rfl _ rfl).1 _ rfl
  exact absurd hslot (by decide +kernel)

end LunaCore.Flow.Scheduling
