import Mathlib.Data.List.Forall2
import LunaCore.Schemes.Walks
import LunaCore.Flow.NodeConfig
import LunaCore.Flow.TriggerIdentity

/-! Whose schedule rules a save leaves alone.

    A flow has one list of rules for all users. The API shows a user the definition with that user's
    rules only; a save re-validates the definition, stamps its rules with the saving user and puts
    the stored rules of the others behind them:

        stored    b₀ a₀ b₁ a₁ …      (some rules of nobody's)
        shown to b:  b₀ b₁           saved by b:  m₀ m₁ … ++ a₀ a₁ …

    The dispatcher knows a rule by its place in the list, runs none of a trigger that is not a
    schedule, and ends where croniter has no date for a rule. So another user's rules stay word for
    word, but they go on firing as before only where it comes to them as it did and as many rules
    come first. -/

namespace LunaCore.Flow.ScheduleOwners
open LunaCore.Values LunaCore.Schemes

/-! ### Definitions -/

/-- The JSON object of a trigger, stored or sent; a key that is absent or null is `none`. A rule is
    an object too. -/
structure Trigger where
  type : Option String
  cron : Option String
  schedules : List Dict
  config : Dict

/-- A definition: its trigger and the rest. -/
structure Definition where
  trigger : Option Trigger
  rest : Dict

/-- The trigger's rules: `(definition.get("trigger") or {}).get("schedules") or []`. -/
def Definition.rules (d : Definition) : List Dict := (d.trigger.map Trigger.schedules).getD []

/-- `trigger.type == "schedule"`. -/
def Definition.scheduled (d : Definition) : Bool := (d.trigger.bind Trigger.type) = some "schedule"

/-- What pydantic and croniter accept; `rest` validates and dumps the other fields. For a cron, a
    zone and a time, `getNext` has croniter's next date, or nothing where it raises. -/
structure Validators where
  cron : String → Bool
  tz : String → Bool
  uuid : String → Bool
  rest : Dict → Option Dict
  getNext : String → String → ℤ → Option ℤ

variable (v : Validators)

/-- A string field of a rule that may be absent. -/
def strOr (rule : Dict) (key default : String) : Option String :=
  match rule.get key with
  | none => some default
  | some (.str s) => some s
  | some _ => none

/-- An object field of a rule that may be absent. -/
def objOr (rule : Dict) (key : String) : Option Dict :=
  match rule.get key with
  | none => some []
  | some (.obj fields) => some fields
  | some _ => none

/-- The field validator of `cron`. -/
def cronOf (rule : Dict) : Option String :=
  match rule.get "cron" with
  | some (.str s) => if v.cron s then some s else none
  | _ => none

/-- A `user_id` is a UUID or null. -/
def userIdOf (rule : Dict) : Option Json :=
  match rule.get "user_id" with
  | none | some .null => some .null
  | some (.str s) => if v.uuid s then some (.str s) else none
  | some _ => none

/-- `ScheduleRule.model_validate` and `model_dump`: unknown keys go, absent ones get their
    default. -/
def validateRule (rule : Dict) : Option Dict := do
  let cron ← cronOf v rule
  let tz ← (strOr rule "tz" "UTC").filter v.tz
  let value ← objOr rule "value"
  let userId ← userIdOf v rule
  let inputs ← objOr rule "inputs"
  some [("cron", .str cron), ("tz", .str tz), ("value", .obj value), ("user_id", userId),
    ("inputs", .obj inputs)]

def validateRules : List Dict → Option (List Dict)
  | [] => some []
  | rule :: rules => do
    let first ← validateRule v rule
    let rest ← validateRules rules
    some (first :: rest)

/-- `FlowTrigger._normalize_legacy_cron`. -/
def normalizeLegacyCron (type : String) (cron : Option String) (schedules : List Dict) :
    Option (List Dict) :=
  match schedules, cron with
  | [], some c =>
    if type = "schedule" ∧ c ≠ "" then validateRules v [[("cron", .str c), ("tz", .str "UTC")]]
    else some []
  | schedules, _ => some schedules

/-- `FlowTrigger.model_validate` and `model_dump`. -/
def validateTrigger (t : Trigger) : Option Trigger := do
  let type := t.type.getD "manual"
  if type ∈ ["manual", "schedule", "webhook"] then
    let rules ← validateRules v t.schedules
    let schedules ← normalizeLegacyCron v type t.cron rules
    some ⟨some type, t.cron, schedules, t.config⟩
  else none

/-- A definition's trigger may be null. -/
def validateOptional : Option Trigger → Option (Option Trigger)
  | none => some none
  | some t => (validateTrigger v t).map some

/-! ### Saving -/

/-- `_stamp_schedule_owner`. -/
def stampScheduleOwner (user : CurrentUser) (rules : List Dict) : List Dict :=
  rules.map fun rule => rule.set "user_id" (.str user.id)

/-- `rule.get("user_id") == str(user_id)`. -/
def ownedBy (user : CurrentUser) (rule : Dict) : Bool := rule.get "user_id" = some (.str user.id)

/-- `rule.get("user_id") and rule.get("user_id") != str(user_id)`. -/
def foreignTo (user : CurrentUser) (rule : Dict) : Bool :=
  given rule "user_id" && !ownedBy user rule

/-- `_definition_for_user`. -/
def definitionForUser (user : CurrentUser) (d : Definition) : Definition :=
  { d with trigger := d.trigger.map fun t =>
    { t with schedules := t.schedules.filter (ownedBy user) } }

/-- `_merge_user_schedules`, of the incoming trigger: one that is null becomes an object with
    nothing but the rules of the others. -/
def mergeUserSchedules (stored : Definition) (incoming : Option Trigger) (user : CurrentUser) :
    Trigger :=
  let trigger := incoming.getD ⟨none, none, [], []⟩
  { trigger with schedules := trigger.schedules ++ stored.rules.filter (foreignTo user) }

/-- `update_flow` with a definition; `none` is a request the validation refuses. -/
def updateFlow (stored body : Definition) (user : CurrentUser) : Option Definition := do
  let rest ← v.rest body.rest
  let trigger ← validateOptional v body.trigger
  let incoming := trigger.map fun t =>
    { t with schedules := stampScheduleOwner user t.schedules }
  some ⟨some (mergeUserSchedules stored incoming user), rest⟩

/-- The row after the request. -/
def save (stored body : Definition) (user : CurrentUser) : Definition :=
  (updateFlow v stored body user).getD stored

/-! ### Dispatching -/

/-- The dispatcher gets past its `continue`s: the cron is valid and somebody owns the rule. -/
def fireable (rule : Dict) : Bool :=
  (match rule.get "cron" with
    | some (.str c) => c ≠ "" ∧ v.cron c
    | _ => false) && given rule "user_id"

/-- Microseconds. -/
def minute : ℤ := 60000000

/-- A tick: its `now`, and what `_last_scheduled_fire` finds for the flow under each place. -/
structure Tick where
  now : ℤ
  lastFire : ℕ → Option ℤ

/-- `last_fire or (now - timedelta(minutes=1))`. -/
def Tick.base (tick : Tick) (idx : ℕ) : ℤ := (tick.lastFire idx).getD (tick.now - minute)

/-- Looking at the rule raises: its cron is no string, its zone is none, or croniter has no date
    after its last run. -/
def raises (tick : Tick) (entry : Dict × ℕ) : Bool :=
  match entry.1.get "cron" with
  | none => false
  | some (.str c) => fireable v entry.1 && match entry.1.get "tz" with
    | none => (v.getNext c "UTC" (tick.base entry.2)).isNone
    | some (.str tz) => (v.getNext c tz (tick.base entry.2)).isNone
    | some _ => true
  | some value => truthy value

/-- `dispatch_due_runs`, of one flow: the rules it evaluates, each with the index it looks its last
    run up by. What is raised at a rule ends the dispatch. -/
def dispatched (tick : Tick) (d : Definition) : List (Dict × ℕ) :=
  if d.scheduled then
    let rules : List Dict := match d.rules, d.trigger.bind Trigger.cron with
      | [], some c => if c = "" then [] else [[("cron", .str c), ("tz", .str "UTC")]]
      | rules, _ => rules
    (rules.zipIdx.takeWhile fun entry => !raises v tick entry).filter fun entry =>
      fireable v entry.1
  else []

/-- A user's rules as the dispatcher sees them. -/
def firing (tick : Tick) (d : Definition) (user : CurrentUser) : List (Dict × ℕ) :=
  (dispatched v tick d).filter fun entry => ownedBy user entry.1

/-! ### What is asked of a save -/

/-- For every other user: the rules are there word for word, and at the tick they fire as before. -/
def LeavesOthers (tick : Tick) (stored body : Definition) (user : CurrentUser) : Prop :=
  ∀ other : CurrentUser, other.id ≠ user.id →
    (save v stored body user).rules.filter (ownedBy other) = stored.rules.filter (ownedBy other) ∧
      firing v tick (save v stored body user) other = firing v tick stored other

/-- Two rules read the same under every key. -/
def SameRule (rule rule' : Dict) : Prop := ∀ key, rule.get key = rule'.get key

/-- The same set of rules. -/
def SameRules (d e : Definition) : Prop :=
  (∀ rule ∈ d.rules, ∃ rule' ∈ e.rules, SameRule rule rule') ∧
    ∀ rule ∈ e.rules, ∃ rule' ∈ d.rules, SameRule rule rule'

/-- What the API showed is written back. -/
def WritesBack (stored : Definition) (user : CurrentUser) : Prop :=
  SameRules (save v stored (definitionForUser user stored) user) stored

/-- The rules a definition brings, in its user's name: its own, or the one its `cron` is promoted
    to. -/
def sentRules (body : Definition) (user : CurrentUser) : List Dict :=
  match body.trigger with
  | none => []
  | some t => stampScheduleOwner user (match t.schedules, t.cron with
    | [], some c =>
      if t.type = some "schedule" ∧ c ≠ "" then [[("cron", .str c), ("tz", .str "UTC")]] else []
    | schedules, _ => schedules)

/-- Somebody else's rule that the dispatcher evaluates. -/
def OthersRule (user : CurrentUser) (rule : Dict) : Prop :=
  fireable v rule = true ∧ ∃ other : CurrentUser, other.id ≠ user.id ∧ ownedBy other rule = true

/-- The dispatcher comes to the rule: the trigger is a schedule, and nothing is raised at the rule
    or at those in front of it. -/
def Comes (tick : Tick) (scheduled : Bool) (front : List Dict) (rule : Dict) : Prop :=
  scheduled = true ∧ Passes (raises v tick) (front ++ [rule])

/-- To each rule of somebody else's the dispatcher comes behind the rules that are sent and the
    foreign ones just when it does now, and where it does, as many rules that are not foreign are in
    front of it as are sent. -/
def StaysPut (tick : Tick) (stored body : Definition) (user : CurrentUser) : Prop :=
  ∀ before rule after, stored.rules = before ++ rule :: after → OthersRule v user rule →
    (Comes v tick body.scheduled (sentRules body user ++ before.filter (foreignTo user)) rule ↔
      Comes v tick stored.scheduled before rule) ∧
    (Comes v tick stored.scheduled before rule →
      before.countP (fun r => !foreignTo user r) = (sentRules body user).length)

/-- The fields a rule has when it is dumped. -/
def ruleFields : List String := ["cron", "tz", "value", "user_id", "inputs"]

/-- No rule of nobody's, no legacy cron in the place of the user's rules, and each of these rules
    with all its fields and no other key. -/
structure Writable (stored : Definition) (user : CurrentUser) : Prop where
  owned : ∀ rule ∈ stored.rules, ownedBy user rule = true ∨ foreignTo user rule = true
  promoted : ∀ t c, stored.trigger = some t → t.type = some "schedule" → t.cron = some c →
    c ≠ "" → ∃ rule ∈ stored.rules, ownedBy user rule = true
  complete : ∀ rule ∈ stored.rules, ownedBy user rule = true →
    ∀ key, (rule.get key).isSome ↔ key ∈ ruleFields

variable {v}

/-! ### The saved list -/

theorem ownedBy_foreignTo {user other : CurrentUser} {rule : Dict} (hne : other.id ≠ user.id)
    (h : ownedBy other rule = true) : foreignTo user rule = true := by
  have hget : rule.get "user_id" = some (.str other.id) := by simpa [ownedBy] using h
  simp [foreignTo, ownedBy, given, hget, truthy, other.named, hne]

theorem owner_unique {user other : CurrentUser} {rule : Dict} (h : ownedBy user rule = true)
    (h' : ownedBy other rule = true) : other.id = user.id := by
  have hget : rule.get "user_id" = some (.str user.id) := by simpa [ownedBy] using h
  simpa [ownedBy, hget, eq_comm] using h'

theorem ownedBy_not_foreignTo {user : CurrentUser} {rule : Dict} (h : ownedBy user rule = true) :
    foreignTo user rule = false := by
  simp [foreignTo, h]

theorem ownedBy_stamped {user : CurrentUser} {rules : List Dict} {rule : Dict}
    (h : rule ∈ stampScheduleOwner user rules) : ownedBy user rule = true := by
  obtain ⟨r, _, rfl⟩ := List.mem_map.mp h
  simp [ownedBy, Dict.get_set_self]

/-- The rules the request brings, when it is accepted. -/
def mine (v : Validators) (body : Definition) (user : CurrentUser) : List Dict :=
  match body.trigger with
  | none => []
  | some t => stampScheduleOwner user (((validateTrigger v t).map Trigger.schedules).getD [])

/-- An accepted save has the user's rules first and then those of the others, and is a schedule
    just when the request is. -/
theorem updateFlow_some {stored body saved : Definition} {user : CurrentUser}
    (h : updateFlow v stored body user = some saved) :
    saved.rules = mine v body user ++ stored.rules.filter (foreignTo user) ∧
      saved.scheduled = body.scheduled ∧
      ∀ t, body.trigger = some t → ∃ t', validateTrigger v t = some t' := by
  obtain ⟨rest, hrest, h⟩ := Option.bind_eq_some_iff.mp h
  obtain ⟨trigger, htrigger, h⟩ := Option.bind_eq_some_iff.mp h
  obtain rfl := Option.some.inj h
  cases hbody : body.trigger with
  | none =>
    rw [hbody] at htrigger
    obtain rfl : none = trigger := Option.some.inj htrigger
    refine ⟨?_, ?_, nofun⟩
    · simp [Definition.rules, mine, hbody, mergeUserSchedules]
    · simp [Definition.scheduled, hbody, mergeUserSchedules]
  | some t =>
    rw [hbody] at htrigger
    obtain ⟨t', ht', rfl⟩ := Option.map_eq_some_iff.mp htrigger
    have htype : t'.type = some "schedule" ↔ t.type = some "schedule" := by
      rw [validateTrigger] at ht'
      split at ht'
      case isFalse => cases ht'
      case isTrue =>
        obtain ⟨rules, _, ht'⟩ := Option.bind_eq_some_iff.mp ht'
        obtain ⟨schedules, _, ht'⟩ := Option.bind_eq_some_iff.mp ht'
        obtain rfl := Option.some.inj ht'
        cases t.type with
        | none => simp
        | some type => simp
    refine ⟨?_, ?_, ?_⟩
    · simp [Definition.rules, mine, hbody, mergeUserSchedules, ht']
    · simp [Definition.scheduled, hbody, mergeUserSchedules, htype]
    · intro t₀ ht₀
      obtain rfl := Option.some.inj ht₀
      exact ⟨t', ht'⟩

theorem forall₂_validateRules : ∀ {rules out : List Dict}, validateRules v rules = some out →
    List.Forall₂ (fun rule rule' => validateRule v rule = some rule') rules out
  | [], out, h => by
    obtain rfl := Option.some.inj h
    exact .nil
  | rule :: rules, out, h => by
    obtain ⟨first, hfirst, h⟩ := Option.bind_eq_some_iff.mp h
    obtain ⟨rest, hrest, h⟩ := Option.bind_eq_some_iff.mp h
    obtain rfl := Option.some.inj h
    exact .cons hfirst (forall₂_validateRules hrest)

theorem validateRules_length {rules out : List Dict} (h : validateRules v rules = some out) :
    out.length = rules.length :=
  (forall₂_validateRules h).length_eq.symm

/-- The rules of an accepted trigger: the promoted cron's, or those that were sent. -/
theorem validateTrigger_cases {t t' : Trigger} (h : validateTrigger v t = some t') :
    (∃ c, t.schedules = [] ∧ t.cron = some c ∧ t.type = some "schedule" ∧ c ≠ "" ∧
      validateRules v [[("cron", .str c), ("tz", .str "UTC")]] = some t'.schedules) ∨
    (¬ (∃ c, t.schedules = [] ∧ t.cron = some c ∧ t.type = some "schedule" ∧ c ≠ "") ∧
      validateRules v t.schedules = some t'.schedules) := by
  rw [validateTrigger] at h
  split at h
  case isFalse => cases h
  case isTrue =>
    obtain ⟨rules, hrules, h⟩ := Option.bind_eq_some_iff.mp h
    obtain ⟨schedules, hschedules, h⟩ := Option.bind_eq_some_iff.mp h
    obtain rfl := Option.some.inj h
    have htype : t.type.getD "manual" = "schedule" ↔ t.type = some "schedule" := by
      cases t.type with
      | none => simp
      | some type => simp
    cases hsent : t.schedules with
    | cons rule rest =>
      have hlength := validateRules_length hrules
      rw [hsent] at hrules
      refine .inr ⟨by simp, ?_⟩
      cases rules with
      | nil => simp [hsent] at hlength
      | cons first others =>
        rw [normalizeLegacyCron] at hschedules
        · exact hrules.trans hschedules
        · nofun
    | nil =>
      rw [hsent] at hrules
      obtain rfl : [] = rules := Option.some.inj hrules
      cases hcron : t.cron with
      | none =>
        rw [hcron] at hschedules
        exact .inr ⟨by simp, hrules.trans hschedules⟩
      | some c =>
        rw [hcron, normalizeLegacyCron] at hschedules
        split at hschedules
        case isTrue hpromote =>
          exact .inl ⟨c, rfl, rfl, htype.mp hpromote.1, hpromote.2, hschedules⟩
        case isFalse hkeep =>
          refine .inr ⟨?_, hrules.trans hschedules⟩
          rintro ⟨_, _, hc, htype', hne⟩
          obtain rfl := Option.some.inj hc
          exact hkeep ⟨htype.mpr htype', hne⟩

theorem cronOf_some {rule : Dict} {cron : String} (h : cronOf v rule = some cron) :
    rule.get "cron" = some (.str cron) := by
  rw [cronOf] at h
  split at h
  case h_1 s hs =>
    split at h
    · obtain rfl := Option.some.inj h
      exact hs
    · cases h
  case h_2 => cases h

/-- What is raised at a rule that is accepted is raised at what it is stored as. -/
theorem raises_stamped {user : CurrentUser} {sent rule : Dict} (tick : Tick) (idx : ℕ)
    (h : validateRule v sent = some rule) :
    raises v tick (rule.set "user_id" (.str user.id), idx) =
      raises v tick (sent.set "user_id" (.str user.id), idx) := by
  obtain ⟨cron, hcron, h⟩ := Option.bind_eq_some_iff.mp h
  obtain ⟨tz, htz, h⟩ := Option.bind_eq_some_iff.mp h
  obtain ⟨value, _, h⟩ := Option.bind_eq_some_iff.mp h
  obtain ⟨userId, _, h⟩ := Option.bind_eq_some_iff.mp h
  obtain ⟨inputs, _, h⟩ := Option.bind_eq_some_iff.mp h
  obtain rfl := Option.some.inj h
  have hsent : sent.get "cron" = some (.str cron) := cronOf_some hcron
  have htz' : strOr sent "tz" "UTC" = some tz := (Option.filter_eq_some_iff.mp htz).1
  have hset (d : Dict) (key : String) (hkey : key ≠ "user_id") :
      (d.set "user_id" (.str user.id)).get key = d.get key := by
    rw [Dict.get_set, if_neg hkey]
  have howner (d : Dict) : given (d.set "user_id" (.str user.id)) "user_id" = true := by
    simp [given, Dict.get_set_self, truthy, user.named]
  simp only [raises, fireable, howner, hset _ "cron" (by decide), hset _ "tz" (by decide), hsent]
  rw [strOr] at htz'
  split at htz'
  case h_1 hnone =>
    obtain rfl := Option.some.inj htz'
    simp [Dict.get]
  case h_2 s hs =>
    obtain rfl := Option.some.inj htz'
    simp [Dict.get]
  case h_3 => cases htz'

/-- The rules of an accepted save are those that were sent, validated. -/
theorem mine_sent {body : Definition} (user : CurrentUser)
    (hvalid : ∀ t, body.trigger = some t → ∃ t', validateTrigger v t = some t') :
    ∃ sent rules, sentRules body user = stampScheduleOwner user sent ∧
      mine v body user = stampScheduleOwner user rules ∧
      List.Forall₂ (fun rule rule' => validateRule v rule = some rule') sent rules := by
  cases hbody : body.trigger with
  | none => exact ⟨[], [], by simp [sentRules, hbody, stampScheduleOwner],
      by simp [mine, hbody, stampScheduleOwner], .nil⟩
  | some t =>
    obtain ⟨t', ht'⟩ := hvalid t hbody
    have hmine : mine v body user = stampScheduleOwner user t'.schedules := by
      simp [mine, hbody, ht']
    rcases validateTrigger_cases ht' with ⟨c, hnil, hcron, htype, hne, hrules⟩ | ⟨hnot, hrules⟩
    · refine ⟨_, _, ?_, hmine, forall₂_validateRules hrules⟩
      simp [sentRules, hbody, hnil, hcron, htype, hne]
    · refine ⟨_, _, ?_, hmine, forall₂_validateRules hrules⟩
      simp only [sentRules, hbody]
      cases hsent : t.schedules with
      | cons rule rest => rfl
      | nil =>
        cases hcron : t.cron with
        | none => rfl
        | some c =>
          have hkeep : ¬ (t.type = some "schedule" ∧ c ≠ "") :=
            fun h => hnot ⟨c, hsent, hcron, h.1, h.2⟩
          simp only [if_neg hkeep]

theorem length_mine {body : Definition} {user : CurrentUser}
    (hvalid : ∀ t, body.trigger = some t → ∃ t', validateTrigger v t = some t') :
    (mine v body user).length = (sentRules body user).length := by
  obtain ⟨sent, rules, hsent, hmine, hall⟩ := mine_sent user hvalid
  simp only [hsent, hmine, stampScheduleOwner, List.length_map, hall.length_eq]

/-- The dispatch is stopped in front of the others' rules by what was sent. -/
theorem passes_mine {body : Definition} {user : CurrentUser} (tick : Tick)
    (hvalid : ∀ t, body.trigger = some t → ∃ t', validateTrigger v t = some t')
    (rest : List Dict) :
    Passes (raises v tick) (mine v body user ++ rest) ↔
      Passes (raises v tick) (sentRules body user ++ rest) := by
  obtain ⟨sent, rules, hsent, hmine, hall⟩ := mine_sent user hvalid
  have hstamped : List.Forall₂ (fun rule rule' : Dict => ∀ idx, raises v tick (rule, idx) =
      raises v tick (rule', idx)) (stampScheduleOwner user rules)
        (stampScheduleOwner user sent) := by
    refine List.forall₂_map_left_iff.mpr (List.forall₂_map_right_iff.mpr ?_)
    exact hall.flip.imp fun rule sent h idx => raises_stamped tick idx h
  rw [hsent, hmine]
  exact passes_congr (fun rule rule' idx h => h idx) hstamped rest

/-! ### The others -/

/-- The rules the dispatcher evaluates for a user. -/
def evaluates (v : Validators) (user : CurrentUser) (rule : Dict) : Bool :=
  ownedBy user rule && fireable v rule

/-- A legacy cron in the place of the rules fires for nobody. -/
theorem firing_eq (tick : Tick) (d : Definition) (user : CurrentUser) : firing v tick d user =
    if d.scheduled = true then walkedFrom (raises v tick) (evaluates v user) [] d.rules else [] := by
  have hnone : Passes (raises v tick) [] := nofun
  rw [firing, dispatched, walkedFrom, if_pos hnone]
  split
  case isFalse => rfl
  case isTrue =>
    cases hrules : d.rules with
    | cons rule rules => simp only [List.filter_filter, evaluates, List.length_nil]
    | nil =>
      cases d.trigger.bind Trigger.cron with
      | none => rfl
      | some c =>
        by_cases hc : c = ""
        · simp [hc]
        · simp [hc, fireable, given, Dict.get, raises]

theorem filter_mine {user other : CurrentUser} {body : Definition} (hne : other.id ≠ user.id) :
    (mine v body user).filter (ownedBy other) = [] := by
  refine List.filter_eq_nil_iff.mpr fun rule hrule hother => hne ?_
  have hmine : ownedBy user rule = true := by
    rw [mine] at hrule
    split at hrule
    · cases hrule
    · exact ownedBy_stamped hrule
  exact owner_unique hmine hother

/-- Another user's rules are there word for word. -/
theorem filter_saved {stored body saved : Definition} {user other : CurrentUser}
    (h : updateFlow v stored body user = some saved) (hne : other.id ≠ user.id) :
    saved.rules.filter (ownedBy other) = stored.rules.filter (ownedBy other) := by
  rw [(updateFlow_some h).1, List.filter_append, filter_mine hne, List.nil_append,
    List.filter_filter]
  refine List.filter_congr fun rule _ => ?_
  cases hown : ownedBy other rule with
  | false => rfl
  | true => rw [ownedBy_foreignTo hne hown]; rfl

theorem evaluates_iff {user : CurrentUser} {rule : Dict} : OthersRule v user rule ↔
    ∃ other : CurrentUser, other.id ≠ user.id ∧ evaluates v other rule = true := by
  constructor
  · rintro ⟨hfire, other, hne, hown⟩
    exact ⟨other, hne, Bool.and_eq_true_iff.mpr ⟨hown, hfire⟩⟩
  · rintro ⟨other, hne, heval⟩
    obtain ⟨hown, hfire⟩ := Bool.and_eq_true_iff.mp heval
    exact ⟨hfire, other, hne, hown⟩

/-- What is saved in front of another user's rules is none of that user's. -/
theorem walked_saved {stored body saved : Definition} {user other : CurrentUser} (tick : Tick)
    (h : updateFlow v stored body user = some saved) (hne : other.id ≠ user.id) :
    walkedFrom (raises v tick) (evaluates v other) [] saved.rules =
      walkedFrom (raises v tick) (evaluates v other) (mine v body user)
        (stored.rules.filter (foreignTo user)) := by
  rw [(updateFlow_some h).1]
  refine walkedFrom_append (fun rule hrule => ?_) _
  have hnil : rule ∉ (mine v body user).filter (ownedBy other) := by
    rw [filter_mine hne]
    exact List.not_mem_nil
  cases hown : ownedBy other rule with
  | false => simp [evaluates, hown]
  | true => exact absurd (List.mem_filter.mpr ⟨hrule, hown⟩) hnil

/-- One other user's rules fire as before just when the dispatcher comes to them as it did and they
    have the places they had. -/
theorem firing_saved_iff {stored body saved : Definition} {user other : CurrentUser} (tick : Tick)
    (h : updateFlow v stored body user = some saved) (hne : other.id ≠ user.id) :
    firing v tick saved other = firing v tick stored other ↔
      ∀ before rule after, stored.rules = before ++ rule :: after → evaluates v other rule = true →
        (Comes v tick body.scheduled (sentRules body user ++ before.filter (foreignTo user)) rule ↔
          Comes v tick stored.scheduled before rule) ∧
        (Comes v tick stored.scheduled before rule →
          before.countP (fun r => !foreignTo user r) = (sentRules body user).length) := by
  obtain ⟨-, hscheduled, hvalid⟩ := updateFlow_some h
  have hforeign (rule : Dict) (h : evaluates v other rule = true) :
      foreignTo user rule = true :=
    ownedBy_foreignTo hne (Bool.and_eq_true_iff.mp h).1
  rw [firing_eq, firing_eq, hscheduled, walked_saved tick h hne, walkedFrom_eq_iff hforeign]
  refine forall_congr' fun before => forall_congr' fun rule => forall_congr' fun after =>
    forall_congr' fun _ => forall_congr' fun _ => ?_
  have hnot : before.countP (fun r => decide ¬ foreignTo user r = true) =
      before.countP fun r => !foreignTo user r := by
    congr 1
    funext r
    cases foreignTo user r <;> rfl
  have hplace : (mine v body user).length + before.countP (foreignTo user) = before.length ↔
      before.countP (fun r => !foreignTo user r) = (sentRules body user).length := by
    rw [length_mine hvalid, List.length_eq_countP_add_countP (foreignTo user) (l := before), hnot]
    omega
  rw [List.append_assoc, passes_mine tick hvalid, ← List.append_assoc, hplace, Comes, Comes]

/-- EXACT CONDITION for the others: a save leaves their rules and their firing at a tick alone just
    when it is refused, or the dispatcher comes to them as it did, in the places they had. -/
theorem leavesOthers_iff (tick : Tick) (stored body : Definition) (user : CurrentUser) :
    LeavesOthers v tick stored body user ↔ updateFlow v stored body user = none ∨
      StaysPut v tick stored body user := by
  cases h : updateFlow v stored body user with
  | none =>
    refine ⟨fun _ => .inl rfl, fun _ other _ => ?_⟩
    rw [save, h]
    exact ⟨rfl, rfl⟩
  | some saved =>
    have hsave : save v stored body user = saved := by rw [save, h]; rfl
    rw [LeavesOthers, hsave, or_iff_right (by nofun)]
    constructor
    · intro hleaves before rule after hrules hothers
      obtain ⟨other, hne, heval⟩ := evaluates_iff.mp hothers
      exact (firing_saved_iff tick h hne).mp (hleaves other hne).2 before rule after hrules heval
    · intro hput other hne
      refine ⟨filter_saved h hne, (firing_saved_iff tick h hne).mpr ?_⟩
      intro before rule after hrules heval
      exact hput before rule after hrules (evaluates_iff.mpr ⟨other, hne, heval⟩)

/-! ### Writing back -/

theorem SameRule.owned {user : CurrentUser} {rule rule' : Dict} (h : SameRule rule rule') :
    ownedBy user rule = ownedBy user rule' := by
  rw [ownedBy, ownedBy, h "user_id"]

theorem SameRule.foreign {user : CurrentUser} {rule rule' : Dict} (h : SameRule rule rule') :
    foreignTo user rule = foreignTo user rule' := by
  rw [foreignTo, foreignTo, given, given, h.owned, h "user_id"]

theorem validateRules_mem : ∀ {rules out : List Dict}, validateRules v rules = some out →
    (∀ rule' ∈ out, ∃ rule ∈ rules, validateRule v rule = some rule') ∧
      ∀ rule ∈ rules, ∃ rule' ∈ out, validateRule v rule = some rule' := by
  intro rules
  induction rules with
  | nil =>
    intro out h
    obtain rfl := Option.some.inj h
    exact ⟨nofun, nofun⟩
  | cons rule rules ih =>
    intro out h
    obtain ⟨first, hfirst, h⟩ := Option.bind_eq_some_iff.mp h
    obtain ⟨rest, hrest, h⟩ := Option.bind_eq_some_iff.mp h
    obtain rfl := Option.some.inj h
    obtain ⟨hfrom, hto⟩ := ih hrest
    constructor
    · intro rule' hmem
      rcases List.mem_cons.mp hmem with rfl | hin
      · exact ⟨rule, List.mem_cons_self, hfirst⟩
      · obtain ⟨r, hr, hvalid⟩ := hfrom rule' hin
        exact ⟨r, List.mem_cons_of_mem _ hr, hvalid⟩
    · intro r hmem
      rcases List.mem_cons.mp hmem with rfl | hin
      · exact ⟨first, List.mem_cons_self, hfirst⟩
      · obtain ⟨rule', hr, hvalid⟩ := hto r hin
        exact ⟨rule', List.mem_cons_of_mem _ hr, hvalid⟩

theorem strOr_present {rule : Dict} {key default s : String} (h : strOr rule key default = some s)
    (hpresent : (rule.get key).isSome) : rule.get key = some (.str s) := by
  rw [strOr] at h
  split at h
  case h_1 hnone => simp [hnone] at hpresent
  case h_2 t ht =>
    obtain rfl := Option.some.inj h
    exact ht
  case h_3 => cases h

theorem objOr_present {rule fields : Dict} {key : String} (h : objOr rule key = some fields)
    (hpresent : (rule.get key).isSome) : rule.get key = some (.obj fields) := by
  rw [objOr] at h
  split at h
  case h_1 hnone => simp [hnone] at hpresent
  case h_2 t ht =>
    obtain rfl := Option.some.inj h
    exact ht
  case h_3 => cases h

/-- A rule that is accepted has the five fields and no other key, and what it had of them but the
    owner it still has. -/
theorem validateRule_some {rule rule' : Dict} (h : validateRule v rule = some rule') :
    (∀ key, (rule'.get key).isSome ↔ key ∈ ruleFields) ∧
      ∀ key ∈ ruleFields, key ≠ "user_id" → (rule.get key).isSome →
        rule'.get key = rule.get key := by
  obtain ⟨cron, hcron, h⟩ := Option.bind_eq_some_iff.mp h
  obtain ⟨tz, htz, h⟩ := Option.bind_eq_some_iff.mp h
  obtain ⟨value, hvalue, h⟩ := Option.bind_eq_some_iff.mp h
  obtain ⟨userId, _, h⟩ := Option.bind_eq_some_iff.mp h
  obtain ⟨inputs, hinputs, h⟩ := Option.bind_eq_some_iff.mp h
  obtain rfl := Option.some.inj h
  constructor
  · intro key
    rw [Option.isSome_iff_ne_none, ne_eq, Dict.get_eq_none, not_not]
    rfl
  · intro key hkey hne hpresent
    simp only [ruleFields, List.mem_cons, List.not_mem_nil, or_false] at hkey
    rcases hkey with rfl | rfl | rfl | rfl | rfl
    · exact (cronOf_some hcron).symm
    · exact (strOr_present (Option.filter_eq_some_iff.mp htz).1 hpresent).symm
    · exact (objOr_present hvalue hpresent).symm
    · exact absurd rfl hne
    · exact (objOr_present hinputs hpresent).symm

/-- A rule with all its fields and no other key is written back as it is, and another is not. -/
theorem sameRule_stamped_iff {user : CurrentUser} {rule rule' : Dict}
    (h : validateRule v rule = some rule') (hown : ownedBy user rule = true) :
    SameRule (rule'.set "user_id" (.str user.id)) rule ↔
      ∀ key, (rule.get key).isSome ↔ key ∈ ruleFields := by
  obtain ⟨hkeys, hkeep⟩ := validateRule_some h
  have hset (key : String) : (Dict.set rule' "user_id" (.str user.id)).get key =
      if key = "user_id" then some (.str user.id) else rule'.get key := Dict.get_set ..
  have hget : rule.get "user_id" = some (.str user.id) := by simpa [ownedBy] using hown
  constructor
  · intro hsame key
    rw [← hsame key, hset]
    split
    case isTrue hkey => simp [hkey, ruleFields]
    case isFalse => exact hkeys key
  · intro hcomplete key
    rw [hset]
    split
    case isTrue hkey => rw [hkey, hget]
    case isFalse hne =>
      by_cases hkey : key ∈ ruleFields
      · exact hkeep key hkey hne ((hcomplete key).mpr hkey)
      · have hnone : ¬ (rule.get key).isSome = true := fun h => hkey ((hcomplete key).mp h)
        have hnone' : ¬ (rule'.get key).isSome = true := fun h => hkey ((hkeys key).mp h)
        rw [Option.not_isSome_iff_eq_none.mp hnone, Option.not_isSome_iff_eq_none.mp hnone']

theorem mem_mine {body : Definition} {user : CurrentUser} {rule : Dict}
    (h : rule ∈ mine v body user) : ownedBy user rule = true ∧
      ∃ t t', body.trigger = some t ∧ validateTrigger v t = some t' ∧
        ∃ r ∈ t'.schedules, rule = r.set "user_id" (.str user.id) := by
  rw [mine] at h
  cases hbody : body.trigger with
  | none => simp [hbody] at h
  | some t =>
    simp only [hbody] at h
    refine ⟨ownedBy_stamped h, ?_⟩
    obtain ⟨r, hr, rfl⟩ := List.mem_map.mp h
    cases ht : validateTrigger v t with
    | none => simp [ht] at hr
    | some t' => exact ⟨t, t', rfl, ht, r, by simpa [ht] using hr, rfl⟩

/-- What a save brings has all the fields of a rule and no other key. -/
theorem complete_mine {body : Definition} {user : CurrentUser} {rule : Dict}
    (h : rule ∈ mine v body user) (key : String) : (rule.get key).isSome ↔ key ∈ ruleFields := by
  obtain ⟨_, t, t', _, ht', r, hr, rfl⟩ := mem_mine h
  obtain ⟨sent, hsent⟩ : ∃ sent, validateRule v sent = some r := by
    rcases validateTrigger_cases ht' with ⟨c, _, _, _, _, hrules⟩ | ⟨_, hrules⟩
    · obtain ⟨sent, _, hsent⟩ := (validateRules_mem hrules).1 r hr
      exact ⟨sent, hsent⟩
    · obtain ⟨sent, _, hsent⟩ := (validateRules_mem hrules).1 r hr
      exact ⟨sent, hsent⟩
  rw [Dict.get_set]
  split
  case isTrue hkey => simp [hkey, ruleFields]
  case isFalse => exact (validateRule_some hsent).1 key

/-- What the API shows, once accepted, has the user's rules of the row and no promoted one. -/
theorem mine_shown {stored : Definition} {user : CurrentUser} {t : Trigger}
    (ht : stored.trigger = some t) {t' : Trigger}
    (ht' : validateTrigger v { t with schedules := t.schedules.filter (ownedBy user) } = some t')
    (hkept : ∀ c, t.type = some "schedule" → t.cron = some c → c ≠ "" →
      ∃ rule ∈ stored.rules, ownedBy user rule = true) :
    validateRules v (stored.rules.filter (ownedBy user)) = some t'.schedules := by
  have hrules : stored.rules = t.schedules := by simp [Definition.rules, ht]
  rcases validateTrigger_cases ht' with ⟨c, hnil, hcron, htype, hne, _⟩ | ⟨_, hvalid⟩
  · obtain ⟨rule, hrule, hown⟩ := hkept c htype hcron hne
    have hmem : rule ∈ t.schedules.filter (ownedBy user) :=
      List.mem_filter.mpr ⟨hrules ▸ hrule, hown⟩
    rw [show t.schedules.filter (ownedBy user) = [] from hnil] at hmem
    cases hmem
  · rw [hrules]
    exact hvalid

section
variable {stored saved : Definition} {user : CurrentUser}
  (hsaved : updateFlow v stored (definitionForUser user stored) user = some saved)
include hsaved

/-- A set of rules that stays has none of nobody's, none promoted, none with other fields. -/
theorem writable_of_same (h : SameRules saved stored) : Writable stored user := by
  have hrules := (updateFlow_some hsaved).1
  have hvalid := (updateFlow_some hsaved).2.2
  constructor
  · intro rule hrule
    obtain ⟨rule', hrule', hsame⟩ := h.2 rule hrule
    rw [hrules] at hrule'
    rcases List.mem_append.mp hrule' with hmine | hforeign
    · exact .inl (hsame.owned.trans (mem_mine hmine).1)
    · exact .inr (hsame.foreign.trans (List.mem_filter.mp hforeign).2)
  · intro t c ht htype hcron hne
    by_contra hnone
    push Not at hnone
    have hnil : t.schedules.filter (ownedBy user) = [] := by
      refine List.filter_eq_nil_iff.mpr fun rule hrule => hnone rule ?_
      simpa [Definition.rules, ht] using hrule
    obtain ⟨t', ht'⟩ := hvalid _ (by rw [definitionForUser, ht]; rfl)
    rcases validateTrigger_cases ht' with ⟨_, _, _, _, _, hpromoted⟩ | ⟨hnot, _⟩
    · -- the promoted rule is the user's, so the row would have had one
      have hlength := validateRules_length hpromoted
      obtain ⟨r, hr⟩ := List.exists_mem_of_length_pos (by rw [hlength]; exact Nat.one_pos)
      have hmine : Dict.set r "user_id" (.str user.id) ∈
          mine v (definitionForUser user stored) user := by
        simp only [mine, definitionForUser, ht, Option.map_some, ht', Option.getD_some]
        exact List.mem_map_of_mem hr
      obtain ⟨rule, hrule, hsame⟩ := h.1 _ (by rw [hrules]; exact List.mem_append_left _ hmine)
      exact hnone rule hrule (hsame.owned.symm.trans (mem_mine hmine).1)
    · exact hnot ⟨c, hnil, hcron, htype, hne⟩
  · intro rule hrule hown key
    obtain ⟨rule', hrule', hsame⟩ := h.2 rule hrule
    rw [hrules] at hrule'
    rcases List.mem_append.mp hrule' with hmine | hforeign
    · rw [hsame key]
      exact complete_mine hmine key
    · have hother := hsame.foreign.trans (List.mem_filter.mp hforeign).2
      rw [ownedBy_not_foreignTo hown] at hother
      cases hother

/-- Such a set stays. -/
theorem same_of_writable (h : Writable stored user) : SameRules saved stored := by
  have hrules := (updateFlow_some hsaved).1
  cases ht : stored.trigger with
  | none =>
    have hnone : stored.rules = [] := by simp [Definition.rules, ht]
    rw [SameRules, hrules, hnone]
    simp [mine, definitionForUser, ht]
  | some t =>
    obtain ⟨t', ht'⟩ := (updateFlow_some hsaved).2.2 _ (by rw [definitionForUser, ht]; rfl)
    have hout := validateRules_mem (mine_shown ht ht' fun c => h.promoted t c ht)
    have hmine : mine v (definitionForUser user stored) user =
        stampScheduleOwner user t'.schedules := by
      simp only [mine, definitionForUser, ht, Option.map_some, ht', Option.getD_some]
    constructor
    · intro rule hrule
      rw [hrules, hmine] at hrule
      rcases List.mem_append.mp hrule with hin | hforeign
      · obtain ⟨r, hr, rfl⟩ := List.mem_map.mp hin
        obtain ⟨sent, hsent, hvalid⟩ := hout.1 r hr
        obtain ⟨hstored, hown⟩ := List.mem_filter.mp hsent
        exact ⟨sent, hstored, (sameRule_stamped_iff hvalid hown).mpr (h.complete sent hstored hown)⟩
      · exact ⟨rule, (List.mem_filter.mp hforeign).1, fun _ => rfl⟩
    · intro rule hrule
      rw [hrules, hmine]
      rcases h.owned rule hrule with hown | hforeign
      · obtain ⟨r, hr, hvalid⟩ := hout.2 rule (List.mem_filter.mpr ⟨hrule, hown⟩)
        refine ⟨_, List.mem_append_left _ (List.mem_map_of_mem hr), fun key => ?_⟩
        exact ((sameRule_stamped_iff hvalid hown).mpr (h.complete rule hrule hown) key).symm
      · exact ⟨rule, List.mem_append_right _ (List.mem_filter.mpr ⟨hrule, hforeign⟩), fun _ => rfl⟩

end

/-- EXACT CONDITION for the write-back: the row keeps its set of rules just when the request is
    refused or the row can be written back. -/
theorem writesBack_iff (stored : Definition) (user : CurrentUser) : WritesBack v stored user ↔
    updateFlow v stored (definitionForUser user stored) user = none ∨ Writable stored user := by
  rw [WritesBack, save]
  cases h : updateFlow v stored (definitionForUser user stored) user with
  | none =>
    refine ⟨fun _ => .inl rfl, fun _ => ?_⟩
    have hself : ∀ rule ∈ stored.rules, ∃ rule' ∈ stored.rules, SameRule rule rule' :=
      fun rule hrule => ⟨rule, hrule, fun _ => rfl⟩
    exact ⟨hself, fun rule hrule => ⟨rule, hrule, fun _ => rfl⟩⟩
  | some saved =>
    rw [Option.getD_some, or_iff_right (by nofun)]
    exact ⟨writable_of_same h, same_of_writable h⟩

/-- EXACT CONDITIONS: a save leaves the others' rules as they are and firing as before at any tick,
    and what the API showed can be written back, each just when its condition holds. -/
theorem schedule_owners_iff (v : Validators) (stored : Definition) (user : CurrentUser) :
    (∀ tick body, LeavesOthers v tick stored body user ↔
      updateFlow v stored body user = none ∨ StaysPut v tick stored body user) ∧
    (WritesBack v stored user ↔ updateFlow v stored (definitionForUser user stored) user = none ∨
      Writable stored user) :=
  ⟨fun tick body => leavesOthers_iff tick stored body user, writesBack_iff stored user⟩

/-! ### Two users of one flow -/

def ann : CurrentUser := ⟨"ann", by decide⟩

def bob : CurrentUser := ⟨"bob", by decide⟩

def dailyRule (fields : Dict) : Dict := [("cron", .str "0 9 * * *"), ("tz", .str "UTC")] ++ fields

/-- Ann's rule is the only one of the flow. -/
def annsFlow : Definition :=
  ⟨some ⟨some "schedule", none, [dailyRule [("user_id", .str "ann")]], []⟩, []⟩

/-- Bob adds one of his own. -/
def bobsRule : Definition := ⟨some ⟨some "schedule", none, [dailyRule []], []⟩, []⟩

/-- Everything is valid, and every cron has a date a minute on. -/
def lenient : Validators :=
  ⟨fun _ => true, fun _ => true, fun _ => true, some, fun _ _ base => some (base + minute)⟩

/-- Nothing has been fired. -/
def firstTick : Tick := ⟨0, fun _ => none⟩

/-- Ann's rule moves from the first place to the second, where no run of hers is found. -/
theorem rule_moves : ¬ ∀ tick stored body user, LeavesOthers lenient tick stored body user := by
  intro h
  have hfiring := (h firstTick annsFlow bobsRule bob ann (by decide)).2
  have hplaces := congrArg (List.map Prod.snd) hfiring
  exact absurd hplaces (by decide +kernel)

end LunaCore.Flow.ScheduleOwners
