import Mathlib.Data.List.Sort
import LunaCore.Schemes.Grouping
import LunaCore.Services.Purposes

/-! `usage_report`: the ledger of a period, grouped by any of its columns.

        rows of the period     ─ group by (user_id, purpose) ─→     a line for each key
                                                                    calls, tokens, cost

    The lines part the rows: nothing is counted twice or left out, and whatever is grouped by, the
    lines that name a user add up to what that user spent. Days are those of the database session's
    time zone, a parameter here. -/

namespace LunaCore.Services
open LunaCore.Schemes

/-! ### The report -/

/-- `REPORT_GROUPS`. -/
inductive ReportGroup where
  | userId
  | purpose
  | model
  | agentName
  | day
  deriving DecidableEq

/-- The column a name stands for. -/
def ReportGroup.ofName : String → Option ReportGroup
  | "user_id" => some .userId
  | "purpose" => some .purpose
  | "model" => some .model
  | "agent_name" => some .agentName
  | "day" => some .day
  | _ => none

/-- A value of one of these columns. -/
inductive Cell where
  | user (userId : Option ℕ)
  | purpose (purpose : Option String)
  | model (model : String)
  | agent (agentName : Option String)
  | day (day : ℕ)
  deriving DecidableEq

/-- The value of a row's column; `day` is `date_trunc`. -/
def ReportGroup.cell (day : ℕ → ℕ) (row : LedgerRow) : ReportGroup → Cell
  | .userId => .user row.userId
  | .purpose => .purpose row.purpose
  | .model => .model row.usage.model
  | .agentName => .agent row.agentName
  | .day => .day (day row.createdAt)

/-- A line of the report. -/
structure ReportLine where
  key : List Cell
  calls : ℕ
  inputTokens : ℕ
  cacheReadTokens : ℕ
  cacheWriteTokens : ℕ
  outputTokens : ℕ
  costUsd : Option ℤ
  unpriced : Option Bool
  deriving DecidableEq

/-- The line of some rows. A sum over no rows is NULL: `coalesce` makes it 0, but for the cost. -/
def reportLine (prices : List LLMPrice) (key : List Cell) (rows : List LedgerRow) : ReportLine where
  key := key
  calls := rows.length
  inputTokens := (rows.map fun row => row.usage.inputTokens).sum
  cacheReadTokens := (rows.map fun row => row.usage.cachedInputTokens.getD 0).sum
  cacheWriteTokens := (rows.map fun row => row.usage.cacheWriteInputTokens.getD 0).sum
  outputTokens := (rows.map fun row => row.usage.outputTokens).sum
  costUsd := if rows = [] then none else (dearest prices).map fun d =>
    (rows.map fun row => costExpr d (priceOf prices row.usage.model) row.usage).sum
  unpriced := if rows = [] then none else
    some (rows.any fun row => (priceOf prices row.usage.model).isNone)

/-- What the lines are ordered by: the cost, NULL last, or the input where no price is known. -/
def ReportLine.rank (prices : List LLMPrice) (line : ReportLine) : Option ℤ :=
  match dearest prices with
  | none => some line.inputTokens
  | some _ => line.costUsd

/-- Dearest first. -/
def comesFirst (prices : List LLMPrice) (a b : ReportLine) : Prop :=
  ∀ less ∈ b.rank prices, ∃ more ∈ a.rank prices, less ≤ more

instance (prices : List LLMPrice) (a b : ReportLine) : Decidable (comesFirst prices a b) :=
  inferInstanceAs (Decidable (∀ less ∈ b.rank prices, ∃ more ∈ a.rank prices, less ≤ more))

/-- The rows a report is about. -/
def reportedRows (ledger : List LedgerRow) (since : ℕ) (upTo userId : Option ℕ) : List LedgerRow :=
  ledger.filter fun row => since ≤ row.createdAt ∧ (∀ moment ∈ upTo, row.createdAt < moment) ∧
    ∀ user ∈ userId, row.userId = some user

/-- The key of a row. -/
def keyOf (day : ℕ → ℕ) (groups : List ReportGroup) (row : LedgerRow) : List Cell :=
  groups.map (ReportGroup.cell day row)

/-- `usage_report`; refused with the names it does not know. Without a column to group by, there is
    one line, also where there are no rows. -/
def usageReport (day : ℕ → ℕ) (prices : List LLMPrice) (ledger : List LedgerRow) (since : ℕ)
    (upTo : Option ℕ) (groupBy : List String) (userId : Option ℕ) :
    Except (List String) (List ReportLine) :=
  let unknown := groupBy.filter fun name => (ReportGroup.ofName name).isNone
  if unknown ≠ [] then .error unknown
  else
    let groups := groupBy.filterMap ReportGroup.ofName
    let rows := reportedRows ledger since upTo userId
    let lines := if groups = [] then [reportLine prices [] rows]
      else (groupKeys (keyOf day groups) rows).map fun key =>
        reportLine prices key (group (keyOf day groups) rows key)
    .ok (lines.insertionSort (comesFirst prices))

/-! ### What the lines add up to -/

/-- SPEC: the lines part the rows. Each has the rows of its own key, at least one; each row's key
    has a line; the figures add up to those of all rows. -/
structure Parts (prices : List LLMPrice) (keyOf : LedgerRow → List Cell) (rows : List LedgerRow)
    (lines : List ReportLine) : Prop where
  keys : (lines.map ReportLine.key).Nodup
  every : ∀ row ∈ rows, ∃ line ∈ lines, line.key = keyOf row
  own : ∀ line ∈ lines, group keyOf rows line.key ≠ [] ∧
    line = reportLine prices line.key (group keyOf rows line.key)
  calls : (lines.map ReportLine.calls).sum = rows.length
  inputTokens : (lines.map ReportLine.inputTokens).sum =
    (rows.map fun row => row.usage.inputTokens).sum
  cacheReadTokens : (lines.map ReportLine.cacheReadTokens).sum =
    (rows.map fun row => row.usage.cachedInputTokens.getD 0).sum
  cacheWriteTokens : (lines.map ReportLine.cacheWriteTokens).sum =
    (rows.map fun row => row.usage.cacheWriteInputTokens.getD 0).sum
  outputTokens : (lines.map ReportLine.outputTokens).sum =
    (rows.map fun row => row.usage.outputTokens).sum
  cost : ∀ d ∈ dearest prices, (lines.filterMap ReportLine.costUsd).sum =
    (rows.map fun row => costExpr d (priceOf prices row.usage.model) row.usage).sum

section

variable {day : ℕ → ℕ} {prices : List LLMPrice} {ledger : List LedgerRow} {since : ℕ}
  {upTo userId : Option ℕ} {groupBy : List String} {lines : List ReportLine}

/-- The columns of the names. -/
abbrev columns (groupBy : List String) : List ReportGroup := groupBy.filterMap ReportGroup.ofName

theorem comesFirst_total (a b : ReportLine) : comesFirst prices a b ∨ comesFirst prices b a := by
  unfold comesFirst
  cases ha : a.rank prices with
  | none => exact .inr (by simp)
  | some x =>
    cases hb : b.rank prices with
    | none => exact .inl (by simp)
    | some y => simpa using le_total y x

theorem comesFirst_trans {a b c : ReportLine} (hab : comesFirst prices a b)
    (hbc : comesFirst prices b c) : comesFirst prices a c := by
  intro least hleast
  obtain ⟨less, hless, hle⟩ := hbc least hleast
  obtain ⟨more, hmore, hle'⟩ := hab less hless
  exact ⟨more, hmore, hle.trans hle'⟩

/-- A report that is given knows its names, and holds a line for each key in some order. -/
theorem usageReport_ok (h : usageReport day prices ledger since upTo groupBy userId = .ok lines)
    (hgroups : groupBy ≠ []) :
    (∀ name ∈ groupBy, (ReportGroup.ofName name).isSome) ∧
      lines.Perm ((groupKeys (keyOf day (columns groupBy))
        (reportedRows ledger since upTo userId)).map fun key => reportLine prices key
          (group (keyOf day (columns groupBy)) (reportedRows ledger since upTo userId) key)) ∧
      lines.Pairwise (comesFirst prices) := by
  rw [usageReport] at h
  split at h
  case isTrue => cases h
  case isFalse hknown =>
    have hnames : ∀ name ∈ groupBy, (ReportGroup.ofName name).isSome := by
      simpa [Option.isSome_iff_ne_none] using hknown
    have hsome : columns groupBy ≠ [] := by
      obtain ⟨name, rest, rfl⟩ := List.exists_cons_of_ne_nil hgroups
      obtain ⟨column, hcolumn⟩ := Option.isSome_iff_exists.mp (hnames name List.mem_cons_self)
      rw [columns, List.filterMap_cons_some hcolumn]
      exact List.cons_ne_nil _ _
    cases h
    rw [if_neg hsome]
    refine ⟨hnames, List.perm_insertionSort _ _, ?_⟩
    have htotal : Std.Total (comesFirst prices) := ⟨comesFirst_total⟩
    have htrans : IsTrans ReportLine (comesFirst prices) := ⟨fun _ _ _ => comesFirst_trans⟩
    exact List.pairwise_insertionSort _ _

/-- The figures of the lines that pass a test of the key are those of the rows that do. -/
theorem sum_lines {M : Type*} [AddCommMonoid M] {keyOf : LedgerRow → List Cell}
    {rows : List LedgerRow} (figure : ReportLine → M) (f : LedgerRow → M)
    (hfigure : ∀ key ∈ groupKeys keyOf rows,
      figure (reportLine prices key (group keyOf rows key)) = ((group keyOf rows key).map f).sum)
    (hperm : lines.Perm ((groupKeys keyOf rows).map fun key =>
      reportLine prices key (group keyOf rows key))) (p : List Cell → Bool) :
    ((lines.filter fun line => p line.key).map figure).sum =
      ((rows.filter fun row => p (keyOf row)).map f).sum := by
  rw [((hperm.filter fun line => p line.key).map figure).sum_eq, List.filter_map, List.map_map,
    ← sum_groups_filter f p]
  refine congrArg List.sum (List.map_congr_left fun key hkey => ?_)
  exact hfigure key (List.mem_filter.mp hkey).1

/-- The cost of a line with rows. -/
theorem costUsd_reportLine {d : Dearest} (hd : dearest prices = some d) (key : List Cell)
    {rows : List LedgerRow} (hrows : rows ≠ []) : (reportLine prices key rows).costUsd = some
      (rows.map fun row => costExpr d (priceOf prices row.usage.model) row.usage).sum := by
  simp [reportLine, hrows, hd]

/-- The costs of the lines that pass a test of the key. -/
theorem sum_costs {keyOf : LedgerRow → List Cell} {rows : List LedgerRow} {d : Dearest}
    (hd : dearest prices = some d)
    (hperm : lines.Perm ((groupKeys keyOf rows).map fun key =>
      reportLine prices key (group keyOf rows key))) (p : List Cell → Bool) :
    ((lines.filter fun line => p line.key).filterMap ReportLine.costUsd).sum =
      ((rows.filter fun row => p (keyOf row)).map fun row =>
        costExpr d (priceOf prices row.usage.model) row.usage).sum := by
  rw [← sum_lines (fun line => line.costUsd.getD 0) _ (fun key hkey => ?_) hperm p]
  · refine congrArg List.sum ?_
    rw [← List.filterMap_eq_map']
    refine List.filterMap_congr fun line hline => ?_
    obtain ⟨key, hkey, rfl⟩ := List.mem_map.mp (hperm.mem_iff.mp (List.mem_filter.mp hline).1)
    rw [costUsd_reportLine hd key (group_ne_nil hkey)]
    rfl
  · rw [costUsd_reportLine hd key (group_ne_nil hkey)]
    rfl

/-- CORRECT: the lines of a report part the rows it is about, dearest first. -/
theorem usageReport_parts (day : ℕ → ℕ) (prices : List LLMPrice) (ledger : List LedgerRow)
    (since : ℕ) (upTo userId : Option ℕ) {groupBy : List String} (hgroups : groupBy ≠ [])
    {lines : List ReportLine}
    (h : usageReport day prices ledger since upTo groupBy userId = .ok lines) :
    Parts prices (keyOf day (columns groupBy)) (reportedRows ledger since upTo userId) lines ∧
      lines.Pairwise (comesFirst prices) := by
  obtain ⟨-, hperm, hsorted⟩ := usageReport_ok h hgroups
  have hall {M : Type} [AddCommMonoid M] (figure : ReportLine → M) (f : LedgerRow → M)
      (hfigure : ∀ key rows, figure (reportLine prices key rows) = (rows.map f).sum) :
      (lines.map figure).sum = ((reportedRows ledger since upTo userId).map f).sum := by
    have hsum := sum_lines figure f (fun key _ => hfigure key _) hperm fun _ => true
    simpa using hsum
  refine ⟨⟨?_, ?_, ?_, ?_, hall _ _ fun _ _ => rfl, hall _ _ fun _ _ => rfl,
    hall _ _ fun _ _ => rfl, hall _ _ fun _ _ => rfl, ?_⟩, hsorted⟩
  · rw [(hperm.map ReportLine.key).nodup_iff, List.map_map]
    exact (List.map_id _).symm ▸ groupKeys_nodup
  · intro row hrow
    refine ⟨_, hperm.mem_iff.mpr (List.mem_map.mpr ⟨_, ?_, rfl⟩), rfl⟩
    exact mem_groupKeys.mpr ⟨row, hrow, rfl⟩
  · intro line hline
    obtain ⟨key, hkey, rfl⟩ := List.mem_map.mp (hperm.mem_iff.mp hline)
    exact ⟨group_ne_nil hkey, rfl⟩
  · rw [hall _ (fun _ => 1) fun key rows => by simp [reportLine]]
    simp
  · intro d hd
    have hsum := sum_costs (Option.mem_def.mp hd) hperm fun _ => true
    simpa using hsum

/-- Only the user column gives a user. -/
theorem user_mem_keyOf {day : ℕ → ℕ} {groups : List ReportGroup} (hgroups : .userId ∈ groups)
    (row : LedgerRow) (user : Option ℕ) :
    Cell.user user ∈ keyOf day groups row ↔ row.userId = user := by
  constructor
  · intro h
    obtain ⟨column, -, hcell⟩ := List.mem_map.mp h
    cases column <;> simp [ReportGroup.cell] at hcell
    exact hcell
  · rintro rfl
    exact List.mem_map.mpr ⟨.userId, hgroups, rfl⟩

/-- CORRECT: whatever else a report is grouped by, the lines that name a user cost what the user
    spent since then. -/
theorem usageReport_spend (day : ℕ → ℕ) (prices : List LLMPrice) (ledger : List LedgerRow)
    (since : ℕ) {groupBy : List String} (huser : "user_id" ∈ groupBy) {lines : List ReportLine}
    (h : usageReport day prices ledger since none groupBy none = .ok lines) (user : ℕ) :
    spendUsd prices ledger user since none none = (dearest prices).map fun _ =>
      ((lines.filter fun line => Cell.user (some user) ∈ line.key).filterMap
        ReportLine.costUsd).sum := by
  obtain ⟨-, hperm, -⟩ := usageReport_ok h (List.ne_nil_of_mem huser)
  have hcolumn : ReportGroup.userId ∈ columns groupBy := List.mem_filterMap.mpr ⟨_, huser, rfl⟩
  rw [spendUsd]
  cases hd : dearest prices with
  | none => rfl
  | some d =>
    have hsum := sum_costs hd hperm fun key => decide (Cell.user (some user) ∈ key)
    rw [Option.map_some, Option.map_some, hsum]
    refine congrArg (fun rows => some (List.map _ rows).sum) ?_
    rw [reportedRows, List.filter_filter]
    refine List.filter_congr fun row _ => ?_
    simp [user_mem_keyOf hcolumn, restricted_none]

/-- Two users and a nightly job, at a cost of one per token. -/
def twoUsers : List LedgerRow :=
  let used (model : String) (input : ℕ) : LLMUsage := ⟨model, input, 1, none, none, none, input + 1⟩
  [⟨0, some 7, some "chat", none, 10, used "m" 5⟩, ⟨0, some 8, some "chat", none, 11, used "m" 3⟩,
    ⟨0, some 7, some "chat.title", none, 12, used "m" 2⟩, ⟨0, none, some "nightly", none, 13, used "n" 9⟩]

def onePrice : List LLMPrice := [⟨"m", 1, 1, none, none, none, none, none⟩]

/-- The report of the two users, by user. -/
def byUser : List ReportLine :=
  [⟨[.user none], 1, 9, 0, 0, 1, some 100000, some true⟩,
    ⟨[.user (some 7)], 2, 7, 0, 0, 2, some 90000, some false⟩,
    ⟨[.user (some 8)], 1, 3, 0, 0, 1, some 40000, some false⟩]

theorem usageReport_byUser :
    usageReport id onePrice twoUsers 0 none ["user_id"] none = .ok byUser := by decide +kernel

theorem usageReport_parts_twoUsers :
    Parts onePrice (keyOf id (columns ["user_id"])) (reportedRows twoUsers 0 none none) byUser ∧
      byUser.Pairwise (comesFirst onePrice) :=
  usageReport_parts id onePrice twoUsers 0 none none (by decide) usageReport_byUser

theorem usageReport_spend_twoUsers : spendUsd onePrice twoUsers 7 0 none none = some 90000 :=
  usageReport_spend id onePrice twoUsers 0 (by decide) usageReport_byUser 7

end

end LunaCore.Services
