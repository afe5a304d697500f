import Mathlib.Tactic.Linarith
import Mathlib.Tactic.Ring
import LunaCore.Services.Usage

/-! What a row of the ledger is charged, whatever the counts and whatever the prices.

    model with a price       count · rate of that price, all times its multiple at the prompt
    model without one        count · dearest rate of each kind, times 1

    The dearest rates are taken before any multiple, and only the plain count is kept from going
    below zero. So a charge is what it should be where no multiple lifts a rate over the dearest
    and no other count is negative. -/

namespace LunaCore.Services

/-- The kinds of token with a rate of their own. -/
inductive TokenKind where
  | plain
  | cacheRead
  | cacheWrite
  | audio
  | output
  deriving DecidableEq

/-- `LLMUsage` as a provider's counts go into it: `_int` lets any integer through. -/
structure CountedUsage where
  model : String
  inputTokens : ℤ
  outputTokens : ℤ
  cachedInputTokens : Option ℤ
  cacheWriteInputTokens : Option ℤ
  audioInputTokens : Option ℤ
  deriving DecidableEq

/-- The price rows; the model is their primary key. -/
structure PriceTable where
  rows : List LLMPrice
  keyed : (rows.map (·.model)).Nodup

/-- The long-context multiple of a prompt, in ten-thousandths. -/
def tierOf (price : Option LLMPrice) (prompt : ℤ) : ℤ :=
  match price.bind (·.longContextThreshold) with
  | some threshold =>
    if threshold < prompt then (price.bind (·.longContextMultiplier)).getD 10000 else 10000
  | none => 10000

/-- `_cost_expr`, of a row joined to its model's price. -/
def costOf (dearest : Dearest) (price : Option LLMPrice) (row : CountedUsage) : ℤ :=
  let input := price.map (·.inputPerMtok)
  let pIn := input.getD dearest.input
  let pOut := (price.map (·.outputPerMtok)).getD dearest.output
  let pRead := ((price.bind (·.cacheReadPerMtok)).or input).getD dearest.cacheRead
  let pWrite := ((price.bind (·.cacheWritePerMtok)).or input).getD dearest.cacheWrite
  let pAudio := ((price.bind (·.audioInputPerMtok)).or input).getD dearest.audio
  let read := row.cachedInputTokens.getD 0
  let write := row.cacheWriteInputTokens.getD 0
  let audio := row.audioInputTokens.getD 0
  let plain := max (row.inputTokens - read - write - audio) 0
  let total := plain * pIn + read * pRead + write * pWrite + audio * pAudio + row.outputTokens * pOut
  total * tierOf price row.inputTokens

/-- What the ledger reader charges for a row; nothing where no price is known. -/
def PriceTable.cost (T : PriceTable) (row : CountedUsage) : Option ℤ :=
  (dearest T.rows).map fun d => costOf d (priceOf T.rows row.model) row

/-- A row of counts that are not negative. -/
def LLMUsage.toRow (row : LLMUsage) : CountedUsage where
  model := row.model
  inputTokens := row.inputTokens
  outputTokens := row.outputTokens
  cachedInputTokens := row.cachedInputTokens.map (↑)
  cacheWriteInputTokens := row.cacheWriteInputTokens.map (↑)
  audioInputTokens := row.audioInputTokens.map (↑)

/-- On such a row it is the cost the cache invariance is about. -/
theorem costOf_toRow (d : Dearest) (price : Option LLMPrice) (row : LLMUsage) :
    costOf d price row.toRow = costExpr d price row := by
  have hcast : ∀ o : Option ℕ, (o.map Nat.cast).getD (0 : ℤ) = ((o.getD 0 : ℕ) : ℤ) := by
    intro o
    cases o <;> rfl
  simp only [costOf, costExpr, LLMUsage.toRow, hcast]
  rfl

/-! ### Rates and counts by kind -/

/-- What a price row asks for a token; a kind it does not name is a plain one. -/
def LLMPrice.rate (p : LLMPrice) : TokenKind → ℤ
  | .plain => p.inputPerMtok
  | .cacheRead => p.cacheReadPerMtok.getD p.inputPerMtok
  | .cacheWrite => p.cacheWritePerMtok.getD p.inputPerMtok
  | .audio => p.audioInputPerMtok.getD p.inputPerMtok
  | .output => p.outputPerMtok

def Dearest.rate (d : Dearest) : TokenKind → ℤ
  | .plain => d.input
  | .cacheRead => d.cacheRead
  | .cacheWrite => d.cacheWrite
  | .audio => d.audio
  | .output => d.output

/-- The tokens of a row that are charged at each rate. -/
def CountedUsage.count (row : CountedUsage) : TokenKind → ℤ
  | .plain =>
    max (row.inputTokens - row.cachedInputTokens.getD 0 - row.cacheWriteInputTokens.getD 0 -
      row.audioInputTokens.getD 0) 0
  | .cacheRead => row.cachedInputTokens.getD 0
  | .cacheWrite => row.cacheWriteInputTokens.getD 0
  | .audio => row.audioInputTokens.getD 0
  | .output => row.outputTokens

/-- What a token costs in a prompt of this length, its multiple included. -/
def LLMPrice.ratePast (p : LLMPrice) (prompt : ℤ) (kind : TokenKind) : ℤ :=
  p.rate kind * tierOf (some p) prompt

/-- Every kind at its rate. -/
def charge (rate count : TokenKind → ℤ) : ℤ :=
  count .plain * rate .plain + count .cacheRead * rate .cacheRead +
    count .cacheWrite * rate .cacheWrite + count .audio * rate .audio + count .output * rate .output

theorem costOf_some (d : Dearest) (p : LLMPrice) (row : CountedUsage) :
    costOf d (some p) row = charge (p.ratePast row.inputTokens) row.count := by
  have hor : ∀ special : Option ℤ, ∀ dear : ℤ,
      (special.or (some p.inputPerMtok)).getD dear = special.getD p.inputPerMtok := by
    intro special dear
    cases special <;> rfl
  simp only [costOf, Option.map_some, Option.bind_some, Option.getD_some, hor, charge,
    CountedUsage.count, LLMPrice.ratePast, LLMPrice.rate]
  ring

theorem costOf_none (d : Dearest) (row : CountedUsage) :
    costOf d none row = charge (fun kind => d.rate kind * 10000) row.count := by
  simp only [costOf, Option.map_none, Option.bind_none, Option.none_or, Option.getD_none, tierOf,
    charge, CountedUsage.count, Dearest.rate]
  ring

/-! ### What a charge has to be -/

/-- A charge as the ledger promises it. -/
structure Charged (T : PriceTable) (row : CountedUsage) (cost : ℤ) : Prop where
  dominates : priceOf T.rows row.model = none → ∀ p ∈ T.rows,
    charge (p.ratePast row.inputTokens) row.count ≤ cost
  own : ∀ p, priceOf T.rows row.model = some p →
    cost = charge (p.ratePast row.inputTokens) row.count
  nonneg : 0 ≤ cost

/-- The kinds a prompt of this length can be charged for. -/
def Possible (prompt : ℤ) (kind : TokenKind) : Prop := kind = .plain → 0 < prompt

/-- At this prompt length the model's rates are not negative, and for a model without a price no
    row's multiple lifts a rate over the dearest. -/
def Steady (T : PriceTable) (model : String) (prompt : ℤ) : Prop :=
  ∀ d, dearest T.rows = some d → ∀ kind, Possible prompt kind →
    match priceOf T.rows model with
    | some p => 0 ≤ p.ratePast prompt kind
    | none => 0 ≤ d.rate kind ∧ ∀ p ∈ T.rows, p.ratePast prompt kind ≤ d.rate kind * 10000

/-- The counts that nothing keeps from going below zero. -/
def CountedUsage.Sane (row : CountedUsage) : Prop :=
  0 ≤ row.cachedInputTokens.getD 0 ∧ 0 ≤ row.cacheWriteInputTokens.getD 0 ∧
    0 ≤ row.audioInputTokens.getD 0 ∧ 0 ≤ row.outputTokens

/-- One dollar a million tokens of this kind, nothing for the others. -/
def onlyPrice (model : String) (kind : TokenKind) : LLMPrice where
  model := model
  inputPerMtok := if kind = .plain then 10000 else 0
  outputPerMtok := if kind = .output then 10000 else 0
  cacheReadPerMtok := some (if kind = .cacheRead then 10000 else 0)
  cacheWritePerMtok := some (if kind = .cacheWrite then 10000 else 0)
  audioInputPerMtok := some (if kind = .audio then 10000 else 0)
  longContextThreshold := none
  longContextMultiplier := none

/-- A row whose prompt is all cache reads, and more tokens of one kind. -/
def probe (model : String) (prompt : ℤ) (kind : TokenKind) (many : ℤ) : CountedUsage where
  model := model
  inputTokens := prompt
  outputTokens := if kind = .output then many else 0
  cachedInputTokens := some (max prompt 0 + if kind = .cacheRead then many else 0)
  cacheWriteInputTokens := some (if kind = .cacheWrite then many else 0)
  audioInputTokens := some (if kind = .audio then many else 0)

/-! ### Charges compared -/

theorem sane_iff (row : CountedUsage) : row.Sane ↔ ∀ kind, 0 ≤ row.count kind := by
  refine ⟨fun ⟨hread, hwrite, haudio, houtput⟩ kind => ?_, fun h => ?_⟩
  · cases kind with
    | plain => exact le_max_right _ _
    | cacheRead => exact hread
    | cacheWrite => exact hwrite
    | audio => exact haudio
    | output => exact houtput
  · exact ⟨h .cacheRead, h .cacheWrite, h .audio, h .output⟩

/-- A prompt of nothing has no plain tokens. -/
theorem count_impossible {row : CountedUsage} (hsane : row.Sane) {kind : TokenKind}
    (h : ¬ Possible row.inputTokens kind) : row.count kind = 0 := by
  obtain ⟨hread, hwrite, haudio, -⟩ := hsane
  rw [Possible, Classical.not_imp] at h
  obtain ⟨rfl, hprompt⟩ := h
  rw [CountedUsage.count]
  omega

theorem charge_zero (count : TokenKind → ℤ) : charge (fun _ => 0) count = 0 := by
  simp [charge]

theorem charge_mono {rate rate' : TokenKind → ℤ} {row : CountedUsage} (hsane : row.Sane)
    (h : ∀ kind, Possible row.inputTokens kind → rate kind ≤ rate' kind) :
    charge rate row.count ≤ charge rate' row.count := by
  have hkind : ∀ kind, row.count kind * rate kind ≤ row.count kind * rate' kind := by
    intro kind
    by_cases hpossible : Possible row.inputTokens kind
    · exact mul_le_mul_of_nonneg_left (h kind hpossible) ((sane_iff row).mp hsane kind)
    · rw [count_impossible hsane hpossible, zero_mul, zero_mul]
  simp only [charge]
  linarith [hkind .plain, hkind .cacheRead, hkind .cacheWrite, hkind .audio, hkind .output]

theorem probe_sane (model : String) (prompt : ℤ) (kind : TokenKind) {many : ℤ} (h : 0 ≤ many) :
    (probe model prompt kind many).Sane := by
  refine ⟨?_, ?_, ?_, ?_⟩ <;> simp only [probe, Option.getD_some] <;> split <;> omega

theorem charge_probe (rate : TokenKind → ℤ) (model : String) (prompt : ℤ) {kind : TokenKind}
    (hkind : kind ≠ .plain) {many : ℤ} (h : 0 ≤ many) :
    charge rate (probe model prompt kind many).count =
      max prompt 0 * rate .cacheRead + many * rate kind := by
  have hplain : (probe model prompt kind many).count .plain = 0 := by
    cases kind <;> simp only [probe, CountedUsage.count, Option.getD_some, reduceCtorEq, if_true,
      if_false] <;> omega
  rw [charge, hplain]
  cases kind with
  | plain => exact absurd rfl hkind
  | cacheRead =>
    simp [probe, CountedUsage.count]
    ring
  | cacheWrite => simp [probe, CountedUsage.count]
  | audio => simp [probe, CountedUsage.count]
  | output => simp [probe, CountedUsage.count]

/-- What grows with every token grows no faster than what bounds it. -/
theorem le_of_affine (a b : ℤ) {x y : ℤ} (h : ∀ m : ℤ, 0 ≤ m → a + m * x ≤ b + m * y) : x ≤ y := by
  by_contra hlt
  have hgap : 1 ≤ x - y := by omega
  have hm : 0 ≤ |b - a| + 1 := by positivity
  have hgrown := h (|b - a| + 1) hm
  have hmul : |b - a| + 1 ≤ (|b - a| + 1) * (x - y) := le_mul_of_one_le_right hm hgap
  have habs := le_abs_self (b - a)
  linarith

/-- EXACT CONDITION: no sane row of this model and prompt is charged more at the one rates than at
    the other iff no kind it can be charged for is. -/
theorem charge_le_iff (rate rate' : TokenKind → ℤ) (model : String) (prompt : ℤ) :
    (∀ row : CountedUsage, row.model = model → row.inputTokens = prompt → row.Sane →
      charge rate row.count ≤ charge rate' row.count) ↔
    ∀ kind, Possible prompt kind → rate kind ≤ rate' kind := by
  refine ⟨fun h kind hpossible => ?_, fun h row _ hprompt hsane =>
    charge_mono hsane (hprompt ▸ h)⟩
  by_cases hkind : kind = .plain
  · -- a prompt of plain tokens only
    have hprompt : 0 < prompt := hpossible hkind
    have hrow := h ⟨model, prompt, 0, none, none, none⟩ rfl rfl ⟨le_rfl, le_rfl, le_rfl, le_rfl⟩
    simp only [charge, CountedUsage.count, Option.getD_none, sub_zero, zero_mul, add_zero,
      max_eq_left hprompt.le] at hrow
    rw [hkind]
    exact le_of_mul_le_mul_left hrow hprompt
  · refine le_of_affine (max prompt 0 * rate .cacheRead) (max prompt 0 * rate' .cacheRead)
      fun m hm => ?_
    have hrow := h (probe model prompt kind m) rfl rfl (probe_sane model prompt kind hm)
    rw [charge_probe rate model prompt hkind hm, charge_probe rate' model prompt hkind hm] at hrow
    exact hrow

/-- At rates that are not negative iff no sane row costs less than nothing. -/
theorem charge_nonneg_iff (rate : TokenKind → ℤ) (model : String) (prompt : ℤ) :
    (∀ row : CountedUsage, row.model = model → row.inputTokens = prompt → row.Sane →
      0 ≤ charge rate row.count) ↔
    ∀ kind, Possible prompt kind → 0 ≤ rate kind := by
  rw [← charge_le_iff (fun _ => 0) rate model prompt]
  simp only [charge_zero]

/-! ### The table and the counts -/

theorem charged_iff (T : PriceTable) (row : CountedUsage) {d : Dearest}
    (hd : dearest T.rows = some d) :
    (∀ c, T.cost row = some c → Charged T row c) ↔
      match priceOf T.rows row.model with
      | some p => 0 ≤ charge (p.ratePast row.inputTokens) row.count
      | none => 0 ≤ charge (fun kind => d.rate kind * 10000) row.count ∧
          ∀ p ∈ T.rows, charge (p.ratePast row.inputTokens) row.count ≤
            charge (fun kind => d.rate kind * 10000) row.count := by
  simp only [PriceTable.cost, hd, Option.map_some, Option.some.injEq, forall_eq']
  cases hprice : priceOf T.rows row.model with
  | some p =>
    simp only [costOf_some]
    refine ⟨fun h => h.nonneg, fun h => ⟨fun hnone => ?_, fun q hq => ?_, h⟩⟩
    · rw [hprice] at hnone
      cases hnone
    · rw [hprice, Option.some.injEq] at hq
      rw [hq]
  | none =>
    simp only [costOf_none]
    refine ⟨fun h => ⟨h.nonneg, h.dominates hprice⟩, fun h => ⟨fun _ => h.2, fun q hq => ?_, h.1⟩⟩
    rw [hprice] at hq
    cases hq

/-- EXACT CONDITION, the table: the sane rows of a model and a prompt length are charged as promised
    iff the table is steady there. -/
theorem charged_sane_iff (T : PriceTable) (model : String) (prompt : ℤ) :
    (∀ row : CountedUsage, row.model = model → row.inputTokens = prompt → row.Sane →
      ∀ c, T.cost row = some c → Charged T row c) ↔ Steady T model prompt := by
  rw [Steady]
  cases hd : dearest T.rows with
  | none => simp [PriceTable.cost, hd]
  | some d =>
    simp only [Option.some.injEq, forall_eq']
    cases hprice : priceOf T.rows model with
    | some p =>
      rw [← charge_nonneg_iff (p.ratePast prompt) model prompt]
      refine forall_congr' fun row => forall_congr' fun hmodel => forall_congr' fun hprompt =>
        forall_congr' fun _ => ?_
      rw [charged_iff T row hd, hmodel, hprice, hprompt]
    | none =>
      have hdear := charge_nonneg_iff (fun kind => d.rate kind * 10000) model prompt
      simp only [Nat.ofNat_pos, mul_nonneg_iff_of_pos_right] at hdear
      have hrows := fun p : LLMPrice =>
        charge_le_iff (p.ratePast prompt) (fun kind => d.rate kind * 10000) model prompt
      constructor
      · intro h kind hpossible
        have hboth : ∀ row : CountedUsage, row.model = model → row.inputTokens = prompt → row.Sane →
            0 ≤ charge (fun kind => d.rate kind * 10000) row.count ∧
              ∀ p ∈ T.rows, charge (p.ratePast prompt) row.count ≤
                charge (fun kind => d.rate kind * 10000) row.count := by
          intro row hmodel hprompt hsane
          have hrow := (charged_iff T row hd).mp (h row hmodel hprompt hsane)
          rwa [hmodel, hprice, hprompt] at hrow
        refine ⟨hdear.mp (fun row hm hp hs => (hboth row hm hp hs).1) kind hpossible, ?_⟩
        intro p hp
        exact (hrows p).mp (fun row hm hprompt hs => (hboth row hm hprompt hs).2 p hp) kind hpossible
      · intro h row hmodel hprompt hsane
        rw [charged_iff T row hd, hmodel, hprice, hprompt]
        refine ⟨hdear.mpr (fun kind hk => (h kind hk).1) row hmodel hprompt hsane, fun p hp => ?_⟩
        exact (hrows p).mpr (fun kind hk => (h kind hk).2 p hp) row hmodel hprompt hsane

/-- The table with one price, of one kind of token. -/
def onlyTable (model : String) (kind : TokenKind) : PriceTable where
  rows := [onlyPrice model kind]
  keyed := List.pairwise_singleton _ _

theorem onlyPrice_ratePast (model : String) (kind : TokenKind) (prompt : ℤ) (k : TokenKind) :
    (onlyPrice model kind).ratePast prompt k = if kind = k then 100000000 else 0 := by
  cases kind <;> cases k <;> rfl

theorem priceOf_onlyTable (model : String) (kind : TokenKind) :
    priceOf (onlyTable model kind).rows model = some (onlyPrice model kind) := by
  simp [priceOf, onlyTable, onlyPrice]

theorem onlyTable_steady (model : String) (kind : TokenKind) (prompt : ℤ) :
    Steady (onlyTable model kind) model prompt := by
  intro d _ k _
  rw [priceOf_onlyTable]
  change 0 ≤ (onlyPrice model kind).ratePast prompt k
  rw [onlyPrice_ratePast]
  split <;> decide

/-- EXACT CONDITION, the counts: a row is charged as promised by every steady table iff it is sane. -/
theorem sane_iff_charged (row : CountedUsage) :
    (∀ T : PriceTable, Steady T row.model row.inputTokens →
      ∀ c, T.cost row = some c → Charged T row c) ↔ row.Sane := by
  refine ⟨fun h => (sane_iff row).mpr fun kind => ?_, fun hsane T hsteady =>
    (charged_sane_iff T _ _).mpr hsteady row rfl rfl hsane⟩
  have hcharged := h (onlyTable row.model kind) (onlyTable_steady row.model kind row.inputTokens)
  rw [charged_iff _ row rfl, priceOf_onlyTable] at hcharged
  have hcharge : charge ((onlyPrice row.model kind).ratePast row.inputTokens) row.count =
      row.count kind * 100000000 := by
    cases kind <;> simp [charge, onlyPrice_ratePast]
  change 0 ≤ charge ((onlyPrice row.model kind).ratePast row.inputTokens) row.count at hcharged
  rw [hcharge] at hcharged
  omega

/-- EXACT CONDITION, of a table and a row: the table charges the sane rows like this one (of its model
    and prompt length) as promised iff it is steady there, and the row is charged so by every table
    that is steady there iff it is sane. -/
theorem charged_exactly (T : PriceTable) (row : CountedUsage) :
    ((∀ other : CountedUsage, other.model = row.model → other.inputTokens = row.inputTokens →
      other.Sane → ∀ c, T.cost other = some c → Charged T other c) ↔
        Steady T row.model row.inputTokens) ∧
    ((∀ S : PriceTable, Steady S row.model row.inputTokens →
      ∀ c, S.cost row = some c → Charged S row c) ↔ row.Sane) :=
  ⟨charged_sane_iff T row.model row.inputTokens, sane_iff_charged row⟩

/-- A model whose prompts cost twice as much past 200000 tokens. -/
def doublingTable : PriceTable where
  rows := [⟨"opus", 50000, 250000, none, none, none, some 200000, some 20000⟩]
  keyed := List.pairwise_singleton _ _

/-- 300000 tokens of a model without a price cost half of what they cost at the only known one. -/
theorem long_prompt_undercharged :
    ¬ ∀ (T : PriceTable) (row : CountedUsage) (c : ℤ), T.cost row = some c → Charged T row c := by
  intro h
  have hcharged := h doublingTable ⟨"sonnet", 300000, 0, none, none, none⟩
    (300000 * 50000 * 10000) (by decide)
  have hdominated := hcharged.dominates (by decide) _ List.mem_cons_self
  revert hdominated
  decide

end LunaCore.Services
